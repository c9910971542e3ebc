import BackendProjects.Workflow.Frames

/-! A run of the source as it is written: the first pass of the scheduling loop meets an
unbound name after the start has been committed, and nothing resets the status. -/
namespace BackendProjects.Workflow
open Library

/-- The stages that a run without `lock` goes through, from an execution without rows. -/
inductive Strands (db : Database) (s : RunState) : Prop
  | lookup (hmain : s.main = .lookup) (hdb : s.db = db)
  | loaded (hmain : s.main = .loaded) (hdb : s.db = db) (hmem : s.mem = db)
  | starting (hmain : s.main = .starting) (hdb : s.db.execution.status = .running)
      (hmem : s.mem.tasks = [])
  | loop (hmain : s.main = .loop) (hdb : s.db.execution.status = .running)
  | checking (hmain : s.main = .checking) (hdb : s.db.execution.status = .running)
      (hmem : s.mem.execution.status = .running)
  | raised (hmain : s.main = .raised lockUnbound) (hdb : s.db.execution.status = .running)

structure Stranded (db : Database) (s : RunState) : Prop where
  idle : Idle s
  wave : s.wave = []
  completed : s.completed = ∅
  skipped : s.skipped = ∅
  failed : s.failed = false
  stage : Strands db s

variable {E : Engine} {answers : Answers} {db : Database} {s s' : RunState}

private theorem Stranded.start (E : Engine) (db : Database) : Stranded db (.start E db) :=
  ⟨Idle.start E db, rfl, rfl, rfl, rfl, .lookup rfl rfl⟩

private def stagesLeft : MainPc → Nat
  | .lookup => 5
  | .loaded => 4
  | .starting => 3
  | .loop => 2
  | .checking => 1
  | _ => 0

private theorem Stranded.body (inv : Stranded db s) (hlock : E.reading.lock = false)
    (hpending : db.execution.status = .pending) (hrows : db.tasks = []) {now : Time}
    (h : mainStep E now s = some s') : Stranded db s' ∧ stagesLeft s'.main < stagesLeft s.main := by
  have idle := inv.idle.mainMove (mainStep_move h)
  obtain ⟨_, hwave, hcompleted, hskipped, hfailed, stage⟩ := inv
  cases stage with
  | lookup hmain hdb =>
    simp only [mainStep, hmain] at h
    cases h
    exact ⟨⟨idle, hwave, hcompleted, hskipped, hfailed, .loaded rfl hdb hdb⟩, by simp [hmain, stagesLeft]⟩
  | loaded hmain hdb hmem =>
    have hstart : s.mem.execution.status.canTransitionTo .running := by
      rw [hmem, hpending]
      decide
    simp only [mainStep, hmain, if_pos hstart] at h
    cases h
    refine ⟨⟨idle, hwave, hcompleted, hskipped, hfailed, .starting rfl ?_ ?_⟩, by simp [hmain, stagesLeft]⟩
    · simp [hdb, hmem, WorkflowExecution.start]
    · rw [RunState.saveExecution_mem_tasks, hmem, hrows]
  | starting hmain hdb hmem =>
    simp only [mainStep, hmain, hmem, List.foldl_nil] at h
    cases h
    exact ⟨⟨idle, hwave, hcompleted, hskipped, hfailed, .loop rfl hdb⟩, by simp [hmain, stagesLeft]⟩
  | loop hmain hdb =>
    have hlt : s.completed.card + s.skipped.card < E.dag.nodes.length := by
      rw [hcompleted, hskipped]
      exact E.dag.nodes_pos
    simp only [mainStep, hmain, if_pos hlt] at h
    cases h
    exact ⟨⟨idle, hwave, hcompleted, hskipped, hfailed, .checking rfl hdb hdb⟩, by simp [hmain, stagesLeft]⟩
  | checking hmain hdb hmem =>
    simp only [mainStep, hmain, hmem, hfailed, hlock] at h
    cases h
    exact ⟨⟨idle, hwave, hcompleted, hskipped, rfl, .raised rfl hdb⟩, by simp [hmain, stagesLeft]⟩
  | raised hmain hdb => simp [mainStep, hmain] at h

private theorem Stranded.step (inv : Stranded db s) (hlock : E.reading.lock = false)
    (hpending : db.execution.status = .pending) (hrows : db.tasks = []) (h : Step E answers s s') :
    Stranded db s' ∧ stagesLeft s'.main < stagesLeft s.main := by
  have hdone (t : TaskId) : s.pc t = .done := inv.idle.outside t (by simp [inv.wave])
  obtain ⟨c, legal, h⟩ := h
  cases c with
  | main now => exact inv.body hlock hpending hrows h
  | propagate t => simp [Workflow.step, hdone] at h
  | node t now sample outcome =>
    simp only [Workflow.step] at h
    split at h
    · next node hnode => simp [nodeStep, hdone] at h
    · cases h

private theorem Stranded.run (hlock : E.reading.lock = false)
    (hpending : db.execution.status = .pending) (hrows : db.tasks = [])
    (run : Run (Step E answers) (.start E db) s) : Stranded db s :=
  run.invariant (fun _ _ inv h => (inv.step hlock hpending hrows h).1) (.start E db)

private theorem Stranded.status (inv : Stranded db s) (hpending : db.execution.status = .pending) :
    s.db.execution.status = .pending ∨ s.db.execution.status = .running := by
  cases inv.stage with
  | lookup hmain hdb => exact Or.inl (hdb ▸ hpending)
  | loaded hmain hdb hmem => exact Or.inl (hdb ▸ hpending)
  | starting hmain hdb hmem => exact Or.inr hdb
  | loop hmain hdb => exact Or.inr hdb
  | checking hmain hdb hmem => exact Or.inr hdb
  | raised hmain hdb => exact Or.inr hdb

private theorem Stranded.ended (inv : Stranded db s) (hend : s.Ended) :
    s.main = .raised lockUnbound ∧ s.db.execution.status = .running := by
  have hends := hend.ends
  cases inv.stage with
  | raised hmain hdb => exact ⟨hmain, hdb⟩
  | lookup hmain | loaded hmain | starting hmain | loop hmain | checking hmain =>
    rw [hmain] at hends
    cases hends

/-- Where every step leads on, a run that cannot go on has ended. -/
private theorem Stranded.terminal (inv : Stranded db s) (h : Terminal (Step E answers) s) :
    s.Ended := by
  by_contra hend
  have hg : s.main ≠ .gathering := by
    intro hmain
    cases inv.stage <;> simp_all
  obtain ⟨s', hs'⟩ := mainStep_enabled E hg hend 0
  exact h s' ⟨.main 0, trivial, hs'⟩

/-- As it is written, the source strands every pending execution without rows: each run can be
brought to an end, every end is an uncaught NameError with the status committed as running, and
no state on the way is a return or has a final status. -/
theorem execute_workflow_strands (E : Engine) (answers : Answers) (db : Database)
    (hread : E.reading = .written) (hpending : db.execution.status = .pending)
    (hrows : db.tasks = []) :
    (∀ s, Run (Step E answers) (.start E db) s → ∃ t, Run (Step E answers) s t ∧ t.Ended) ∧
    ∀ s, Run (Step E answers) (.start E db) s →
      (s.db.execution.status = .pending ∨ s.db.execution.status = .running) ∧
      (s.Ended → s.main = .raised lockUnbound ∧ s.db.execution.status = .running) := by
  have hlock : E.reading.lock = false := by rw [hread]; rfl
  have hinv {s : RunState} (run : Run (Step E answers) (.start E db) s) : Stranded db s :=
    Stranded.run hlock hpending hrows run
  refine ⟨fun s run => ?_, fun s run => ⟨(hinv run).status hpending, (hinv run).ended⟩⟩
  have hhalts : Halts (Step E answers) s := by
    refine halts_of_measure (fun s : RunState => stagesLeft s.main) ?_ ?_ (hinv run)
    · exact fun _ _ inv h => (inv.step hlock hpending hrows h).1
    · exact fun _ _ inv h => (inv.step hlock hpending hrows h).2
  obtain ⟨t, ht, hterm⟩ := hhalts.exists_terminal
  exact ⟨t, ht, (hinv (run.trans ht)).terminal hterm⟩

/-! ### Two delays in a row -/

theorem execute_workflow_strands_chain :
    (∀ s, Run (Step (chainEngine .written) anyAnswer) (.start (chainEngine .written) ⟨{}, []⟩) s →
      ∃ t, Run (Step (chainEngine .written) anyAnswer) s t ∧ t.Ended) ∧
    ∀ s, Run (Step (chainEngine .written) anyAnswer) (.start (chainEngine .written) ⟨{}, []⟩) s →
      (s.db.execution.status = .pending ∨ s.db.execution.status = .running) ∧
      (s.Ended → s.main = .raised lockUnbound ∧ s.db.execution.status = .running) :=
  execute_workflow_strands (chainEngine .written) anyAnswer ⟨{}, []⟩ rfl rfl rfl

theorem chain_does_not_return :
    ¬ ∀ s, Run (Step (chainEngine .written) anyAnswer) (.start (chainEngine .written) ⟨{}, []⟩) s →
      s.Ended → s.main = .returned ∧
        (s.db.execution.status = .completed ∨ s.db.execution.status = .failed) := by
  intro h
  obtain ⟨s, run, hs⟩ := exists_run (chainEngine .written) anyAnswer (body 5)
    (.start (chainEngine .written) ⟨{}, []⟩) (fun s => s.main = .raised lockUnbound)
    (possible_body _ _) (by decide)
  have hraised : s.main = .raised lockUnbound := of_decide_eq_true hs
  have hreturned := (h s run (Or.inr ⟨_, hraised⟩)).1
  rw [hraised] at hreturned
  cases hreturned

end BackendProjects.Workflow
