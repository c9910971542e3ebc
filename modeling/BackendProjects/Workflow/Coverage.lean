import BackendProjects.Workflow.BranchProgress

/-! When the counts of settled tasks speak for the tasks themselves: completion compares
numbers, so the two sets must stay disjoint and inside the DAG. -/
namespace BackendProjects.Workflow
open Library

/-- A step of the run, or whatever other sessions leave in the store. -/
inductive Interleaved (E : Engine) (answers : Answers) : RunState → RunState → Prop
  | own {s s' : RunState} (h : Step E answers s s') : Interleaved E answers s s'
  | foreign (s : RunState) (db : Database) : Interleaved E answers s { s with db := db }

/-- Past the check of the two sets at the top of `run_node`, and before its last lock. -/
def NodePc.Admitted : NodePc → Prop
  | .creating | .prepared _ | .looping _ _ | .running _ _ | .handling _ _ | .attemptFailed _ _
  | .sleeping _ _ | .finishing _ _ => True
  | _ => False

/-- The rows that a run loads are about tasks of the DAG, and settle no task in both ways. -/
def LoadsCurrent (E : Engine) (s : RunState) : Prop :=
  (∀ row ∈ s.mem.tasks, row.status = .completed ∨ row.status = .skipped →
    row.taskDefinitionId ∈ E.dag.allTaskIds) ∧
  ∀ row ∈ s.mem.tasks, ∀ other ∈ s.mem.tasks, row.status = .completed → other.status = .skipped →
    row.taskDefinitionId ≠ other.taskDefinitionId
  deriving Decidable

/-- Rows are loaded current, and a condition marks no task that is completed or under way. -/
def SettlesOnce (E : Engine) (s s' : RunState) : Prop :=
  (s.main = .starting → LoadsCurrent E s) ∧
  ∀ t sid toSkip, s.pc t = .branching (sid :: toSkip) → s'.pc t ≠ s.pc t →
    sid ∉ s.completed ∧ ¬ (s.pc sid).Admitted

def Completes (s s' : RunState) : Prop :=
  s.main = .final ∧ s.mem.execution.status ≠ .completed ∧ s'.mem.execution.status = .completed

def MainPc.marks : MainPc → List TaskId
  | .skipping sids | .skipCreating _ sids => sids
  | _ => []

theorem MainPc.marks_of_gathers {m : MainPc} (h : m.gathers = true) : m.marks = [] := by
  cases m <;> first | rfl | cases h

def NodePc.marks : NodePc → List TaskId
  | .branching toSkip | .branchCreating _ toSkip => toSkip
  | _ => []

/-- The invariant behind the exit test. -/
structure Settled (E : Engine) (s : RunState) : Prop where
  idle : Idle s
  fresh : s.main = .lookup ∨ s.main = .loaded ∨ s.main = .starting → s.completed = ∅ ∧ s.skipped = ∅
  completed : s.completed ⊆ E.dag.allTaskIds
  skipped : s.skipped ⊆ E.dag.allTaskIds
  disjoint : ∀ t ∈ s.completed, t ∉ s.skipped
  admitted : ∀ t, (s.pc t).Admitted → t ∉ s.skipped
  branches : ∀ t, ∀ sid ∈ (s.pc t).marks, sid ∈ E.dag.allTaskIds
  marks : ∀ sid ∈ s.main.marks, sid ∈ E.dag.allTaskIds ∧ sid ∉ s.completed
  final : s.main = .final → s.failed = false →
    E.dag.nodes.length ≤ s.completed.card + s.skipped.card

variable {E : Engine} {answers : Answers} {db : Database} {node : DAGNode} {s s' : RunState}

theorem Settled.start (E : Engine) (db : Database) : Settled E (.start E db) where
  idle := Idle.start E db
  fresh := fun _ => ⟨rfl, rfl⟩
  completed := Finset.empty_subset _
  skipped := Finset.empty_subset _
  disjoint := fun t ht => absurd ht (Finset.notMem_empty t)
  admitted := fun _ h => h.elim
  branches := fun _ _ h => absurd h List.not_mem_nil
  marks := fun _ h => absurd h List.not_mem_nil
  final := fun h => by cases h

private theorem Settled.foreign (inv : Settled E s) (db : Database) : Settled E { s with db := db } :=
  { inv with idle := ⟨inv.idle.outside, inv.idle.between⟩ }

/-- Two disjoint sets that count as many tasks as there are cover them. -/
theorem Settled.covers (inv : Settled E s)
    (h : E.dag.nodes.length ≤ s.completed.card + s.skipped.card) {t : TaskId}
    (ht : t ∈ E.dag.allTaskIds) : t ∈ s.completed ∨ t ∈ s.skipped := by
  have hdisj : Disjoint s.completed s.skipped := Finset.disjoint_left.mpr inv.disjoint
  have hcard : E.dag.allTaskIds.card ≤ (s.completed ∪ s.skipped).card := by
    rw [Finset.card_union_of_disjoint hdisj, E.dag.card_allTaskIds]
    exact h
  have hall : s.completed ∪ s.skipped = E.dag.allTaskIds :=
    Finset.eq_of_subset_of_card_le (Finset.union_subset inv.completed inv.skipped) hcard
  rw [← hall] at ht
  exact Finset.mem_union.mp ht

/-! ### The coroutines -/

/-- A coroutine is admitted past the check of the two sets. -/
theorem NodeMove.admitted (h : NodeMove E answers node s s') (ha : (s'.pc node.taskId).Admitted) :
    (s.pc node.taskId).Admitted ∨ s.pc node.taskId = .entering ∧ node.taskId ∉ s.skipped := by
  cases h
  case found hpc hc hs h => exact Or.inr ⟨hpc, hs⟩
  case missing hpc hc hs h => exact Or.inr ⟨hpc, hs⟩
  case create hpc => exact Or.inl (by rw [hpc]; trivial)
  all_goals first
    | exact Or.inl (by simp only [*]; trivial)
    | simp [NodePc.Admitted] at ha

theorem branchSkips_mem {strOf : PyValue → String} {dag : DAG} {output : PyValue}
    {toSkip : List TaskId} (h : branchSkips strOf dag node output = .ok toSkip) {sid : TaskId}
    (hsid : sid ∈ toSkip) : sid ∈ dag.allTaskIds := by
  unfold branchSkips at h
  split at h
  · cases h
    exact (of_decide_eq_true (List.mem_filter.mp hsid).2).2
  · cases h

private theorem NodeMove.branches (h : NodeMove E answers node s s') {sid : TaskId}
    (hsid : sid ∈ (s'.pc node.taskId).marks) :
    sid ∈ (s.pc node.taskId).marks ∨ sid ∈ E.dag.allTaskIds := by
  cases h
  case branch hpc hrow htype hlock h =>
    exact Or.inr (branchSkips_mem h (by simpa [NodePc.marks] using hsid))
  case answer hpc hrow hlegal hcaught =>
    simp only [RunState.goto_pc, Function.update_self] at hsid
    split at hsid <;> cases hsid
  all_goals simp_all [NodePc.marks]

theorem Settled.nodeMove (inv : Settled E s) (hnode : node.taskId ∈ E.dag.allTaskIds)
    (once : SettlesOnce E s s') (h : NodeMove E answers node s s') : Settled E s' := by
  have hg := inv.idle.gathers h.pc_ne_done
  have hskip : ∀ {sid toSkip}, s.pc node.taskId = .branching (sid :: toSkip) →
      s'.pc node.taskId ≠ s.pc node.taskId →
      sid ∈ E.dag.allTaskIds ∧ sid ∉ s.completed ∧ ¬ (s.pc sid).Admitted := fun hpc hne =>
    ⟨inv.branches node.taskId _ (by rw [hpc]; exact List.mem_cons_self), once.2 _ _ _ hpc hne⟩
  have hgathers {m : MainPc} (hm : m.gathers = false) : s'.main ≠ m := by
    rintro rfl
    rw [h.main, hg] at hm
    cases hm
  refine ⟨inv.idle.nodeMove h, ?_, ?_, ?_, ?_, ?_, ?_, ?_, ?_⟩
  · rintro (hm | hm | hm)
    · exact absurd hm (hgathers rfl)
    · exact absurd hm (hgathers rfl)
    · exact absurd hm (hgathers rfl)
  · rcases h.completed with hc | ⟨hc, _⟩
    · rw [hc]
      exact inv.completed
    · rw [hc]
      exact Finset.insert_subset hnode inv.completed
  · rcases h.skipped with hs | ⟨sid, toSkip, hpc, hne, hs⟩
    · rw [hs]
      exact inv.skipped
    · rw [hs]
      exact Finset.insert_subset (hskip hpc hne).1 inv.skipped
  · intro t htc hts
    rcases h.skipped with hs | ⟨sid, toSkip, hpc, hne, hs⟩
    · rw [hs] at hts
      rcases h.completed with hc | ⟨hc, te, hfin⟩
      · exact inv.disjoint t (hc ▸ htc) hts
      · rw [hc] at htc
        rcases Finset.mem_insert.mp htc with rfl | htc
        · exact inv.admitted _ (by rw [hfin]; trivial) hts
        · exact inv.disjoint t htc hts
    · rcases h.completed with hc | ⟨_, te, hfin⟩
      · rw [hc] at htc
        rw [hs] at hts
        rcases Finset.mem_insert.mp hts with rfl | hts
        · exact (hskip hpc hne).2.1 htc
        · exact inv.disjoint t htc hts
      · rw [hpc] at hfin
        cases hfin
  · intro t ha hts
    have hold : t ∉ s.skipped := by
      by_cases ht : t = node.taskId
      · subst ht
        exact (h.admitted ha).elim (inv.admitted _) And.right
      · rw [h.pc_of_ne ht] at ha
        exact inv.admitted t ha
    rcases h.skipped with hs | ⟨sid, toSkip, hpc, hne, hs⟩
    · exact hold (hs ▸ hts)
    · rw [hs] at hts
      rcases Finset.mem_insert.mp hts with rfl | hts
      · by_cases ht : t = node.taskId
        · subst ht
          rcases h.admitted ha with ha | ⟨hentering, _⟩
          · exact (hskip hpc hne).2.2 ha
          · rw [hpc] at hentering
            cases hentering
        · rw [h.pc_of_ne ht] at ha
          exact (hskip hpc hne).2.2 ha
      · exact hold hts
  · intro t sid hsid
    by_cases ht : t = node.taskId
    · subst ht
      exact (h.branches hsid).elim (inv.branches _ sid) id
    · rw [h.pc_of_ne ht] at hsid
      exact inv.branches t sid hsid
  · intro sid hsid
    rw [h.main, MainPc.marks_of_gathers hg] at hsid
    cases hsid
  · intro hm
    exact absurd hm (hgathers rfl)

/-! ### The body -/

private theorem Settled.load (inv : Settled E s) (hmain : s.main = .starting)
    (current : LoadsCurrent E s) :
    (s.mem.tasks.foldl loadRow s).completed ⊆ E.dag.allTaskIds ∧
    (s.mem.tasks.foldl loadRow s).skipped ⊆ E.dag.allTaskIds ∧
    ∀ t ∈ (s.mem.tasks.foldl loadRow s).completed, t ∉ (s.mem.tasks.foldl loadRow s).skipped := by
  obtain ⟨hc, hs⟩ := inv.fresh (Or.inr (Or.inr hmain))
  have hcompleted (t : TaskId) : t ∈ (s.mem.tasks.foldl loadRow s).completed ↔
      ∃ row ∈ s.mem.tasks, row.status = .completed ∧ row.taskDefinitionId = t := by
    simp [mem_completed_load, hc]
  have hskipped (t : TaskId) : t ∈ (s.mem.tasks.foldl loadRow s).skipped ↔
      ∃ row ∈ s.mem.tasks, row.status = .skipped ∧ row.taskDefinitionId = t := by
    simp [mem_skipped_load, hs]
  refine ⟨fun t ht => ?_, fun t ht => ?_, fun t htc hts => ?_⟩
  · obtain ⟨row, hrow, hstatus, rfl⟩ := (hcompleted t).mp ht
    exact current.1 row hrow (Or.inl hstatus)
  · obtain ⟨row, hrow, hstatus, rfl⟩ := (hskipped t).mp ht
    exact current.1 row hrow (Or.inr hstatus)
  · obtain ⟨row, hrow, hstatus, rfl⟩ := (hcompleted t).mp htc
    obtain ⟨other, hother, hstatus', hid⟩ := (hskipped _).mp hts
    exact current.2 row hrow other hother hstatus hstatus' hid.symm

/-- Marking a task that is neither completed nor under way. -/
private theorem Settled.mark (inv : Settled E s) (hg : s.main.gathers = false) {sid : TaskId}
    {sids : List TaskId} (hmarks : ∀ t ∈ sid :: sids, t ∈ E.dag.allTaskIds ∧ t ∉ s.completed)
    (idle : Idle s') (hpc : s'.pc = s.pc) (hcompleted : s'.completed = s.completed)
    (hskipped : s'.skipped = insert sid s.skipped)
    (hmain : s'.main = .skipping sids ∨ s'.main = .skipCreating sid sids) : Settled E s' := by
  have hsid := hmarks sid List.mem_cons_self
  have hm : s'.main.marks = sids := by rcases hmain with h | h <;> rw [h] <;> rfl
  refine ⟨idle, ?_, hcompleted ▸ inv.completed, ?_, ?_, ?_, ?_, ?_, ?_⟩
  · rintro (h | h | h) <;> rcases hmain with h' | h' <;> rw [h] at h' <;> cases h'
  · rw [hskipped]
    exact Finset.insert_subset hsid.1 inv.skipped
  · intro t htc hts
    rw [hcompleted] at htc
    rw [hskipped] at hts
    rcases Finset.mem_insert.mp hts with rfl | hts
    · exact hsid.2 htc
    · exact inv.disjoint t htc hts
  · intro t ha
    rw [hpc, inv.idle.between hg t] at ha
    exact ha.elim
  · rw [hpc]
    exact inv.branches
  · rw [hm, hcompleted]
    exact fun t ht => hmarks t (List.mem_cons_of_mem _ ht)
  · intro h
    rcases hmain with h' | h' <;> rw [h] at h' <;> cases h'

/-- Moves of the body that only pass on to a place where nothing is asked of the sets. -/
private theorem Settled.pass (inv : Settled E s) (idle : Idle s') (hpc : s'.pc = s.pc)
    (hcompleted : s'.completed = s.completed) (hskipped : s'.skipped = s.skipped)
    (hfresh : s'.main = .lookup ∨ s'.main = .loaded ∨ s'.main = .starting →
      s.main = .lookup ∨ s.main = .loaded ∨ s.main = .starting)
    (hmarks : ∀ sid ∈ s'.main.marks, sid ∈ E.dag.allTaskIds ∧ sid ∉ s.completed)
    (hfinal : s'.main = .final → s'.failed = false →
      E.dag.nodes.length ≤ s.completed.card + s.skipped.card) : Settled E s' := by
  refine ⟨idle, ?_, ?_, ?_, ?_, ?_, ?_, ?_, ?_⟩
  · rw [hcompleted, hskipped]
    exact fun h => inv.fresh (hfresh h)
  · rw [hcompleted]
    exact inv.completed
  · rw [hskipped]
    exact inv.skipped
  · rw [hcompleted, hskipped]
    exact inv.disjoint
  · rw [hpc, hskipped]
    exact inv.admitted
  · rw [hpc]
    exact inv.branches
  · rw [hcompleted]
    exact hmarks
  · rw [hcompleted, hskipped]
    exact hfinal

theorem Settled.mainMove (inv : Settled E s) (once : SettlesOnce E s s') (h : MainMove E s s') :
    Settled E s' := by
  have idle := inv.idle.mainMove h
  cases h
  case lookup hmain =>
    exact inv.pass idle rfl rfl rfl (fun _ => Or.inl hmain) (by simp [MainPc.marks]) (by simp)
  case start now hmain h =>
    exact inv.pass idle rfl rfl rfl (fun _ => Or.inr (Or.inl hmain)) (by simp [MainPc.marks]) (by simp)
  case noStart hmain h =>
    exact inv.pass idle rfl rfl rfl (fun _ => Or.inr (Or.inl hmain)) (by simp [MainPc.marks]) (by simp)
  case load hmain =>
    obtain ⟨hc, hs, hd⟩ := inv.load hmain (once.1 hmain)
    obtain ⟨_, _, _, h⟩ := foldl_loadRow s.mem.tasks s
    refine ⟨idle, by simp, hc, hs, hd, ?_, ?_, by simp [MainPc.marks], by simp⟩
    · rw [h]
      intro t ha
      rw [inv.idle.between (by rw [hmain]; rfl) t] at ha
      exact ha.elim
    · rw [h]
      exact inv.branches
  case exit hmain h =>
    exact inv.pass idle rfl rfl rfl (by simp) (by simp [MainPc.marks]) (fun _ _ => h)
  case settled hmain hready h =>
    exact inv.pass idle rfl rfl rfl (by simp) (by simp [MainPc.marks]) (fun _ _ => h)
  case gatheredFailed hmain hdone hfailed =>
    exact inv.pass idle rfl rfl rfl (by simp) (by simp [MainPc.marks])
      (fun _ hf => by rw [RunState.refreshed_failed, hfailed] at hf; cases hf)
  case propagateSkips hmain hlive hfailed hlock hall =>
    refine inv.pass idle rfl rfl rfl (by simp) (fun sid hsid => ?_) (by simp)
    obtain ⟨hn, hc, _⟩ := E.dag.mem_tasksWithAllPredecessorsSkipped.mp hsid
    exact ⟨E.dag.mem_allTaskIds.mpr hn, hc⟩
  case skipFound now sid sids te hmain h =>
    exact inv.mark (by rw [hmain]; rfl) (fun t ht => inv.marks t (by rw [hmain]; exact ht)) idle
      rfl rfl rfl (Or.inl rfl)
  case skipMissing sid sids hmain h =>
    exact inv.mark (by rw [hmain]; rfl) (fun t ht => inv.marks t (by rw [hmain]; exact ht)) idle
      rfl rfl rfl (Or.inr rfl)
  case skipCreate now sid sids target hmain h =>
    refine inv.pass idle rfl rfl rfl (by simp) (fun t ht => ?_) (by simp)
    exact inv.marks t (by rw [hmain]; exact ht)
  case gather hmain hready =>
    refine ⟨idle, by simp, inv.completed, inv.skipped, inv.disjoint, ?_, ?_, by simp [MainPc.marks],
      by simp⟩
    · intro t ha
      dsimp only at ha
      split at ha <;> exact ha.elim
    · intro t sid hsid
      dsimp only at hsid
      split at hsid <;> cases hsid
  all_goals exact inv.pass idle rfl rfl rfl (by simp) (by simp [MainPc.marks]) (by simp)

private theorem Settled.step (inv : Settled E s) (once : SettlesOnce E s s')
    (h : Interleaved E answers s s') : Settled E s' := by
  cases h with
  | own h =>
    rcases step_cases h with h | ⟨node, hnode, h⟩
    · exact inv.mainMove once h
    · refine inv.nodeMove ?_ once h
      obtain ⟨hmem, _⟩ := E.dag.getTask_ok hnode
      rw [DAG.allTaskIds, List.mem_toFinset]
      exact List.mem_map_of_mem hmem
  | foreign db => exact inv.foreign db

/-- What a run holds when it sets the status to completed. -/
theorem settled_at_completion (run : Run (Where (SettlesOnce E) (Interleaved E answers)) (.start E db) s)
    (hstep : Step E answers s s') (hcompletes : Completes s s') :
    Settled E s ∧ E.dag.nodes.length ≤ s.completed.card + s.skipped.card ∧
      s'.completed = s.completed ∧ s'.skipped = s.skipped := by
  have inv : Settled E s := run.invariant (fun _ _ inv h => inv.step h.1 h.2) (.start E db)
  obtain ⟨hmain, hbefore, hafter⟩ := hcompletes
  rcases step_cases hstep with h | ⟨node, _, h⟩
  · cases h
    case complete now ex _ hlive hfailed h => exact ⟨inv, inv.final hmain hfailed, rfl, rfl⟩
    all_goals simp_all
  · have hg := inv.idle.gathers h.pc_ne_done
    rw [hmain] at hg
    cases hg

/-- Completion is sound in every run, whatever other sessions do, whose loaded rows are about
tasks of the current DAG, each settled in one way, and in which no condition marks a task that
is completed or under way. -/
theorem complete_covers (run : Run (Where (SettlesOnce E) (Interleaved E answers)) (.start E db) s)
    (hstep : Step E answers s s') (hcompletes : Completes s s') :
    ∀ t ∈ E.dag.allTaskIds, t ∈ s'.completed ∨ t ∈ s'.skipped := by
  obtain ⟨inv, hfinal, hc, hs⟩ := settled_at_completion run hstep hcompletes
  intro t ht
  rw [hc, hs]
  exact inv.covers hfinal ht

/-! ### Two branches, and a definition with one task before and after an update -/

private def completing (E : Engine) (Q : RunState → Bool) (s : RunState) : Bool :=
  decide (s.main = .final ∧ s.mem.execution.status ≠ .completed) &&
    (step E (.main 0) s).any (fun s' => s'.mem.execution.status = .completed && Q s')

private theorem completing_step {Q : RunState → Bool} (h : completing E Q s = true) :
    ∃ s', Step E anyAnswer s s' ∧ Completes s s' ∧ Q s' = true := by
  simp only [completing, Bool.and_eq_true, decide_eq_true_eq] at h
  obtain ⟨⟨hmain, hbefore⟩, hstep⟩ := h
  obtain ⟨s', hs', hafter⟩ := (Option.any_eq_true _ _).mp hstep
  rw [Bool.and_eq_true, decide_eq_true_eq] at hafter
  exact ⟨s', ⟨.main 0, trivial, hs'⟩, ⟨hmain, hbefore, hafter.1⟩, hafter.2⟩

private def checkMarks (E : Engine) (_ : Choice) (s : RunState) : Bool :=
  decide (s.main = .starting → LoadsCurrent E s) && s.wave.all fun t =>
    match s.pc t with
    | .branching (sid :: _) => decide (sid ∉ s.completed) && (s.pc sid matches .done)
    | _ => true

private theorem settlesOnce_of_check {c : Choice} (check : checkMarks E c s = true) (idle : Idle s) :
    SettlesOnce E s s' := by
  rw [checkMarks, Bool.and_eq_true, decide_eq_true_eq, List.all_eq_true] at check
  refine ⟨check.1, fun t sid toSkip hpc _ => ?_⟩
  have hmark := check.2 t (idle.mem_wave (by rw [hpc]; exact nofun))
  rw [hpc] at hmark
  simp only [Bool.and_eq_true, decide_eq_true_eq] at hmark
  refine ⟨hmark.1, fun hadmitted => ?_⟩
  cases hsid : s.pc sid with
  | done => exact (hsid ▸ hadmitted : NodePc.Admitted .done)
  | _ => simp [hsid] at hmark

private theorem settlesOnce_run
    (run : Run (Where (fun s s' => Idle s → SettlesOnce E s s') (Step E answers)) (.start E db) s) :
    Run (Where (SettlesOnce E) (Interleaved E answers)) (.start E db) s := by
  induction run with
  | refl => exact .refl
  | tail run last ih =>
    have idle := Run.invariant (fun _ _ idle h => idle.step h.2) run (Idle.start E db)
    exact ih.tail ⟨last.1 idle, .own last.2⟩

private def decidesTrue : Outcome := .result ⟨true, .dict [(.str "result", .bool true)], none, 0⟩

private def forkSchedule : List Choice :=
  body 6 ++ coroutine "c" 12 decidesTrue ++ body 6 ++ coroutine "a" 9 decidesTrue ++ body 2

/-- One branch of the condition is completed, and the other one is skipped with what is behind it. -/
theorem complete_covers_fork : ∃ s s', Step forkEngine anyAnswer s s' ∧ Completes s s' ∧
    (s'.completed = {"c", "a"} ∧ s'.skipped = {"b", "d"}) ∧
    ∀ t ∈ forkEngine.dag.allTaskIds, t ∈ s'.completed ∨ t ∈ s'.skipped := by
  have possible : ∀ c ∈ forkSchedule, c.Possible anyAnswer :=
    possible_append (possible_append (possible_append (possible_append (possible_body _ 6)
      (possible_coroutine "c" 12 fun _ _ _ => trivial)) (possible_body _ 6))
      (possible_coroutine "a" 9 fun _ _ _ => trivial)) (possible_body _ 2)
  obtain ⟨s, run, hs⟩ := exists_run_checked forkEngine anyAnswer
    (fun s s' => Idle s → SettlesOnce forkEngine s s') forkSchedule (.start forkEngine ⟨{}, []⟩)
    (completing forkEngine fun s' => s'.completed = {"c", "a"} ∧ s'.skipped = {"b", "d"})
    (checkMarks forkEngine) (fun _ _ _ check _ => settlesOnce_of_check check) possible (by decide +kernel)
  obtain ⟨s', hstep, hc, hsets⟩ := completing_step hs
  exact ⟨s, s', hstep, hc, of_decide_eq_true hsets, complete_covers (settlesOnce_run run) hstep hc⟩

def soleDefinition : DagDefinition where
  tasks := [⟨"c", "delay", "C", [], none, none⟩]

def rowCompleted (t : TaskId) : Database where
  execution := { status := .running }
  tasks := [{ taskDefinitionId := t, taskName := t, taskType := "delay", status := .completed }]

def soleEngine : Engine where
  settings := settings
  reading := .written
  strOf := fun _ => ""
  dag := .ofAccepted soleDefinition (by decide)

/-- A row that an earlier definition has left behind counts as the one task of the new one. -/
theorem complete_misses_sole : ¬ ∀ s s',
    Run (Interleaved soleEngine anyAnswer) (.start soleEngine (rowCompleted "a")) s →
      Step soleEngine anyAnswer s s' → Completes s s' →
      ∀ t ∈ soleEngine.dag.allTaskIds, t ∈ s'.completed ∨ t ∈ s'.skipped := by
  intro h
  obtain ⟨s, run, hs⟩ := exists_run soleEngine anyAnswer
    (body 4) (.start soleEngine (rowCompleted "a"))
    (completing soleEngine fun s' => "c" ∉ s'.completed ∧ "c" ∉ s'.skipped)
    (possible_body _ _) (by decide)
  obtain ⟨s', hstep, hc, hmissed⟩ := completing_step hs
  rw [decide_eq_true_eq] at hmissed
  exact (h s s' (run.weaken (fun _ _ h => .own h)) hstep hc "c" (by decide)).elim hmissed.1 hmissed.2

end BackendProjects.Workflow
