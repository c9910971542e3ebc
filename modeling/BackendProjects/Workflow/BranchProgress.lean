import BackendProjects.Workflow.Frames

/-! Passes of the scheduling loop around skipped branches: what a pass finds, and the joins at
which the loop turns forever. -/
namespace BackendProjects.Workflow
open Library

/-- An unsettled task with all predecessors settled, some of them skipped and some not. -/
def MixedJoin (dag : DAG) (completed skipped : Finset TaskId) (t : TaskId) : Prop :=
  t ∈ dag.graph.nodes ∧ t ∉ completed ∧ t ∉ skipped ∧
    (∀ p ∈ dag.predecessors t, p ∈ completed ∨ p ∈ skipped) ∧
    (∃ p ∈ dag.predecessors t, p ∈ skipped) ∧ ∃ p ∈ dag.predecessors t, p ∉ skipped

/-- Where no join is mixed, the two rules leave no gap: some task is ready, some task is to be
skipped, or every task is settled. -/
theorem ready_or_skippable_or_settled {dag : DAG} {completed skipped : Finset TaskId}
    (h : ∀ t, ¬ MixedJoin dag completed skipped t) :
    dag.readyIds completed skipped ≠ [] ∨ dag.tasksWithAllPredecessorsSkipped completed skipped ≠ [] ∨
      ∀ t ∈ dag.allTaskIds, t ∈ completed ∨ t ∈ skipped := by
  by_cases hall : ∀ t ∈ dag.allTaskIds, t ∈ completed ∨ t ∈ skipped
  · exact Or.inr (Or.inr hall)
  push Not at hall
  obtain ⟨t, ht, hc, hs⟩ := hall
  obtain ⟨w, hw, hunsettled, hpreds⟩ := dag.exists_minimal_unsettled (completed ∪ skipped)
    (dag.mem_allTaskIds.mp ht) (by simp [hc, hs])
  rw [Finset.mem_union, not_or] at hunsettled
  simp only [Finset.mem_union] at hpreds
  by_cases hsome : ∃ p ∈ dag.predecessors w, p ∈ skipped
  · have hevery : ∀ p ∈ dag.predecessors w, p ∈ skipped := by
      by_contra hnot
      push Not at hnot
      exact h w ⟨hw, hunsettled.1, hunsettled.2, hpreds, hsome, hnot⟩
    obtain ⟨p, hp, _⟩ := hsome
    exact Or.inr (Or.inl (List.ne_nil_of_mem (dag.mem_tasksWithAllPredecessorsSkipped.mpr
      ⟨hw, hunsettled.1, hunsettled.2, List.ne_nil_of_mem hp, hevery⟩)))
  · push Not at hsome
    exact Or.inl (List.ne_nil_of_mem (dag.mem_readyIds.mpr
      ⟨hw, hunsettled.1, hunsettled.2, hsome, fun p hp => (hpreds p hp).resolve_right (hsome p hp)⟩))

def Unmixed (E : Engine) (s _ : RunState) : Prop := ∀ t, ¬ MixedJoin E.dag s.completed s.skipped t

def OnePass (s _ : RunState) : Prop := s.main ≠ .loop

/-- What a pass that began in one state has found by another. -/
inductive PassFinds (E : Engine) (s u : RunState) : Prop
  | ready (hmain : u.main = .gathering) (h : u.wave ≠ [])
  | skipped {t : TaskId} (h : t ∈ u.skipped) (hnew : t ∉ s.skipped)
  | settled (h : ∀ t ∈ E.dag.allTaskIds, t ∈ s.completed ∨ t ∈ s.skipped)

inductive InPass (E : Engine) (s u : RunState) : Prop
  | checking (hmain : u.main = .checking) (hcompleted : u.completed = s.completed)
      (hskipped : u.skipped = s.skipped)
  | skipping (hmain : u.main = .skipping (E.dag.tasksWithAllPredecessorsSkipped u.completed u.skipped))
      (hcompleted : u.completed = s.completed) (hskipped : u.skipped = s.skipped)
  | skipped {t : TaskId} (h : t ∈ u.skipped) (hnew : t ∉ s.skipped)
  | gathering (hmain : u.main = .gathering) (hwave : u.wave ≠ [])
  | settled (h : ∀ t ∈ E.dag.allTaskIds, t ∈ s.completed ∨ t ∈ s.skipped)
  | left (hmain : u.main = .loop ∨ u.Ended)
  | failed (hmain : u.main = .final) (hfailed : u.failed = true)

variable {E : Engine} {answers : Answers} {db : Database} {s u u' : RunState}

theorem MainMove.skipped_mono (h : MainMove E s u) : s.skipped ⊆ u.skipped := by
  cases h
  case load => exact fun t ht => (mem_skipped_load s.mem.tasks s t).mpr (Or.inl ht)
  case skipFound => exact Finset.subset_insert _ _
  case skipMissing => exact Finset.subset_insert _ _
  all_goals exact Finset.Subset.refl _

private theorem Unmixed.passFinds (h : Unmixed E u u') (hcompleted : u.completed = s.completed)
    (hskipped : u.skipped = s.skipped)
    (hnone : E.dag.tasksWithAllPredecessorsSkipped u.completed u.skipped = [])
    (hready : E.dag.readyIds u.completed u.skipped = []) :
    ∀ t ∈ E.dag.allTaskIds, t ∈ s.completed ∨ t ∈ s.skipped := by
  rw [← hcompleted, ← hskipped]
  rcases ready_or_skippable_or_settled h with h | h | h
  · exact absurd hready h
  · exact absurd hnone h
  · exact h

private theorem InPass.mainMove (inv : InPass E s u) (unmixed : Unmixed E u u') (pass : OnePass u u')
    (h : MainMove E u u') : InPass E s u' := by
  cases inv with
  | checking hmain hcompleted hskipped =>
    cases h
    case cancelled => exact .left (Or.inr (Or.inl rfl))
    case recordFailure => exact .left (Or.inr (Or.inl rfl))
    case noLock => exact .left (Or.inr (Or.inr ⟨_, rfl⟩))
    case noMethod => exact .left (Or.inr (Or.inr ⟨_, rfl⟩))
    case propagateSkips => exact .skipping rfl hcompleted hskipped
    all_goals simp_all
  | skipping hmain hcompleted hskipped =>
    have hnew {sid : TaskId} {sids : List TaskId} (hsids : u.main = .skipping (sid :: sids)) :
        sid ∉ s.skipped := by
      have hsid : sid ∈ E.dag.tasksWithAllPredecessorsSkipped u.completed u.skipped := by
        rw [hsids] at hmain
        exact MainPc.skipping.inj hmain ▸ List.mem_cons_self
      exact hskipped ▸ (E.dag.mem_tasksWithAllPredecessorsSkipped.mp hsid).2.2.1
    cases h
    case skipFound now sid sids te hsids h =>
      exact .skipped (Finset.mem_insert_self sid _) (hnew hsids)
    case skipMissing sid sids hsids h =>
      exact .skipped (Finset.mem_insert_self sid _) (hnew hsids)
    case settled hnil hready h =>
      rw [hnil] at hmain
      exact .settled (unmixed.passFinds hcompleted hskipped (MainPc.skipping.inj hmain).symm hready)
    case sleep hnil hready h =>
      rw [hnil] at hmain
      exact .settled (unmixed.passFinds hcompleted hskipped (MainPc.skipping.inj hmain).symm hready)
    case gather hnil hready => exact .gathering rfl hready
    all_goals simp_all
  | skipped hskipped hnew => exact .skipped (h.skipped_mono hskipped) hnew
  | gathering hmain hwave =>
    cases h
    case gathered => exact .left (Or.inl rfl)
    case gatheredFailed hfailed => exact .failed rfl hfailed
    case propagate => exact .left (Or.inr (Or.inr ⟨_, rfl⟩))
    all_goals simp_all
  | settled h => exact .settled h
  | left hmain =>
    rcases hmain with hmain | hmain | ⟨e, hmain⟩
    · exact absurd hmain pass
    · cases h <;> simp_all
    · cases h <;> simp_all
  | failed hmain hfailed =>
    cases h
    case finalCancelled => exact .left (Or.inr (Or.inl rfl))
    case finalFailed => exact .left (Or.inr (Or.inl rfl))
    all_goals simp_all

private theorem InPass.nodeMove {node : DAGNode} (inv : InPass E s u) (idle : Idle u)
    (h : NodeMove E answers node u u') : InPass E s u' := by
  have hg := idle.gathers h.pc_ne_done
  cases inv with
  | checking hmain hcompleted hskipped => simp [hmain, MainPc.gathers] at hg
  | skipping hmain hcompleted hskipped => simp [hmain, MainPc.gathers] at hg
  | skipped hskipped hnew => exact .skipped (h.skipped_mono hskipped) hnew
  | gathering hmain hwave => exact .gathering (h.main.trans hmain) (h.wave ▸ hwave)
  | settled h => exact .settled h
  | left hmain =>
    refine .left ?_
    rw [RunState.Ended, h.main]
    exact hmain
  | failed hmain hfailed => simp [hmain, MainPc.gathers] at hg

/-- In every run in which no join is ever mixed, each pass of the loop that comes to gather, to
sleep or to finish has found ready tasks, has skipped a task, or has begun with all tasks settled. -/
theorem loop_progresses (run : Run (Where (Unmixed E) (Step E answers)) (.start E db) s)
    (hmain : s.main = .checking)
    (pass : Run (Where OnePass (Where (Unmixed E) (Step E answers))) s u)
    (hu : u.main = .gathering ∨ u.main = .sleeping ∨ u.main = .final ∧ u.failed = false) :
    PassFinds E s u := by
  have hidle : Idle s := run.invariant (fun _ _ idle h => idle.step h.2) (Idle.start E db)
  have hstep : ∀ v w, Idle v ∧ InPass E s v → Where OnePass (Where (Unmixed E) (Step E answers)) v w →
      Idle w ∧ InPass E s w := by
    intro v w inv h
    refine ⟨inv.1.step h.2.2, ?_⟩
    rcases step_cases h.2.2 with hmove | ⟨node, _, hmove⟩
    · exact inv.2.mainMove h.2.1 h.1 hmove
    · exact inv.2.nodeMove inv.1 hmove
  have hinv : Idle u ∧ InPass E s u := pass.invariant hstep ⟨hidle, .checking hmain rfl rfl⟩
  cases hinv.2 with
  | skipped h hnew => exact .skipped h hnew
  | gathering hgather hwave => exact .ready hgather hwave
  | settled h => exact .settled h
  | checking hmain => simp [hmain] at hu
  | skipping hmain => simp [hmain] at hu
  | left hmain =>
    rcases hmain with hmain | hmain | ⟨e, hmain⟩
    · simp [hmain] at hu
    · simp [hmain] at hu
    · simp [hmain] at hu
  | failed hmain hfailed => simp [hmain, hfailed] at hu

/-! ### A skipped branch that joins a live one -/

def diamondDefinition : DagDefinition where
  tasks := [
    ⟨"c", "condition", "C", [(.str "on_true", .str "a"), (.str "on_false", .str "b")], none, none⟩,
    ⟨"a", "delay", "A", [], none, none⟩,
    ⟨"b", "delay", "B", [], none, none⟩,
    ⟨"j", "delay", "J", [], none, none⟩]
  edges := [⟨"c", "a"⟩, ⟨"c", "b"⟩, ⟨"a", "j"⟩, ⟨"b", "j"⟩]

def diamondEngine : Engine where
  settings := settings
  reading := .repaired
  strOf := fun
    | .str s => s
    | _ => ""
  dag := .ofAccepted diamondDefinition (by decide)

def succeeding : Answers := fun _ _ _ outcome => outcome.ok = true

private def takenTrue : Outcome := .result ⟨true, .dict [(.str "result", .bool true)], none, 0⟩

private def diamondSchedule : List Choice :=
  body 6 ++ coroutine "c" 12 takenTrue ++ body 4 ++ coroutine "a" 9 takenTrue ++ body 2

private theorem diamondSchedule_possible : ∀ c ∈ diamondSchedule, c.Possible succeeding := by
  have htrue : ∀ node attempt input, succeeding node attempt input takenTrue := fun _ _ _ => rfl
  exact possible_append (possible_append (possible_append (possible_append (possible_body _ 6)
    (possible_coroutine "c" 12 htrue)) (possible_body _ 4)) (possible_coroutine "a" 9 htrue))
    (possible_body _ 2)

private def inPass (_ : Choice) (s : RunState) : Bool := s.main ≠ .loop

private def endsPass (Q : RunState → Bool) (s : RunState) : Bool :=
  decide (s.main = .checking) &&
    (execute (fun c s => if inPass c s then step diamondEngine c s else none) (body 2) s).any Q

private theorem pass_of_endsPass {Q : RunState → Bool} (h : endsPass Q s = true) :
    s.main = .checking ∧
      ∃ u, Run (Where OnePass (Step diamondEngine succeeding)) s u ∧ Q u = true := by
  rw [endsPass, Bool.and_eq_true, decide_eq_true_eq] at h
  exact ⟨h.1, exists_run_checked diamondEngine succeeding OnePass (body 2) s Q inPass
    (fun _ s _ hin _ => (of_decide_eq_true hin : s.main ≠ .loop)) (possible_body _ 2) h.2⟩

/-- The join of the diamond has one skipped and one completed predecessor: a pass sleeps having
found nothing. -/
theorem diamond_stalls : ¬ ∀ s u,
    Run (Step diamondEngine succeeding) (.start diamondEngine ⟨{}, []⟩) s → s.main = .checking →
      Run (Where OnePass (Step diamondEngine succeeding)) s u → u.main = .sleeping →
      PassFinds diamondEngine s u := by
  intro h
  obtain ⟨s, run, hs⟩ := exists_run diamondEngine succeeding diamondSchedule
    (.start diamondEngine ⟨{}, []⟩)
    (fun s => decide (s.completed = {"c", "a"} ∧ s.skipped = {"b"}) &&
      endsPass (fun u => u.main = .sleeping ∧ u.skipped = {"b"}) s)
    diamondSchedule_possible (by decide +kernel)
  rw [Bool.and_eq_true, decide_eq_true_eq] at hs
  obtain ⟨⟨hcompleted, hskipped⟩, hends⟩ := hs
  obtain ⟨hmain, u, pass, hu⟩ := pass_of_endsPass hends
  obtain ⟨hsleeping, hsame⟩ := of_decide_eq_true hu
  cases h s u run hmain pass hsleeping with
  | ready hgathering => simp [hsleeping] at hgathering
  | skipped hin hnew => exact hnew (hskipped ▸ hsame ▸ hin)
  | settled hall =>
    have hj := hall "j" (by decide)
    rw [hcompleted, hskipped] at hj
    revert hj
    decide

def forkDefinition : DagDefinition where
  tasks := [
    ⟨"c", "condition", "C", [(.str "on_true", .str "a"), (.str "on_false", .str "b")], none, none⟩,
    ⟨"a", "delay", "A", [], none, none⟩,
    ⟨"b", "delay", "B", [], none, none⟩,
    ⟨"d", "delay", "D", [], none, none⟩]
  edges := [⟨"c", "a"⟩, ⟨"c", "b"⟩, ⟨"b", "d"⟩]

def forkEngine : Engine where
  settings := settings
  reading := .repaired
  strOf := fun
    | .str s => s
    | _ => ""
  dag := .ofAccepted forkDefinition (by decide)

/-- Where no task has two predecessors, no join is mixed. -/
private theorem fork_unmixed (s s' : RunState) : Unmixed forkEngine s s' := by
  rintro t ⟨ht, _, _, _, ⟨p, hp, hskipped⟩, q, hq, hunskipped⟩
  have hsole : ∀ t ∈ forkEngine.dag.graph.nodes, ∀ p ∈ forkEngine.dag.predecessors t,
      ∀ q ∈ forkEngine.dag.predecessors t, p = q := by decide
  exact hunskipped (hsole t ht p hp q hq ▸ hskipped)

/-- The pass after the condition skips what hangs on the false branch, and finds the true one ready. -/
theorem fork_skips_and_gathers : ∃ s u, (s.skipped = {"b"} ∧ u.skipped = {"b", "d"} ∧ u.wave = ["a"]) ∧
    PassFinds forkEngine s u := by
  obtain ⟨s, run, hs⟩ := exists_run forkEngine succeeding (body 6 ++ coroutine "c" 12 takenTrue ++ body 2)
    (.start forkEngine ⟨{}, []⟩)
    (fun s => decide (s.main = .checking ∧ s.skipped = {"b"}) &&
      (execute (fun c s => if inPass c s then step forkEngine c s else none) (body 4) s).any
        (fun u => u.main = .gathering ∧ u.skipped = {"b", "d"} ∧ u.wave = ["a"]))
    (possible_append (possible_append (possible_body _ 6) (possible_coroutine "c" 12 fun _ _ _ => rfl))
      (possible_body _ 2)) (by decide +kernel)
  rw [Bool.and_eq_true, decide_eq_true_eq] at hs
  obtain ⟨⟨hmain, hbefore⟩, hs⟩ := hs
  obtain ⟨u, pass, hu⟩ := exists_run_checked forkEngine succeeding OnePass (body 4) s _ inPass
    (fun _ s _ hin _ => (of_decide_eq_true hin : s.main ≠ .loop)) (possible_body _ 4) hs
  obtain ⟨hgathering, hafter⟩ := of_decide_eq_true hu
  exact ⟨s, u, ⟨hbefore, hafter⟩, loop_progresses (run.weaken fun s t h => ⟨fork_unmixed s t, h⟩) hmain
    (pass.weaken fun s t h => ⟨h.1, fork_unmixed s t, h.2⟩) (Or.inl hgathering)⟩

end BackendProjects.Workflow
