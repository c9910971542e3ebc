import BackendProjects.Workflow.Works

/-! What becomes of a run in which a task uses up its attempts: the flag that a coroutine raises
leads past the only place where the failure is written. -/
namespace BackendProjects.Workflow
open Library

def UsedUp (s : RunState) (t : TaskId) : Prop :=
  ∃ te input row, s.pc t = .attemptFailed te input ∧ s.mem.tasks[te]? = some row ∧
    row.maxAttempts ≤ row.attempt

def Failing (t : TaskId) (s : RunState) : Prop :=
  UsedUp s t ∨ (∃ te, s.pc t = .finishing te false) ∨ s.failed = true

def WorkflowExecution.Unended (ex : WorkflowExecution) : Prop :=
  ex.status = .running ∧ ex.completedAt = none

/-- From the start on, the execution stays as the start has left it, up to a completion without
the flag; and the flag is up only where the body does not look at it any more. -/
structure Unrecorded (s : RunState) : Prop where
  idle : Idle s
  located : Located s
  current : s.main ≠ .lookup → s.mem.execution = s.db.execution
  pending : s.main = .lookup ∨ s.main = .loaded →
    s.db.execution.status = .pending ∧ s.db.execution.completedAt = none
  unended : s.main ≠ .lookup → s.main ≠ .loaded →
    s.db.execution.Unended ∨ s.main = .returned ∧ s.failed = false
  flag : s.failed = true → s.main = .gathering ∨ s.main = .final ∨ s.Ended

variable {E : Engine} {answers : Answers} {db : Database} {node : DAGNode} {s s' u : RunState}
  {t : TaskId}

theorem Unrecorded.start (E : Engine) (hpending : db.execution.status = .pending)
    (hopen : db.execution.completedAt = none) : Unrecorded (.start E db) where
  idle := Idle.start E db
  located := Located.start E db
  current := fun h => absurd rfl h
  pending := fun _ => ⟨hpending, hopen⟩
  unended := fun h => absurd rfl h
  flag := fun h => by cases h

theorem Unrecorded.nodeMove (inv : Unrecorded s) (h : NodeMove E answers node s s') :
    Unrecorded s' := by
  have hg := inv.idle.gathers h.pc_ne_done
  refine ⟨inv.idle.nodeMove h, inv.located.nodeMove h, ?_, ?_, ?_, ?_⟩
  · rw [h.main, h.execution]
    intro hmain
    rcases h.mem_execution with hm | hm
    · rw [hm, inv.current hmain]
    · exact hm
  · rw [h.main, h.execution]
    exact inv.pending
  · rw [h.main, h.execution]
    intro h1 h2
    rcases inv.unended h1 h2 with hu | ⟨hr, _⟩
    · exact Or.inl hu
    · rw [hr] at hg
      cases hg
  · intro _
    rw [RunState.Ended, h.main]
    cases hmain : s.main <;> simp_all [MainPc.gathers]

/-- Moves of the body inside the loop that leave the row of the execution alone. -/
private theorem Unrecorded.pass (inv : Unrecorded s) (idle : Idle s') (located : Located s')
    (hbefore : s.main ≠ .lookup ∧ s.main ≠ .loaded ∧ s.main ≠ .returned)
    (hafter : s'.main ≠ .lookup ∧ s'.main ≠ .loaded) (hdb : s'.db.execution = s.db.execution)
    (hmem : s'.mem.execution = s.mem.execution ∨ s'.mem.execution = s.db.execution)
    (hflag : s'.failed = true → s'.main = .gathering ∨ s'.main = .final ∨ s'.Ended) :
    Unrecorded s' := by
  refine ⟨idle, located, fun _ => ?_, fun h => ?_, fun _ _ => ?_, hflag⟩
  · rw [hdb]
    rcases hmem with h | h
    · rw [h, inv.current hbefore.1]
    · exact h
  · exact absurd h (by simp [hafter])
  · rw [hdb]
    rcases inv.unended hbefore.1 hbefore.2.1 with h | ⟨h, _⟩
    · exact Or.inl h
    · exact absurd h hbefore.2.2

theorem Unrecorded.mainMove (inv : Unrecorded s) (h : MainMove E s s') : Unrecorded s' := by
  have idle := inv.idle.mainMove h
  have located := inv.located.mainMove inv.idle h
  have hnotUp {m : MainPc} (hmain : s.main = m) (hg : m ≠ .gathering) (hf : m ≠ .final)
      (hr : m ≠ .returned) (he : ∀ e, m ≠ .raised e) : s.failed = false := by
    by_contra hup
    rw [Bool.not_eq_false] at hup
    rcases inv.flag hup with h | h | h | ⟨e, h⟩
    · exact hg (hmain ▸ h)
    · exact hf (hmain ▸ h)
    · exact hr (hmain ▸ h)
    · exact he e (hmain ▸ h)
  cases h
  case lookup hmain =>
    have hup : s.failed = false := hnotUp hmain (by simp) (by simp) (by simp) (by simp)
    exact ⟨idle, located, fun _ => rfl, fun _ => inv.pending (Or.inl hmain), by simp, by simp [hup]⟩
  case start now hmain h =>
    have hup : s.failed = false := hnotUp hmain (by simp) (by simp) (by simp) (by simp)
    have hcurrent := inv.current (by simp [hmain])
    obtain ⟨_, hopen⟩ := inv.pending (Or.inr hmain)
    refine ⟨idle, located, fun _ => ?_, by simp, fun _ _ => Or.inl ?_, by simp [hup]⟩
    · simp [hcurrent]
    · simp [hcurrent, WorkflowExecution.Unended, WorkflowExecution.start, hopen]
  case noStart hmain h =>
    rw [inv.current (by simp [hmain]), (inv.pending (Or.inr hmain)).1] at h
    exact absurd (by decide) h
  case load hmain =>
    have hup : s.failed = false := hnotUp hmain (by simp) (by simp) (by simp) (by simp)
    obtain ⟨_, _, _, h⟩ := foldl_loadRow s.mem.tasks s
    rw [h] at idle located ⊢
    exact inv.pass idle located (by simp [hmain]) (by simp) rfl (Or.inl rfl) (by simp [hup])
  case cancelled hmain h =>
    exact inv.pass idle located (by simp [hmain]) (by simp) rfl (Or.inl rfl)
      (fun _ => by simp [RunState.Ended])
  case recordFailure now hmain hlive hfailed =>
    rw [hnotUp hmain (by simp) (by simp) (by simp) (by simp)] at hfailed
    cases hfailed
  case gatheredFailed hmain hdone hfailed =>
    exact inv.pass idle located (by simp [hmain]) (by simp) rfl (Or.inr rfl) (by simp)
  case complete now ex hmain hlive hfailed h =>
    refine ⟨idle, located, fun _ => ?_, by simp, fun _ _ => Or.inr ⟨rfl, hfailed⟩, by simp [hfailed]⟩
    simp [inv.current (by simp [hmain])]
  all_goals
    refine inv.pass idle located (by simp [*]) (by simp) (by simp) (by simp) ?_
    have hflag := inv.flag
    simp_all [RunState.Ended]

private theorem Unrecorded.step (inv : Unrecorded s) (h : Step E answers s s') : Unrecorded s' := by
  rcases step_cases h with h | ⟨node, _, h⟩
  · exact inv.mainMove h
  · exact inv.nodeMove h

/-! ### Nothing turns a failing task back -/

private theorem UsedUp.works (h : UsedUp s t) (hpc : s'.pc t = s.pc t)
    (hworks : ∀ (i : Nat) (w : Work), s.works[i]? = some w → w.taskDefinitionId = t →
      s'.works[i]? = some w)
    (located : Located s) : UsedUp s' t := by
  obtain ⟨te, input, row, hte, hrow, hle⟩ := h
  obtain ⟨w, hw, hid⟩ := located.own t te (by rw [hte]; rfl)
  have hrow' := hworks te w hw hid
  rw [s.getElem?_works hrow] at hw
  cases hw
  obtain ⟨row', hrow', hwork⟩ := RunState.row_of_works hrow'
  simp only [TaskExecution.work, Work.mk.injEq] at hwork
  exact ⟨te, input, row', hpc.trans hte, hrow', by rw [hwork.2.2.1, hwork.2.2.2]; exact hle⟩

private theorem Failing.nodeMove (d : Failing t s) (located : Located s) (h : NodeMove E answers node s s') :
    Failing t s' := by
  rcases d with d | ⟨te, d⟩ | d
  · by_cases ht : t = node.taskId
    · subst ht
      obtain ⟨te, input, row, hte, hrow, hle⟩ := d
      cases h
      case exhausted te' _ _ _ _ _ => exact Or.inr (Or.inl ⟨te', by simp⟩)
      case backOff sample te' input' row' delay hpc hrow' hlt h =>
        rw [hte] at hpc
        cases hpc
        rw [hrow] at hrow'
        cases hrow'
        omega
      case throw e h =>
        cases h
        case delay te' input' row' sample hpc hrow' hlt h =>
          rw [hte] at hpc
          cases hpc
          rw [hrow] at hrow'
          cases hrow'
          omega
        all_goals simp_all
      all_goals simp_all
    · exact Or.inl (d.works (h.pc_of_ne ht)
        (fun i w hw hid => h.works_of_ne located hw (by rw [hid]; exact ht)) located)
  · by_cases ht : t = node.taskId
    · subst ht
      exact Or.inr (Or.inr (h.failed_iff.mpr (Or.inr ⟨te, d⟩)))
    · exact Or.inr (Or.inl ⟨te, by rw [h.pc_of_ne ht, d]⟩)
  · exact Or.inr (Or.inr (h.failed_mono d))

private theorem Failing.mainMove (d : Failing t s) (inv : Unrecorded s) (h : MainMove E s s') :
    Failing t s' := by
  have hkeep (hactive : s.pc t ≠ .done) : s'.pc t = s.pc t ∧ s.main ≠ .lookup := by
    have hg := inv.idle.gathers hactive
    refine ⟨?_, fun hm => by rw [hm] at hg; cases hg⟩
    rcases h.pc with ⟨hpc, _⟩ | ⟨hm, _⟩
    · rw [hpc]
    · rw [hm] at hg
      cases hg
  rcases d with d | ⟨te, d⟩ | d
  · have hactive : s.pc t ≠ .done := by
      obtain ⟨te, input, row, hte, _⟩ := d
      simp [hte]
    obtain ⟨hpc, hmain⟩ := hkeep hactive
    exact Or.inl (d.works hpc (fun i w hw _ => h.works inv.located.agrees hmain hw) inv.located)
  · exact Or.inr (Or.inl ⟨te, by rw [(hkeep (by simp [d])).1, d]⟩)
  · exact Or.inr (Or.inr (h.failed.trans d))

private theorem Failing.step (d : Failing t s) (inv : Unrecorded s) (h : Step E answers s s') :
    Failing t s' := by
  rcases step_cases h with h | ⟨node, _, h⟩
  · exact d.mainMove inv h
  · exact d.nodeMove inv.located h

/-- A failing run has not ended in the store. -/
private theorem Failing.unended (d : Failing t s) (inv : Unrecorded s) : s.db.execution.Unended := by
  have hplace : (s.main ≠ .lookup ∧ s.main ≠ .loaded) ∧ ¬ (s.main = .returned ∧ s.failed = false) := by
    have hactive (h : s.pc t ≠ .done) :
        (s.main ≠ .lookup ∧ s.main ≠ .loaded) ∧ ¬ (s.main = .returned ∧ s.failed = false) := by
      rcases inv.idle.main_of_active h with hm | ⟨e, hm⟩ <;> simp [hm]
    rcases d with ⟨te, input, row, hte, _⟩ | ⟨te, hte⟩ | hfailed
    · exact hactive (by simp [hte])
    · exact hactive (by simp [hte])
    · refine ⟨?_, fun h => by simp [hfailed] at h⟩
      rcases inv.flag hfailed with h | h | h | ⟨e, h⟩ <;> simp [h]
  exact (inv.unended hplace.1.1 hplace.1.2).resolve_right hplace.2

/-- From the moment at which some task has used up its attempts, every state of every run without
a cancel has the execution running and without an end, and a retry is refused. -/
theorem failure_is_not_recorded (hpending : db.execution.status = .pending)
    (hopen : db.execution.completedAt = none) (run : Run (Step E answers) (.start E db) s)
    (hused : UsedUp s t) (rest : Run (Step E answers) s u) :
    u.db.execution.status = .running ∧ u.db.execution.completedAt = none ∧
      u.db.retryExecution = none := by
  have hstart : Unrecorded (RunState.start E db) := .start E hpending hopen
  have hinv : Unrecorded s := run.invariant (fun _ _ inv h => inv.step h) hstart
  have hstep : ∀ v w, Unrecorded v ∧ Failing t v → Step E answers v w → Unrecorded w ∧ Failing t w :=
    fun v w inv h => ⟨inv.1.step h, inv.2.step inv.1 h⟩
  obtain ⟨inv, d⟩ := rest.invariant hstep ⟨hinv, Or.inl hused⟩
  obtain ⟨hrunning, hnone⟩ := d.unended inv
  refine ⟨hrunning, hnone, ?_⟩
  simp [Database.retryExecution, WorkflowExecution.retry, hrunning]

/-! ### One task with one attempt -/

def singleDefinition : DagDefinition where
  tasks := [⟨"c", "delay", "C", [], some { maxAttempts := 1 }, none⟩]

def singleEngine : Engine where
  settings := settings
  reading := .repaired
  strOf := fun _ => ""
  dag := .ofAccepted singleDefinition (by decide)

private def fails : Outcome := .result ⟨false, .none, some "refused", 0⟩

private def failing : List Choice := body 6 ++ coroutine "c" 8 fails

private def usedUp (s : RunState) : Bool :=
  match s.pc "c" with
  | .attemptFailed te _ => s.mem.tasks[te]?.any (fun row => row.maxAttempts ≤ row.attempt)
  | _ => false

private theorem usedUp_iff (h : usedUp s = true) : UsedUp s "c" := by
  unfold usedUp at h
  split at h
  · next te input hpc =>
    obtain ⟨row, hrow, hle⟩ := (Option.any_eq_true _ _).mp h
    exact ⟨te, input, row, hpc, hrow, of_decide_eq_true hle⟩
  · cases h

private def returnsUnfailed (s : RunState) : Bool :=
  (execute (step singleEngine) (coroutine "c" 2 fails ++ body 2) s).any
    (fun u => u.main = .returned ∧ u.db.execution.status = .running)

private theorem exists_usedUp : ∃ s u,
    Run (Step singleEngine anyAnswer) (.start singleEngine ⟨{}, []⟩) s ∧ UsedUp s "c" ∧
      Run (Step singleEngine anyAnswer) s u ∧ u.main = .returned ∧ u.db.execution.status = .running := by
  obtain ⟨s, run, hs⟩ := exists_run singleEngine anyAnswer failing (.start singleEngine ⟨{}, []⟩)
    (fun s => usedUp s && returnsUnfailed s)
    (possible_append (possible_body _ 6) (possible_coroutine "c" 8 fun _ _ _ => trivial))
    (by decide +kernel)
  rw [Bool.and_eq_true] at hs
  obtain ⟨u, rest, hu⟩ := exists_run singleEngine anyAnswer _ s _
    (possible_append (possible_coroutine "c" 2 fun _ _ _ => trivial) (possible_body _ 2)) hs.2
  exact ⟨s, u, run, usedUp_iff hs.1, rest, of_decide_eq_true hu⟩

theorem failure_is_not_recorded_single : ∃ u : RunState, u.main = .returned ∧
    u.db.execution.status = .running ∧ u.db.execution.completedAt = none ∧
      u.db.retryExecution = none := by
  obtain ⟨s, u, run, hused, rest, hreturned, _⟩ := exists_usedUp
  exact ⟨u, hreturned, failure_is_not_recorded rfl rfl run hused rest⟩

theorem single_failure_is_lost : ¬ ∀ s u,
    Run (Step singleEngine anyAnswer) (.start singleEngine ⟨{}, []⟩) s → UsedUp s "c" →
      Run (Step singleEngine anyAnswer) s u → u.Ended →
      u.main = .returned ∧ u.db.execution.status = .failed ∧ u.db.execution.completedAt ≠ none := by
  intro h
  obtain ⟨s, u, run, hused, rest, hreturned, hrunning⟩ := exists_usedUp
  have hfailed := (h s u run hused rest (Or.inl hreturned)).2.1
  rw [hrunning] at hfailed
  cases hfailed

end BackendProjects.Workflow
