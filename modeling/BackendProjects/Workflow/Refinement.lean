import BackendProjects.Workflow.Cancellation
import BackendProjects.Workflow.Lifecycle

/-! The lifecycle of an execution is an abstraction of the executor: a worker's run, next to a
cancel, does to the row of the execution what the processes of the lifecycle do. -/
namespace BackendProjects.Workflow
open Library

def MainPc.Loops : MainPc → Prop
  | .lookup | .loaded | .returned | .raised _ => False
  | _ => True

def RunState.Shows (s : RunState) (pc : Proc) : Prop :=
  match s.main with
  | .lookup => pc = .received
  | .loaded => pc = .loaded s.mem.execution
  | .returned | .raised _ => pc = .finished
  | _ => ∃ own, pc = .driving s.mem.execution own

def CancelPhase.proc : CancelPhase → Proc
  | .absent => .idle
  | .loaded rows => .cancelLoaded rows.execution
  | .committed _ => .finished

/-- A worker run and a cancel, as the processes `p` and `q` of a lifecycle. -/
structure Follows (lax : Json → Option Int) (p q : Nat) (c : CancelRun) (l : Lifecycle) : Prop where
  idle : Idle c.run
  row : l.row = some c.run.db.execution
  worker : c.run.Shows (l.proc p)
  cancel : l.proc q = c.cancel.proc
  dag : (l.definition.rebuild lax).isSome

variable {E : Engine} {answers : Answers} {node : DAGNode} {s s' : RunState} {phase : CancelPhase}
  {lax : Json → Option Int} {definition : Schemas.WorkflowDefinition} {p q : Nat} {l : Lifecycle} {db : Database}
  {c : CancelRun}

private theorem RunState.shows_loops (h : s.main.Loops) (pc : Proc) :
    s.Shows pc ↔ ∃ own, pc = .driving s.mem.execution own := by
  unfold Shows
  cases hmain : s.main <;> rw [hmain] at h <;> first | rfl | exact h.elim

private theorem RunState.shows_ended (h : s.Ended) (pc : Proc) : s.Shows pc ↔ pc = .finished := by
  rcases h with h | ⟨e, h⟩ <;> simp [Shows, h]

private def Follows.To (lax : Json → Option Int) (p q : Nat) (phase : CancelPhase) (l : Lifecycle)
    (s' : RunState) : Prop :=
  ∃ l', Run (Lifecycle.Step lax [.worker, .cancel]) l l' ∧ Follows lax p q ⟨s', phase⟩ l'

/-- A move of the worker that the lifecycle makes too. -/
private theorem Follows.move (hpq : p ≠ q) (h : Follows lax p q ⟨s, phase⟩ l) (idle : Idle s')
    {pc : Proc} {l' : Lifecycle} (hmove : l.Move lax .worker (l'.put p pc))
    (hsame : l'.proc = l.proc ∧ l'.definition = l.definition)
    (hrow : l'.row = some s'.db.execution) (hshows : s'.Shows pc) : Follows.To lax p q phase l s' := by
  refine ⟨l'.put p pc, .single ⟨.worker, by decide, hmove⟩, idle, hrow, ?_, ?_, ?_⟩
  · rw [Lifecycle.put_proc, Function.update_self]
    exact hshows
  · rw [Lifecycle.put_proc, Function.update_of_ne hpq.symm, hsame.1]
    exact h.cancel
  · rw [Lifecycle.put_definition, hsame.2]
    exact h.dag

/-- In the loop, the copy of the execution stays or is refreshed. -/
private theorem Follows.stay (hpq : p ≠ q) (h : Follows lax p q ⟨s, phase⟩ l) (idle : Idle s')
    (hs : s.main.Loops) (hs' : s'.main.Loops) (hdb : s'.db.execution = s.db.execution)
    (hmem : s'.mem.execution = s.mem.execution ∨ s'.mem.execution = s.db.execution) :
    Follows.To lax p q phase l s' := by
  obtain ⟨own, hproc⟩ := (RunState.shows_loops hs _).mp h.worker
  have hrow : l.row = some s'.db.execution := hdb ▸ h.row
  rcases hmem with hmem | hmem
  · refine ⟨l, .refl, idle, hrow, (RunState.shows_loops hs' _).mpr ⟨own, ?_⟩, h.cancel, h.dag⟩
    rw [hproc, hmem]
  · refine h.move hpq idle (.refresh p hproc h.row) ⟨rfl, rfl⟩ hrow ?_
    exact (RunState.shows_loops hs' _).mpr ⟨own, by rw [hmem]⟩

/-- The run leaves the loop without a word. -/
private theorem Follows.leave (hpq : p ≠ q) (h : Follows lax p q ⟨s, phase⟩ l) (idle : Idle s')
    (hs : s.main.Loops) (hs' : s'.Ended) (hdb : s'.db.execution = s.db.execution) :
    Follows.To lax p q phase l s' := by
  obtain ⟨own, hproc⟩ := (RunState.shows_loops hs _).mp h.worker
  exact h.move hpq idle (.leave p hproc) ⟨rfl, rfl⟩ (hdb ▸ h.row) ((RunState.shows_ended hs' _).mpr rfl)

private theorem Follows.mainMove (hpq : p ≠ q) (h : Follows lax p q ⟨s, phase⟩ l)
    (hmove : MainMove E s s') : Follows.To lax p q phase l s' := by
  have idle := h.idle.mainMove hmove
  have hloops {m : MainPc} (hmain : s.main = m) (hm : m.Loops) : s.main.Loops := hmain ▸ hm
  cases hmove with
  | lookup hmain =>
    have hproc : l.proc p = .received := by simpa [RunState.Shows, hmain] using h.worker
    exact h.move hpq idle (.lookup p hproc h.row h.dag) ⟨rfl, rfl⟩ h.row rfl
  | start now hmain hstart =>
    have hproc : l.proc p = .loaded s.mem.execution := by
      simpa [RunState.Shows, hmain] using h.worker
    exact h.move hpq idle (.start p now hproc hstart h.row) ⟨rfl, rfl⟩ rfl ⟨_, rfl⟩
  | noStart hmain hstart =>
    have hproc : l.proc p = .loaded s.mem.execution := by
      simpa [RunState.Shows, hmain] using h.worker
    exact h.move hpq idle (.noStart p hproc hstart) ⟨rfl, rfl⟩ h.row ⟨_, rfl⟩
  | load hmain =>
    obtain ⟨_, _, _, hload⟩ := foldl_loadRow s.mem.tasks s
    rw [hload] at idle ⊢
    exact h.stay hpq idle (hloops hmain trivial) trivial rfl (Or.inl rfl)
  | iterate hmain _ => exact h.stay hpq idle (hloops hmain trivial) trivial rfl (Or.inr rfl)
  | exit hmain _ => exact h.stay hpq idle (hloops hmain trivial) trivial rfl (Or.inr rfl)
  | cancelled hmain _ => exact h.leave hpq idle (hloops hmain trivial) (Or.inl rfl) rfl
  | recordFailure now hmain _ _ =>
    obtain ⟨own, hproc⟩ := (RunState.shows_loops (hloops hmain trivial) _).mp h.worker
    exact h.move hpq idle (.fail p now hproc h.row) ⟨rfl, rfl⟩ rfl rfl
  | noLock hmain _ _ _ => exact h.leave hpq idle (hloops hmain trivial) (Or.inr ⟨_, rfl⟩) rfl
  | noMethod hmain _ _ _ => exact h.leave hpq idle (hloops hmain trivial) (Or.inr ⟨_, rfl⟩) rfl
  | propagateSkips hmain _ _ _ _ =>
    exact h.stay hpq idle (hloops hmain trivial) trivial rfl (Or.inl rfl)
  | skipFound now hmain _ =>
    exact h.stay hpq idle (hloops hmain trivial) trivial (WorkflowExecution.writeBack_same _ _)
      (Or.inl rfl)
  | skipMissing hmain _ => exact h.stay hpq idle (hloops hmain trivial) trivial rfl (Or.inl rfl)
  | skipCreate now hmain _ =>
    exact h.stay hpq idle (hloops hmain trivial) trivial (WorkflowExecution.writeBack_same _ _)
      (Or.inl rfl)
  | skipThrow hmain _ => exact h.leave hpq idle (hloops hmain trivial) (Or.inr ⟨_, rfl⟩) rfl
  | settled hmain _ _ => exact h.stay hpq idle (hloops hmain trivial) trivial rfl (Or.inr rfl)
  | sleep hmain _ _ => exact h.stay hpq idle (hloops hmain trivial) trivial rfl (Or.inl rfl)
  | gather hmain _ => exact h.stay hpq idle (hloops hmain trivial) trivial rfl (Or.inl rfl)
  | wake hmain => exact h.stay hpq idle (hloops hmain trivial) trivial rfl (Or.inl rfl)
  | gathered hmain _ _ => exact h.stay hpq idle (hloops hmain trivial) trivial rfl (Or.inl rfl)
  | gatheredFailed hmain _ _ =>
    exact h.stay hpq idle (hloops hmain trivial) trivial rfl (Or.inr rfl)
  | finalCancelled hmain _ => exact h.leave hpq idle (hloops hmain trivial) (Or.inl rfl) rfl
  | finalFailed hmain _ _ => exact h.leave hpq idle (hloops hmain trivial) (Or.inl rfl) rfl
  | complete now hmain _ _ hcomplete =>
    obtain ⟨own, hproc⟩ := (RunState.shows_loops (hloops hmain trivial) _).mp h.worker
    exact h.move hpq idle (.complete p now s.taskOutputs hproc hcomplete h.row) ⟨rfl, rfl⟩ rfl rfl
  | completeThrow now hmain _ _ _ =>
    exact h.leave hpq idle (hloops hmain trivial) (Or.inr ⟨_, rfl⟩) rfl
  | propagate hmain _ _ => exact h.leave hpq idle (hloops hmain trivial) (Or.inr ⟨_, rfl⟩) rfl

private theorem Follows.nodeMove (hpq : p ≠ q) (h : Follows lax p q ⟨s, phase⟩ l)
    (hmove : NodeMove E answers node s s') : Follows.To lax p q phase l s' := by
  have idle := h.idle.nodeMove hmove
  rcases h.idle.main_of_active hmove.pc_ne_done with hmain | ⟨e, hmain⟩
  · refine h.stay hpq idle ?_ ?_ hmove.execution hmove.mem_execution
    · rw [hmain]
      trivial
    · rw [hmove.main, hmain]
      trivial
  · refine ⟨l, .refl, idle, ?_, ?_, h.cancel, h.dag⟩
    · rw [hmove.execution]
      exact h.row
    · have hs : s.Ended := Or.inr ⟨e, hmain⟩
      have hs' : s'.Ended := Or.inr ⟨e, hmove.main.trans hmain⟩
      exact (RunState.shows_ended hs' _).mpr ((RunState.shows_ended hs _).mp h.worker)

/-- The lifecycle follows every step of a run with a cancel next to it. -/
theorem executor_refines (E : Engine) (answers : Answers) (hpq : p ≠ q) :
    Simulates (CancelStep E answers) (Lifecycle.Step lax [.worker, .cancel]) (Follows lax p q) := by
  rintro ⟨s, phase⟩ l _ hf h
  cases h with
  | own h =>
    rcases step_cases h with h | ⟨node, _, h⟩
    · exact hf.mainMove hpq h
    · exact hf.nodeMove hpq h
  | load habsent =>
    obtain rfl : phase = .absent := habsent
    have hproc : l.proc q = .idle := hf.cancel
    refine ⟨_, .single ⟨.cancel, by decide, .cancelLoad q hproc hf.row⟩, hf.idle, hf.row, ?_, ?_, hf.dag⟩
    · rw [Lifecycle.put_proc, Function.update_of_ne hpq]
      exact hf.worker
    · rw [Lifecycle.put_proc, Function.update_self]
      rfl
  | @commit now rows hloaded =>
    obtain rfl : phase = .loaded rows := hloaded
    have hproc : l.proc q = .cancelLoaded rows.execution := hf.cancel
    refine ⟨_, .single ⟨.cancel, by decide, .cancelCommit q now hproc hf.row⟩, ?_, rfl, ?_, ?_, hf.dag⟩
    · exact ⟨hf.idle.outside, hf.idle.between⟩
    · rw [Lifecycle.put_proc, Function.update_of_ne hpq]
      exact hf.worker
    · rw [Lifecycle.put_proc, Function.update_self]
      rfl

def takenUp (definition : Schemas.WorkflowDefinition) (ex : WorkflowExecution) : Lifecycle :=
  (Lifecycle.stored definition ex 0).put 0 .received

/-- What a run with a cancel leaves in the row of the execution, the lifecycle leaves there too; the DAG of
the run comes from the stored definition. -/
theorem executor_run_refines (hdag : (definition.rebuild lax).map Prod.snd = some E.dag)
    (run : Run (CancelStep E answers) (.start E db) c) :
    ∃ l, Run (Lifecycle.Step lax [.worker, .cancel]) (takenUp definition db.execution) l ∧
      l.row = some c.run.db.execution := by
  have hrebuilds : (definition.rebuild lax).isSome := by
    obtain ⟨rebuilt, hrebuilt, -⟩ := Option.map_eq_some_iff.mp hdag
    rw [hrebuilt, Option.isSome_some]
  have hstart : Follows lax 0 1 (.start E db) (takenUp definition db.execution) :=
    ⟨Idle.start E db, rfl, rfl, rfl, hrebuilds⟩
  obtain ⟨l, hl, hf⟩ := (executor_refines E answers (by decide)).run hstart run
  exact ⟨l, hl, hf.row⟩

end BackendProjects.Workflow
