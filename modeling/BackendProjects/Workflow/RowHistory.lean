import BackendProjects.Workflow.Frames
import BackendProjects.Workflow.Lifecycle

/-! The row of an execution over a whole history of operations, one after the other, in which a
call of `execute_workflow` may be cut off at any of its awaits. -/
namespace BackendProjects.Workflow
open Library

def ExecutionState.Final (state : ExecutionState) : Prop :=
  state = .completed ∨ state = .failed ∨ state = .cancelled ∨ state = .timedOut

structure WorkflowExecution.Consistent (ex : WorkflowExecution) : Prop where
  completedAt : ex.completedAt.isSome ↔ ex.status.Final
  outputData : ex.outputData ≠ .none ↔ ex.status = .completed
  startedAt : ex.startedAt = none → ex.status = .pending ∨ ex.status = .cancelled

namespace WorkflowExecution.Consistent
variable {ex new : WorkflowExecution}

/-- A row as `trigger_workflow` stores it. -/
theorem triggered (input : Option PyDict) :
    WorkflowExecution.Consistent { inputData := input } :=
  ⟨by simp [ExecutionState.Final], by simp, fun _ => Or.inl rfl⟩

private theorem start (h : ex.Consistent) (hstart : ex.status.canTransitionTo .running) (now : Time) :
    (ex.start now).Consistent := by
  have hpending : ex.status = .pending := by
    revert hstart
    cases ex.status <;> decide
  have hopen := h.completedAt
  have houtput := h.outputData
  rw [hpending] at hopen houtput
  refine ⟨?_, ?_, fun hnone => by cases hnone⟩
  · simpa [WorkflowExecution.start, ExecutionState.Final] using hopen
  · simpa [WorkflowExecution.start] using houtput

/-- Only a running execution is completed, and it has been started. -/
theorem complete (h : ex.Consistent) {now : Time} {taskOutputs : PyDict}
    (hnew : ex.complete now taskOutputs = .ok new) : new.Consistent := by
  have hrunning : ex.status = .running := by
    have hmove := (WorkflowExecution.complete_ok hnew).1
    revert hmove
    cases ex.status <;> decide
  have hnext : ex.status.transitionTo .completed = .ok .completed := by
    rw [hrunning]
    rfl
  unfold WorkflowExecution.complete at hnew
  rw [hnext] at hnew
  cases hnew
  refine ⟨by simp [ExecutionState.Final], by simp, fun hnone => ?_⟩
  rcases h.startedAt hnone with hstatus | hstatus <;> rw [hrunning] at hstatus <;> cases hstatus

/-- The time that `_fail_execution` sets belongs to the row's state unless that is pending. -/
theorem fail (h : ex.Consistent) (hstatus : ex.status ≠ .pending) (now : Time) :
    (ex.fail now).Consistent := by
  have houtput := h.outputData
  have hstarted := h.startedAt
  refine ⟨?_, ?_, ?_⟩ <;> cases hs : ex.status <;>
    simp_all [WorkflowExecution.fail, ExecutionState.canTransitionTo, ExecutionState.validTransitions,
      ExecutionState.Final]

private theorem cancel (h : ex.Consistent) (now : Time) : (ex.cancel now).Consistent := by
  by_cases hcan : ex.status.canTransitionTo .cancelled
  · have hlive : ex.status ≠ .completed := by
      rintro hs
      rw [hs] at hcan
      revert hcan
      decide
    have houtput := h.outputData
    refine ⟨?_, ?_, ?_⟩ <;> simp_all [WorkflowExecution.cancel, ExecutionState.Final]
  · rw [WorkflowExecution.cancel, if_neg hcan]
    exact h

private theorem retry (hnew : ex.retry = some new) : new.Consistent := by
  unfold WorkflowExecution.retry at hnew
  split at hnew
  · cases hnew
  · cases hnew
    exact ⟨by simp [ExecutionState.Final], by simp, fun _ => Or.inl rfl⟩

end WorkflowExecution.Consistent

/-! ### One call of `execute_workflow` -/

/-- What holds of the row of the execution at every await of a call that nobody interferes with. -/
structure RowKept (s : RunState) : Prop where
  current : s.mem.execution = s.db.execution
  consistent : s.db.execution.Consistent
  started : s.main ≠ .lookup → s.main ≠ .loaded → s.db.execution.status ≠ .pending

variable {E : Engine} {answers : Answers} {db : Database} {node : DAGNode} {s s' : RunState}

private theorem RowKept.start (E : Engine) (h : db.execution.Consistent) : RowKept (.start E db) :=
  ⟨rfl, h, fun hmain => absurd rfl hmain⟩

private theorem RowKept.nodeMove (inv : RowKept s) (h : NodeMove E answers node s s') : RowKept s' := by
  refine ⟨?_, ?_, ?_⟩
  · rw [h.execution]
    rcases h.mem_execution with hm | hm
    · rw [hm, inv.current]
    · exact hm
  · rw [h.execution]
    exact inv.consistent
  · rw [h.main, h.execution]
    exact inv.started

/-- A move of the body that leaves the stored row alone. -/
private theorem RowKept.pass (inv : RowKept s) (hdb : s'.db.execution = s.db.execution)
    (hmem : s'.mem.execution = s.mem.execution ∨ s'.mem.execution = s.db.execution)
    (hmain : s'.main ≠ .lookup → s'.main ≠ .loaded →
      (s.main ≠ .lookup ∧ s.main ≠ .loaded) ∨ s.db.execution.status ≠ .pending) : RowKept s' := by
  refine ⟨?_, hdb ▸ inv.consistent, fun hlookup hloaded => ?_⟩
  · rw [hdb]
    rcases hmem with hm | hm
    · rw [hm, inv.current]
    · exact hm
  · rw [hdb]
    rcases hmain hlookup hloaded with ⟨h1, h2⟩ | h
    · exact inv.started h1 h2
    · exact h

/-- A move of the body that commits a new row. -/
private theorem RowKept.save (inv : RowKept s) {ex : WorkflowExecution} (hex : ex.Consistent)
    (hstatus : ex.status ≠ .pending) (m : MainPc) :
    RowKept { s.saveExecution ex with main := m } := by
  have hdb : (s.saveExecution ex).db.execution = ex := by simp [inv.current]
  exact ⟨hdb.symm, hdb.symm ▸ hex, fun _ _ => hdb.symm ▸ hstatus⟩

private theorem RowKept.mainMove (inv : RowKept s) (h : MainMove E s s') : RowKept s' := by
  have hmem : s.mem.execution.Consistent := inv.current ▸ inv.consistent
  cases h with
  | lookup hmain => exact inv.pass rfl (Or.inr rfl) (fun _ h => absurd rfl h)
  | start now hmain h => exact inv.save (hmem.start h now) (by simp [WorkflowExecution.start]) _
  | noStart hmain h =>
    refine inv.pass rfl (Or.inl rfl) (fun _ _ => Or.inr (fun hpending => h ?_))
    rw [inv.current, hpending]
    decide
  | load hmain =>
    obtain ⟨_, _, _, h⟩ := foldl_loadRow s.mem.tasks s
    rw [h]
    exact inv.pass rfl (Or.inl rfl) (fun _ _ => Or.inl (by simp [hmain]))
  | recordFailure now hmain _ _ =>
    have hstatus : s.mem.execution.status ≠ .pending :=
      inv.current ▸ inv.started (by simp [hmain]) (by simp [hmain])
    refine inv.save (hmem.fail hstatus now) ?_ _
    rcases s.mem.execution.fail_status now with h | ⟨_, h⟩ <;> rw [h]
    · exact hstatus
    · simp
  | complete now hmain _ _ h =>
    refine inv.save (hmem.complete h) ?_ _
    rw [(WorkflowExecution.complete_ok h).2]
    simp
  | skipFound now hmain _ | skipCreate now hmain _ =>
    exact inv.pass (by simp) (Or.inl rfl) (fun _ _ => Or.inl (by simp [hmain]))
  | iterate hmain _ | exit hmain _ | settled hmain _ _ | gatheredFailed hmain _ _ =>
    exact inv.pass rfl (Or.inr rfl) (fun _ _ => Or.inl (by simp [hmain]))
  | cancelled hmain _ | noLock hmain _ _ _ | noMethod hmain _ _ _ | propagateSkips hmain _ _ _ _
  | skipMissing hmain _ | skipThrow hmain _ | sleep hmain _ _ | gather hmain _ | wake hmain
  | gathered hmain _ _ | finalCancelled hmain _ | finalFailed hmain _ _ | completeThrow _ hmain _ _ _
  | propagate hmain _ _ =>
    exact inv.pass rfl (Or.inl rfl) (fun _ _ => Or.inl (by simp [hmain]))

private theorem RowKept.step (inv : RowKept s) (h : Step E answers s s') : RowKept s' := by
  rcases step_cases h with h | ⟨node, _, h⟩
  · exact inv.mainMove h
  · exact inv.nodeMove h

/-! ### Histories -/

/-- One operation on an execution, from the committed rows that it finds to those that it leaves. A
call of `execute_workflow` may end anywhere, and each call has its own DAG and settings. -/
inductive Operation : Option Database → Option Database → Prop
  | trigger (input : Option PyDict) : Operation none (some (⟨{ inputData := input }, []⟩))
  | execute (E : Engine) (answers : Answers) {db : Database} {s : RunState}
      (run : Run (Step E answers) (.start E db) s) : Operation (some db) (some s.db)
  | cancel (now : Time) (db : Database) :
      Operation (some db) (some (db.commit (db.cancelExecution now) db))
  | retry {db new : Database} (h : db.retryExecution = some new) :
      Operation (some db) (some (db.commit new db))

/-- No operation breaks the row, wherever it ends. -/
private theorem Operation.consistent {before after : Option Database} (op : Operation before after)
    (h : ∀ db, before = some db → db.execution.Consistent) :
    ∀ db, after = some db → db.execution.Consistent := by
  rintro _ ⟨⟩
  cases op with
  | trigger input => exact .triggered input
  | execute E answers run =>
    have kept := run.invariant (fun _ _ inv step => inv.step step) (RowKept.start E (h _ rfl))
    exact kept.consistent
  | cancel now db =>
    simp only [Database.commit_execution, Database.cancelExecution, WorkflowExecution.writeBack_fresh]
    exact (h db rfl).cancel now
  | retry hnew =>
    obtain ⟨ex, hex, rfl⟩ := Option.map_eq_some_iff.mp hnew
    simp only [Database.commit_execution, WorkflowExecution.writeBack_fresh]
    exact .retry hex

/-- Every row that a history of operations commits has its times and its output as its status says. -/
theorem committed_rows_are_consistent {db : Database} (history : Run Operation none (some db)) :
    db.execution.Consistent := by
  have keep : ∀ before after : Option Database, (∀ db, before = some db → db.execution.Consistent) →
      Operation before after → ∀ db, after = some db → db.execution.Consistent :=
    fun _ _ inv op => op.consistent inv
  exact history.invariant keep (by simp) db rfl

/-! ### A call that is cut off after its start, and a cancel -/

private def isRunning (s : RunState) : Bool := s.db.execution.status = .running

theorem committed_rows_are_consistent_cut_off : ∃ db : Database, Run Operation none (some db) ∧
    db.execution.status = .cancelled ∧ db.execution.Consistent := by
  obtain ⟨s, run, hs⟩ := exists_run (chainEngine .repaired) anyAnswer (body 2)
    (.start (chainEngine .repaired) ⟨{ inputData := none }, []⟩) isRunning (possible_body _ 2)
    (by decide +kernel)
  have hrunning : s.db.execution.status = .running := of_decide_eq_true hs
  have started : Run Operation none (some s.db) :=
    .tail (.single (.trigger none)) (.execute (chainEngine .repaired) anyAnswer run)
  have history := started.tail (.cancel 1 s.db)
  refine ⟨_, history, ?_, committed_rows_are_consistent history⟩
  simp [Database.cancelExecution, WorkflowExecution.cancel, hrunning, ExecutionState.canTransitionTo,
    ExecutionState.validTransitions]

end BackendProjects.Workflow
