import BackendProjects.Workflow.Rows

/-! What a cancel and a retry do to an execution whose status the state machine does not let go
where they want it. -/
namespace BackendProjects.Workflow

structure Broadcast where
  event : String
  status : ExecutionState
  deriving DecidableEq

/-- A call of `cancel_execution` that finds the execution: the rows that it commits and what it
broadcasts. -/
structure CancelCall where
  rows : Database
  broadcasts : List Broadcast
  deriving DecidableEq

/-- A call of `retry_execution` that finds the execution, with the tasks that it sends. -/
structure RetryCall where
  returned : Bool
  rows : Database
  sent : List String
  deriving DecidableEq

namespace Database
variable (rows : Database) (now : Time)

/-- The broadcast does not ask whether the status has moved. -/
def cancelCall : CancelCall where
  rows := rows.cancelExecution now
  broadcasts := [⟨"execution_cancelled", (rows.cancelExecution now).execution.status⟩]

def retryCall : RetryCall :=
  match rows.retryExecution with
  | none => ⟨false, rows, []⟩
  | some new => ⟨true, new, ["app.workers.workflow_worker.execute_workflow_task"]⟩

/-- A cancel that the state machine refuses changes no row and says nothing. -/
def RefusedCancelIsQuiet : Prop :=
  ¬ rows.execution.status.canTransitionTo .cancelled → rows.cancelCall now = ⟨rows, []⟩

/-- A retry that the state machine refuses says so, changes no row and sends nothing. -/
def RefusedRetryIsQuiet : Prop :=
  ¬ rows.execution.status.canTransitionTo .pending → rows.retryCall = ⟨false, rows, []⟩

variable {rows now}

private theorem cancel_refused_execution (h : ¬ rows.execution.status.canTransitionTo .cancelled) :
    (rows.cancelExecution now).execution = rows.execution := if_neg h

def Settled (rows : Database) : Prop :=
  ∀ te ∈ rows.tasks, ¬ (te.status = .pending ∨ te.status = .running)

private theorem cancel_eq_self_iff {te : TaskExecution} :
    te.cancel now = te ↔ ¬ (te.status = .pending ∨ te.status = .running) := by
  unfold TaskExecution.cancel
  split
  · next h =>
    refine iff_of_false (fun heq => ?_) (not_not.mpr h)
    have hstatus : TaskStatus.cancelled = te.status := congrArg TaskExecution.status heq
    rcases h with h | h <;> rw [h] at hstatus <;> cases hstatus
  · next h => exact iff_of_true rfl h

/-- The task rows survive a refused cancel when they are settled, and only then. -/
theorem refused_cancel_rows_iff (h : ¬ rows.execution.status.canTransitionTo .cancelled) :
    (rows.cancelCall now).rows = rows ↔ rows.Settled := by
  have htasks : (rows.cancelCall now).rows = rows ↔ rows.tasks.map (·.cancel now) = rows.tasks := by
    constructor
    · exact fun heq => congrArg Database.tasks heq
    · intro heq
      have hexecution : (rows.cancelExecution now).execution = rows.execution :=
        cancel_refused_execution h
      cases rows
      exact Database.mk.injEq .. ▸ ⟨hexecution, heq⟩
  calc (rows.cancelCall now).rows = rows
      ↔ rows.tasks.map (·.cancel now) = rows.tasks.map id := by rw [htasks, List.map_id]
    _ ↔ ∀ te ∈ rows.tasks, te.cancel now = te := List.map_inj_left
    _ ↔ rows.Settled := forall₂_congr (fun _ _ => cancel_eq_self_iff)

/-- Every cancel that finds its execution broadcasts, so a refused one is never quiet. -/
theorem refusedCancelIsQuiet_iff :
    rows.RefusedCancelIsQuiet now ↔ rows.execution.status.canTransitionTo .cancelled := by
  constructor
  · intro hquiet
    by_contra h
    have hnone : (rows.cancelCall now).broadcasts = [] := congrArg CancelCall.broadcasts (hquiet h)
    exact List.cons_ne_nil _ _ hnone
  · exact fun h hrefused => absurd h hrefused

/-- The early return of a retry leaves out the pending status, which has no move to itself. -/
theorem refusedRetryIsQuiet_iff : rows.RefusedRetryIsQuiet ↔ rows.execution.status ≠ .pending := by
  unfold RefusedRetryIsQuiet retryCall Database.retryExecution WorkflowExecution.retry
  cases h : rows.execution.status with
  | pending =>
    refine iff_of_false (fun hquiet => ?_) (fun hne => hne rfl)
    cases congrArg RetryCall.returned (hquiet (ExecutionState.not_canTransitionTo_self .pending))
  | running => exact iff_of_true (fun _ => rfl) ExecutionState.noConfusion
  | completed => exact iff_of_true (fun _ => rfl) ExecutionState.noConfusion
  | cancelled => exact iff_of_true (fun _ => rfl) ExecutionState.noConfusion
  | failed => exact iff_of_true (fun hrefused => absurd (by decide) hrefused) ExecutionState.noConfusion
  | timedOut =>
    exact iff_of_true (fun hrefused => absurd (by decide) hrefused) ExecutionState.noConfusion

/-- Only of a running execution do both operations keep to the state machine. -/
theorem refused_operations_change_nothing_iff (rows : Database) (now : Time) :
    rows.RefusedCancelIsQuiet now ∧ rows.RefusedRetryIsQuiet ↔ rows.execution.status = .running := by
  rw [refusedCancelIsQuiet_iff, refusedRetryIsQuiet_iff]
  cases rows.execution.status <;> decide

/-- A failed execution with a task that was never started: the cancel is refused, and yet it
cancels the task and reports a cancelled execution. -/
def failedRows : Database where
  execution := { status := .failed, completedAt := some 3 }
  tasks := [{ taskDefinitionId := "b", taskName := "B", taskType := "delay" }]

theorem refused_cancel_reaches_the_tasks :
    ¬ failedRows.execution.status.canTransitionTo .cancelled ∧
      failedRows.cancelCall 5 =
        ⟨{ failedRows with tasks := failedRows.tasks.map fun te =>
            { te with status := .cancelled, completedAt := some 5 } },
          [⟨"execution_cancelled", .failed⟩]⟩ ∧
      ¬ failedRows.RefusedCancelIsQuiet 5 := by
  have hrefused : ¬ failedRows.execution.status.canTransitionTo .cancelled := by decide
  refine ⟨hrefused, rfl, fun hquiet => ?_⟩
  exact absurd (congrArg CancelCall.broadcasts (hquiet hrefused)) (List.cons_ne_nil _ _)

end Database

end BackendProjects.Workflow
