import BackendProjects.Library.WriteBack
import BackendProjects.Workflow.Dag
import BackendProjects.Workflow.StateMachine
import Mathlib.Tactic.Simps.Basic

/-! The rows of one execution, what a session's commit writes to them, and the operations of
the API on them. -/
namespace BackendProjects.Workflow
open Library

inductive TaskStatus where
  | pending
  | running
  | completed
  | failed
  | skipped
  | cancelled
  deriving DecidableEq

/-- A `workflow_executions` row, without the columns that no operation reads or writes. -/
structure WorkflowExecution where
  status : ExecutionState := .pending
  inputData : Option PyDict := none
  outputData : PyValue := .none
  error : Option String := none
  startedAt : Option Time := none
  completedAt : Option Time := none
  deriving DecidableEq

/-- A `task_executions` row. Its place in the list of rows identifies it. -/
structure TaskExecution where
  taskDefinitionId : TaskId
  taskName : String
  taskType : String
  status : TaskStatus := .pending
  outputData : PyValue := .none
  error : Option String := none
  attempt : Nat := 1
  maxAttempts : Nat := 1
  startedAt : Option Time := none
  completedAt : Option Time := none
  durationMs : Option Int := none
  deriving DecidableEq

/-- The rows of one execution, as a session or the store holds them. -/
structure Database where
  execution : WorkflowExecution
  tasks : List TaskExecution
  deriving DecidableEq

/-! ### Commits -/

/-- An UPDATE sets the columns that differ from what the session loaded. -/
def WorkflowExecution.writeBack (old new cur : WorkflowExecution) : WorkflowExecution where
  status := Library.writeBack old.status new.status cur.status
  inputData := Library.writeBack old.inputData new.inputData cur.inputData
  outputData := Library.writeBack old.outputData new.outputData cur.outputData
  error := Library.writeBack old.error new.error cur.error
  startedAt := Library.writeBack old.startedAt new.startedAt cur.startedAt
  completedAt := Library.writeBack old.completedAt new.completedAt cur.completedAt

def TaskExecution.writeBack (old new cur : TaskExecution) : TaskExecution where
  taskDefinitionId := cur.taskDefinitionId
  taskName := cur.taskName
  taskType := cur.taskType
  status := Library.writeBack old.status new.status cur.status
  outputData := Library.writeBack old.outputData new.outputData cur.outputData
  error := Library.writeBack old.error new.error cur.error
  attempt := Library.writeBack old.attempt new.attempt cur.attempt
  maxAttempts := Library.writeBack old.maxAttempts new.maxAttempts cur.maxAttempts
  startedAt := Library.writeBack old.startedAt new.startedAt cur.startedAt
  completedAt := Library.writeBack old.completedAt new.completedAt cur.completedAt
  durationMs := Library.writeBack old.durationMs new.durationMs cur.durationMs

/-- Rows that the session has flushed but nobody has committed yet follow the stored ones. -/
def commitTasks : List TaskExecution → List TaskExecution → List TaskExecution → List TaskExecution
  | o :: old, n :: new, c :: cur => o.writeBack n c :: commitTasks old new cur
  | _, new, [] => new
  | _, _, cur => cur

/-- The store after the commit of a session that loaded `old` and holds `new`. -/
@[simps] def Database.commit (old new cur : Database) : Database where
  execution := old.execution.writeBack new.execution cur.execution
  tasks := commitTasks old.tasks new.tasks cur.tasks

/-- What a session holds after refreshing: the stored rows, and its own uncommitted ones. -/
@[simps] def Database.refresh (mem cur : Database) : Database where
  execution := cur.execution
  tasks := cur.tasks ++ mem.tasks.drop cur.tasks.length

@[simp] theorem WorkflowExecution.writeBack_same (old cur : WorkflowExecution) :
    old.writeBack old cur = cur := by
  simp [WorkflowExecution.writeBack]

@[simp] theorem WorkflowExecution.writeBack_fresh (old new : WorkflowExecution) :
    old.writeBack new old = new := by
  simp [WorkflowExecution.writeBack]

@[simp] theorem TaskExecution.writeBack_same (old cur : TaskExecution) :
    old.writeBack old cur = cur := by
  simp [TaskExecution.writeBack]

/-! ### The operations of the API -/

def WorkflowExecution.start (ex : WorkflowExecution) (now : Time) : WorkflowExecution :=
  { ex with status := .running, startedAt := some now }

def WorkflowExecution.complete (ex : WorkflowExecution) (now : Time)
    (taskOutputs : PyDict) : Except PyError WorkflowExecution := do
  let _ ← ex.status.transitionTo .completed
  return { ex with
    status := .completed
    completedAt := some now
    outputData := .dict [(.str "tasks", .dict taskOutputs)]
    error := none }

/-- `_fail_execution`: the time is set whether or not the status can move. -/
def WorkflowExecution.fail (ex : WorkflowExecution) (now : Time) : WorkflowExecution :=
  { ex with
    status := if ex.status.canTransitionTo .failed then .failed else ex.status
    completedAt := some now }

def WorkflowExecution.cancel (ex : WorkflowExecution) (now : Time) : WorkflowExecution :=
  if ex.status.canTransitionTo .cancelled then
    { ex with status := .cancelled, completedAt := some now }
  else ex

def TaskExecution.cancel (te : TaskExecution) (now : Time) : TaskExecution :=
  if te.status = .pending ∨ te.status = .running then
    { te with status := .cancelled, completedAt := some now }
  else te

/-- `cancel_execution`, on the rows that its session has loaded. -/
def Database.cancelExecution (rows : Database) (now : Time) : Database where
  execution := rows.execution.cancel now
  tasks := rows.tasks.map (·.cancel now)

/-- The status is reset even where the state machine has no transition to pending. -/
def WorkflowExecution.retry (ex : WorkflowExecution) : Option WorkflowExecution :=
  if ex.status = .completed ∨ ex.status = .cancelled ∨ ex.status = .running then none
  else some { ex with status := .pending, error := none, completedAt := none, outputData := .none }

def TaskExecution.retry (te : TaskExecution) : TaskExecution :=
  if te.status = .failed then
    { te with
      status := .pending
      error := none
      outputData := .none
      attempt := 1
      startedAt := none
      completedAt := none
      durationMs := none }
  else te

/-- `retry_execution`, on the rows that its session has loaded; nothing where it is refused. -/
def Database.retryExecution (rows : Database) : Option Database :=
  rows.execution.retry.map (fun ex => ⟨ex, rows.tasks.map (·.retry)⟩)

end BackendProjects.Workflow
