import BackendProjects.Workflow.Rows

/-! Task handlers as the executor sees them, and what one attempt does to its row. -/
namespace BackendProjects.Workflow

inductive TaskClass where
  | http
  | python
  | delay
  | condition
  | transform
  deriving DecidableEq

def taskRegistry : List (String × TaskClass) :=
  [("http", .http), ("python", .python), ("delay", .delay), ("condition", .condition),
    ("transform", .transform)]

def getTaskClass (taskType : String) : Except PyError TaskClass :=
  match taskRegistry.lookup taskType with
  | some taskClass => .ok taskClass
  | none => .error (.valueError ("Unknown task type: " ++ taskType))

structure TaskResult where
  success : Bool
  output : PyValue
  error : Option String := none
  durationMs : Int := 0

/-- How the await of `wait_for` on a handler ends, also where its timeout is not positive or, from
2 ^ 1024 - 2 ^ 970 on, more than a float holds. -/
inductive Outcome where
  | result (r : TaskResult)
  | timeout
  | raises (e : PyError)

def Outcome.ok : Outcome → Bool
  | .result r => r.success
  | _ => false

structure Settings where
  maxConcurrentTasks : Nat := 10
  taskDefaultTimeout : Int := 300
  maxRetryAttempts : Int := 3
  /-- A semaphore without permits admits nothing. -/
  permits : 0 < maxConcurrentTasks := by decide

/-- The module's `settings`, of an environment that sets none of them. -/
def settings : Settings := {}

/-- `_normalize_output`; `strOf` is Python's `str`. -/
def normalizeOutput (strOf : PyValue → String) : PyValue → PyValue
  | .tuple xs => .str (strOf (.tuple xs))
  | .set xs => .str (strOf (.set xs))
  | output => output

namespace TaskExecution

def new (settings : Settings) (node : DAGNode) : TaskExecution where
  taskDefinitionId := node.taskId
  taskName := node.taskName
  taskType := node.taskType
  status := .pending
  maxAttempts := (max 1 (match node.retryConfig with
    | some config => config.maxAttempts
    | none => settings.maxRetryAttempts)).toNat

def begin (te : TaskExecution) (now : Time) : TaskExecution :=
  { te with status := .running, startedAt := some now, error := none }

def timeOut (te : TaskExecution) (now : Time) (timeout : Int) : TaskExecution :=
  { te with
    status := .failed
    error := some "Task timed out"
    completedAt := some now
    durationMs := some (timeout * 1000) }

private def errorText : Option String → String
  | none | some "" => "Unknown error"
  | some text => text

/-- What the answer leaves in the row. The code divides by way of a float, which rounds; here the division
is exact. -/
def record (te : TaskExecution) (strOf : PyValue → String) (now : Time) (r : TaskResult) :
    TaskExecution :=
  let te := { te with
    completedAt := some now
    durationMs := some (match te.startedAt with
      | some started => ((now : Int) - started).tdiv 1000
      | none => r.durationMs) }
  if r.success then
    { te with status := .completed, outputData := normalizeOutput strOf r.output, error := none }
  else
    { te with
      status := .failed
      error := some (errorText r.error)
      outputData := if r.output ≠ .none then normalizeOutput strOf r.output else .none }

def answered (te : TaskExecution) (strOf : PyValue → String) (now : Time) (timeout : Int) :
    Outcome → TaskExecution
  | .result r => te.record strOf now r
  | .timeout => te.timeOut now timeout
  | .raises _ => te

def again (te : TaskExecution) : TaskExecution :=
  { te with attempt := te.attempt + 1, status := .pending }

def skip (te : TaskExecution) (now : Time) : TaskExecution :=
  { te with status := .skipped, completedAt := some now }

end TaskExecution

/-- `node.timeout_seconds or settings.TASK_DEFAULT_TIMEOUT` -/
def taskTimeout (settings : Settings) (node : DAGNode) : Int :=
  if node.timeoutSeconds ≠ 0 then node.timeoutSeconds else settings.taskDefaultTimeout

def predOutputs (dag : DAG) (t : TaskId) (taskOutputs : PyDict) : PyDict :=
  (dag.predecessors t).filterMap (fun p => (taskOutputs.get? (.str p)).map (fun v => (.str p, v)))

def mergedInput (inputData : Option PyDict) (preds : PyDict) : PyDict :=
  ((PyDict.update [] (inputData.getD [])).update preds).set (.str "tasks") (.dict preds)

/-- The targets that `_apply_condition_branch_skips` goes on to mark. -/
def branchSkips (strOf : PyValue → String) (dag : DAG) (node : DAGNode) (output : PyValue) :
    Except PyError (List TaskId) :=
  match output.orElse (.dict []) with
  | .dict out =>
      let onTrue := strOf (((node.config.get? (.str "on_true")).getD .none).orElse (.str ""))
      let onFalse := strOf (((node.config.get? (.str "on_false")).getD .none).orElse (.str ""))
      let toSkip :=
        if onTrue ≠ "" ∧ onFalse ≠ "" then
          if PyDict.get? out (.str "result") = some (.bool true) then [onFalse] else [onTrue]
        else []
      .ok (toSkip.filter (fun sid => sid ≠ "" ∧ sid ∈ dag.allTaskIds))
  | _ => .error (.attributeError "object has no attribute 'get'")

@[simp] theorem mergedInput_tasks (inputData : Option PyDict) (preds : PyDict) :
    (mergedInput inputData preds).get? (.str "tasks") = some (.dict preds) :=
  PyDict.get?_set _ _ _

end BackendProjects.Workflow
