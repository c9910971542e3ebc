import BackendProjects.Library.Runs
import BackendProjects.Workflow.Tasks

/-! One call of `execute_workflow` with the coroutines of its waves, as steps between await
points. A database operation takes effect when it is called and is followed by a suspension. -/
namespace BackendProjects.Workflow
open Library

/-- How the names are read that the source leaves unresolved. -/
structure Reading where
  /-- `lock` in the scheduling loop is the local `glock`. -/
  lock : Bool
  /-- `DAG.tasks_with_all_predecessors_skipped` exists. -/
  allSkipped : Bool
  /-- `_apply_condition_branch_skips` takes the lock that `run_node` passes to it. -/
  branchLock : Bool

/-- The source as it is written. -/
def Reading.written : Reading := ⟨false, false, false⟩

/-- The source with all three names resolved. -/
def Reading.repaired : Reading := ⟨true, true, true⟩

/-- What a run is about; `strOf` is Python's `str`. -/
structure Engine where
  settings : Settings
  reading : Reading
  strOf : PyValue → String
  dag : DAG

inductive HandlerEvent where
  | started (t : TaskId) (attempt : Nat) (input : PyDict)
  | returned (t : TaskId) (attempt : Nat) (outcome : Outcome)
  | slept (t : TaskId) (delay : Rat)

/-- The await at which a `run_node` coroutine is suspended. `te` is the place of its row. -/
inductive NodePc where
  | waiting
  | checking
  | entering
  | creating
  | prepared (te : Nat)
  | looping (te : Nat) (input : PyDict)
  | running (te : Nat) (input : PyDict)
  | handling (te : Nat) (input : PyDict)
  | attemptFailed (te : Nat) (input : PyDict)
  | sleeping (te : Nat) (input : PyDict)
  | finishing (te : Nat) (ok : Bool)
  | branching (toSkip : List TaskId)
  | branchCreating (sid : TaskId) (toSkip : List TaskId)
  | done
  | raised (e : PyError)

/-- Where the body of `execute_workflow` is suspended. -/
inductive MainPc where
  | lookup
  | loaded
  | starting
  | loop
  | checking
  | skipping (sids : List TaskId)
  | skipCreating (sid : TaskId) (sids : List TaskId)
  | sleeping
  | gathering
  | final
  | returned
  | raised (e : PyError)
  deriving DecidableEq

structure RunState where
  /-- The committed rows. -/
  db : Database
  /-- The rows as the session holds them. -/
  mem : Database
  main : MainPc
  completed : Finset TaskId
  skipped : Finset TaskId
  failed : Bool
  taskOutputs : PyDict
  /-- Free permits of the semaphore. -/
  sem : Nat
  /-- The tasks handed to the last `gather`. -/
  wave : List TaskId
  pc : TaskId → NodePc
  trace : List HandlerEvent

namespace RunState

def start (E : Engine) (db : Database) : RunState where
  db := db
  mem := db
  main := .lookup
  completed := ∅
  skipped := ∅
  failed := false
  taskOutputs := []
  sem := E.settings.maxConcurrentTasks
  wave := []
  pc := fun _ => .done
  trace := []

variable (s : RunState)

@[simps] def goto (t : TaskId) (q : NodePc) : RunState := { s with pc := Function.update s.pc t q }

/-- Leave the semaphore and end. -/
@[simps] def leave (t : TaskId) : RunState :=
  { s with sem := s.sem + 1, pc := Function.update s.pc t .done }

/-- An exception leaves the semaphore too. -/
@[simps] def throw (t : TaskId) (e : PyError) : RunState :=
  { s with sem := s.sem + 1, pc := Function.update s.pc t (.raised e) }

@[simps] def refreshed : RunState := { s with mem := s.mem.refresh s.db }

/-- Flush a new row; it is committed with whatever is committed next. -/
@[simps] def flush (row : TaskExecution) : RunState :=
  { s with mem := { s.mem with tasks := s.mem.tasks ++ [row] } }

/-- Set attributes of one row and commit. -/
@[simps] def saveTask (te : Nat) (f : TaskExecution → TaskExecution) : RunState :=
  let new : Database := { s.mem with tasks := s.mem.tasks.modify te f }
  { s with mem := new, db := s.mem.commit new s.db }

@[simps] def saveExecution (ex : WorkflowExecution) : RunState :=
  let new : Database := { s.mem with execution := ex }
  { s with mem := new, db := s.mem.commit new s.db }

@[simps] def emit (event : HandlerEvent) : RunState := { s with trace := s.trace ++ [event] }

/-- `completed.add`, and the output unless it is None. -/
@[simps] def publish (t : TaskId) (output : PyValue) : RunState :=
  { s with
    completed := insert t s.completed
    taskOutputs := if output ≠ .none then s.taskOutputs.set (.str t) output else s.taskOutputs }

def Ended : Prop := s.main = .returned ∨ ∃ e, s.main = .raised e

end RunState

def findTask (tasks : List TaskExecution) (t : TaskId) : Option Nat :=
  tasks.findIdx? (fun te => te.taskDefinitionId = t)

def loadRow (s : RunState) (te : TaskExecution) : RunState :=
  if te.status = .completed then s.publish te.taskDefinitionId te.outputData
  else if te.status = .skipped then { s with skipped := insert te.taskDefinitionId s.skipped }
  else s

variable (E : Engine)

inductive Choice where
  | main (now : Time)
  | propagate (t : TaskId)
  | node (t : TaskId) (now : Time) (sample : Rat) (outcome : Outcome)

def lockUnbound : PyError := .nameError "name 'lock' is not defined"

def methodMissing : PyError :=
  .attributeError "'DAG' object has no attribute 'tasks_with_all_predecessors_skipped'"

def branchArity : PyError :=
  .typeError ("WorkflowExecutor._apply_condition_branch_skips() takes 6 positional arguments " ++
    "but 7 were given")

/-- The body of `execute_workflow` up to its next await. -/
def mainStep (now : Time) (s : RunState) : Option RunState :=
  match s.main with
  | .lookup => some { s with mem := s.db, main := .loaded }
  | .loaded =>
      if s.mem.execution.status.canTransitionTo .running then
        some { s.saveExecution (s.mem.execution.start now) with main := .starting }
      else some { s with main := .starting }
  | .starting => some { s.mem.tasks.foldl loadRow s with main := .loop }
  | .loop =>
      if s.completed.card + s.skipped.card < E.dag.nodes.length then
        some { s.refreshed with main := .checking }
      else some { s.refreshed with main := .final }
  | .checking =>
      if s.mem.execution.status = .cancelled then some { s with main := .returned }
      else if s.failed then
        some { s.saveExecution (s.mem.execution.fail now) with main := .returned }
      else if E.reading.lock = false then some { s with main := .raised lockUnbound }
      else if E.reading.allSkipped = false then some { s with main := .raised methodMissing }
      else some { s with
        main := .skipping (E.dag.tasksWithAllPredecessorsSkipped s.completed s.skipped) }
  | .skipping (sid :: sids) =>
      match findTask s.mem.tasks sid with
      | some te =>
          some { s.saveTask te (·.skip now) with
            skipped := insert sid s.skipped
            main := .skipping sids }
      | none => some { s with skipped := insert sid s.skipped, main := .skipCreating sid sids }
  | .skipCreating sid sids =>
      match E.dag.getTask sid with
      | .ok node =>
          some { (s.flush (.new E.settings node)).saveTask s.mem.tasks.length (·.skip now) with
            main := .skipping sids }
      | .error e => some { s with main := .raised e }
  | .skipping [] =>
      let ready := E.dag.readyIds s.completed s.skipped
      if ready = [] then
        if E.dag.nodes.length ≤ s.completed.card + s.skipped.card then
          some { s.refreshed with main := .final }
        else some { s with main := .sleeping }
      else some { s with
        main := .gathering
        wave := ready
        pc := fun t => if t ∈ ready then .waiting else .done }
  | .sleeping => some { s with main := .loop }
  | .gathering =>
      if ∀ t ∈ s.wave, s.pc t matches .done then
        if s.failed then some { s.refreshed with main := .final }
        else some { s with main := .loop }
      else none
  | .final =>
      if s.mem.execution.status = .cancelled then some { s with main := .returned }
      else if s.failed then some { s with main := .returned }
      else match s.mem.execution.complete now s.taskOutputs with
        | .ok ex => some { s.saveExecution ex with main := .returned }
        | .error e => some { s with main := .raised e }
  | .returned => none
  | .raised _ => none

/-- The coroutine of one node up to its next await. The outcome is that of the awaited `wait_for`; the store
refuses no row here, be it for a text that JSONB does not take or for the limit of a column. -/
def nodeStep (node : DAGNode) (now : Time) (sample : Rat) (outcome : Outcome) (s : RunState) :
    Option RunState :=
  let t := node.taskId
  match s.pc t with
  | .waiting =>
      if 0 < s.sem then some (({ s with sem := s.sem - 1 }).refreshed.goto t .checking) else none
  | .checking =>
      if s.mem.execution.status = .cancelled then some (s.leave t) else some (s.goto t .entering)
  | .entering =>
      if t ∈ s.completed ∨ t ∈ s.skipped then some (s.leave t)
      else match findTask s.mem.tasks t with
        | some te => some (s.goto t (.prepared te))
        | none => some (s.goto t .creating)
  | .creating =>
      some ((s.flush (.new E.settings node)).goto t (.prepared s.mem.tasks.length))
  | .prepared te =>
      let input := mergedInput s.mem.execution.inputData (predOutputs E.dag t s.taskOutputs)
      match getRetryStrategy node.retryConfig with
      | .ok _ => some (s.goto t (.looping te input))
      | .error e => some (s.throw t e)
  | .looping te input => do
      let row ← s.mem.tasks[te]?
      if row.attempt ≤ row.maxAttempts then
        if s.mem.execution.status = .cancelled then some (s.goto t (.finishing te false))
        else match getTaskClass node.taskType with
          | .ok _ => some ((s.saveTask te (·.begin now)).goto t (.running te input))
          | .error e => some (s.throw t e)
      else some (s.goto t (.finishing te false))
  | .running te input => do
      let row ← s.mem.tasks[te]?
      some ((s.emit (.started t row.attempt input)).goto t (.handling te input))
  | .handling te input => do
      let row ← s.mem.tasks[te]?
      match outcome with
      | .raises e => some (s.throw t e)
      | _ =>
          let s := (s.emit (.returned t row.attempt outcome)).saveTask te
            (·.answered E.strOf now (taskTimeout E.settings node) outcome)
          some (s.goto t (if outcome.ok then .finishing te true else .attemptFailed te input))
  | .attemptFailed te input => do
      let row ← s.mem.tasks[te]?
      if row.maxAttempts ≤ row.attempt then some (s.goto t (.finishing te false))
      else match (getRetryStrategy node.retryConfig).bind (·.getDelay row.attempt sample) with
        | .ok delay => some ((s.emit (.slept t delay)).goto t (.sleeping te input))
        | .error e => some (s.throw t e)
  | .sleeping te input => some ((s.saveTask te (·.again)).goto t (.looping te input))
  | .finishing _ false => some (({ s with failed := true }).leave t)
  | .finishing te true => do
      let row ← s.mem.tasks[te]?
      let s := s.publish t row.outputData
      if node.taskType = "condition" then
        if E.reading.branchLock = false then some (s.throw t branchArity)
        else match branchSkips E.strOf E.dag node row.outputData with
          | .ok toSkip => some (s.goto t (.branching toSkip))
          | .error e => some (s.throw t e)
      else some (s.leave t)
  | .branching [] => some (s.leave t)
  | .branching (sid :: toSkip) =>
      let s := { s with skipped := insert sid s.skipped }
      match findTask s.mem.tasks sid with
      | some te => some ((s.saveTask te (·.skip now)).goto t (.branching toSkip))
      | none => some (s.goto t (.branchCreating sid toSkip))
  | .branchCreating sid toSkip =>
      match E.dag.getTask sid with
      | .ok target =>
          some (((s.flush (.new E.settings target)).saveTask s.mem.tasks.length (·.skip now)).goto t
            (.branching toSkip))
      | .error e => some (s.throw t e)
  | .done => none
  | .raised _ => none

/-- One step: the body, a coroutine, or a coroutine's exception that `gather` passes on. -/
def step : Choice → RunState → Option RunState
  | .main now, s => mainStep E now s
  | .propagate t, s =>
      match s.main, s.pc t with
      | .gathering, .raised e => if t ∈ s.wave then some { s with main := .raised e } else none
      | _, _ => none
  | .node t now sample outcome, s =>
      match E.dag.getTask t with
      | .ok node => nodeStep E node now sample outcome s
      | .error _ => none

abbrev Answers := DAGNode → Nat → PyDict → Outcome → Prop

def anyAnswer : Answers := fun _ _ _ _ => True

def Legal (answers : Answers) (s : RunState) : Choice → Prop
  | .node t _ _ outcome => ∀ te input node row, s.pc t = .handling te input →
      E.dag.getTask t = .ok node → s.mem.tasks[te]? = some row →
      answers node row.attempt input outcome
  | _ => True

def Step (answers : Answers) (s s' : RunState) : Prop :=
  ∃ c, Legal E answers s c ∧ step E c s = some s'

def Choice.Possible (answers : Answers) : Choice → Prop
  | .node _ _ _ outcome => ∀ node attempt input, answers node attempt input outcome
  | _ => True

theorem step_of_possible {answers : Answers} {c : Choice} (h : c.Possible answers) (s s' : RunState)
    (hstep : step E c s = some s') : Step E answers s s' := by
  refine ⟨c, ?_, hstep⟩
  cases c with
  | node t now sample outcome => exact fun te input node row _ _ _ => h node row.attempt input
  | main now => trivial
  | propagate t => trivial

/-- Stretches of a schedule: the body alone, and one coroutine whose handler answers in one way. -/
def body (n : Nat) : List Choice := List.replicate n (.main 0)

def coroutine (t : TaskId) (n : Nat) (outcome : Outcome) : List Choice :=
  List.replicate n (.node t 0 0 outcome)

theorem possible_body (answers : Answers) (n : Nat) : ∀ c ∈ body n, c.Possible answers := by
  intro c hc
  rw [List.eq_of_mem_replicate hc]
  trivial

theorem possible_coroutine {answers : Answers} (t : TaskId) (n : Nat) {outcome : Outcome}
    (h : ∀ node attempt input, answers node attempt input outcome) :
    ∀ c ∈ coroutine t n outcome, c.Possible answers := by
  intro c hc
  rw [List.eq_of_mem_replicate hc]
  exact h

theorem possible_append {answers : Answers} {cs ds : List Choice}
    (hc : ∀ c ∈ cs, c.Possible answers) (hd : ∀ c ∈ ds, c.Possible answers) :
    ∀ c ∈ cs ++ ds, c.Possible answers :=
  fun c h => (List.mem_append.mp h).elim (hc c) (hd c)

def chainDefinition : DagDefinition where
  tasks := [⟨"a", "delay", "A", [], none, none⟩, ⟨"b", "delay", "B", [], none, none⟩]
  edges := [⟨"a", "b"⟩]

def chainEngine (reading : Reading) : Engine where
  settings := settings
  reading := reading
  strOf := fun _ => ""
  dag := .ofAccepted chainDefinition (by decide)

/-- What a replayed schedule of possible choices shows of its last state. -/
theorem exists_run (answers : Answers) (cs : List Choice) (s : RunState) (P : RunState → Bool)
    (possible : ∀ c ∈ cs, c.Possible answers) (h : (execute (step E) cs s).any P = true) :
    ∃ t, Run (Step E answers) s t ∧ P t = true :=
  exists_run_of_execute (fun c hc => step_of_possible E (possible c hc)) h

/-- A replay that checks a condition before every step. -/
theorem exists_run_checked (answers : Answers) (C : RunState → RunState → Prop) (cs : List Choice)
    (s : RunState) (P : RunState → Bool) (check : Choice → RunState → Bool)
    (sound : ∀ c s t, check c s = true → step E c s = some t → C s t)
    (possible : ∀ c ∈ cs, c.Possible answers)
    (h : (execute (fun c s => if check c s then step E c s else none) cs s).any P = true) :
    ∃ t, Run (Where C (Step E answers)) s t ∧ P t = true :=
  exists_run_where (fun c hc => step_of_possible E (possible c hc)) check sound h

end BackendProjects.Workflow
