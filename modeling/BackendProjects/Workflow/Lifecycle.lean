import BackendProjects.Library.Runs
import BackendProjects.Workflow.Rows
import BackendProjects.Workflow.StoredDefinition

/-! The row of one execution and the processes around it: the call that triggers it, the queue of
execute messages, any number of workers, cancels and retries, each with its own session, and the
updates of the workflow's definition. -/
namespace BackendProjects.Workflow
open Library

/-- Where the call of `trigger_workflow` stands; others see its row once it is committed. -/
inductive TriggerPhase where
  | absent
  | flushed
  | sent
  | committed
  | rolledBack
  deriving DecidableEq

/-- Where one worker run, cancel or retry stands, with its session's copy of the row. A run that
drives the tasks knows whether it has moved the committed status from pending to running. -/
inductive Proc where
  | idle
  | received
  | loaded (mem : WorkflowExecution)
  | driving (mem : WorkflowExecution) (own : Bool)
  | cancelLoaded (mem : WorkflowExecution)
  | retryLoaded (mem : WorkflowExecution)
  | retryCommitted
  | finished
  deriving DecidableEq

structure Lifecycle where
  /-- The committed row of the workflow. -/
  definition : Schemas.WorkflowDefinition
  /-- The committed row. -/
  row : Option WorkflowExecution
  trigger : TriggerPhase
  /-- The execute messages in flight. -/
  queue : Nat
  proc : Nat → Proc
  /-- The committed statuses, the latest first. -/
  commits : List ExecutionState

inductive Actor where
  | trigger
  | worker
  | cancel
  | retry
  | update
  deriving DecidableEq

namespace Lifecycle

def empty (definition : Schemas.WorkflowDefinition) : Lifecycle :=
  ⟨definition, none, .absent, 0, fun _ => .idle, []⟩

def stored (definition : Schemas.WorkflowDefinition) (ex : WorkflowExecution) (queue : Nat) : Lifecycle :=
  ⟨definition, some ex, .committed, queue, fun _ => .idle, [ex.status]⟩

variable (lax : Json → Option Int) (c : Lifecycle)

@[simps] def put (p : Nat) (q : Proc) : Lifecycle := { c with proc := Function.update c.proc p q }

/-- Commit a row. -/
@[simps] def commit (row : WorkflowExecution) : Lifecycle :=
  { c with row := some row, commits := row.status :: c.commits }

/-- What the calls do from one await to the next. A worker that cannot rebuild the DAG from the stored
definition raises before its start. -/
inductive Move : Actor → Lifecycle → Prop
  | flush (h : c.trigger = .absent) : Move .trigger { c with trigger := .flushed }
  | send (h : c.trigger = .flushed) : Move .trigger { c with trigger := .sent, queue := c.queue + 1 }
  | create (input : Option PyDict) (h : c.trigger = .sent) :
      Move .trigger { c.commit { inputData := input } with trigger := .committed }
  | rollback (h : c.trigger = .flushed ∨ c.trigger = .sent) :
      Move .trigger { c with trigger := .rolledBack }
  | receive (p : Nat) (hp : c.proc p = .idle) (hq : 0 < c.queue) :
      Move .worker ({ c with queue := c.queue - 1 }.put p .received)
  | lookupNone (p : Nat) (hp : c.proc p = .received) (hrow : c.row = none) :
      Move .worker (c.put p .finished)
  | lookup (p : Nat) {ex : WorkflowExecution} (hp : c.proc p = .received) (hrow : c.row = some ex)
      (hdag : (c.definition.rebuild lax).isSome) : Move .worker (c.put p (.loaded ex))
  | lookupRaises (p : Nat) (hp : c.proc p = .received) (hrow : c.row ≠ none)
      (hdag : c.definition.rebuild lax = none) : Move .worker (c.put p .finished)
  | start (p : Nat) (now : Time) {mem cur : WorkflowExecution} (hp : c.proc p = .loaded mem)
      (h : mem.status.canTransitionTo .running) (hrow : c.row = some cur) :
      Move .worker ((c.commit (mem.writeBack (mem.start now) cur)).put p
        (.driving (mem.start now) (cur.status = .pending)))
  | noStart (p : Nat) {mem : WorkflowExecution} (hp : c.proc p = .loaded mem)
      (h : ¬ mem.status.canTransitionTo .running) : Move .worker (c.put p (.driving mem false))
  | refresh (p : Nat) {mem cur : WorkflowExecution} {own : Bool} (hp : c.proc p = .driving mem own)
      (hrow : c.row = some cur) : Move .worker (c.put p (.driving cur own))
  | complete (p : Nat) (now : Time) (taskOutputs : PyDict) {mem ex cur : WorkflowExecution}
      {own : Bool} (hp : c.proc p = .driving mem own) (h : mem.complete now taskOutputs = .ok ex)
      (hrow : c.row = some cur) :
      Move .worker ((c.commit (mem.writeBack ex cur)).put p .finished)
  | fail (p : Nat) (now : Time) {mem cur : WorkflowExecution} {own : Bool}
      (hp : c.proc p = .driving mem own) (hrow : c.row = some cur) :
      Move .worker ((c.commit (mem.writeBack (mem.fail now) cur)).put p .finished)
  | leave (p : Nat) {mem : WorkflowExecution} {own : Bool} (hp : c.proc p = .driving mem own) :
      Move .worker (c.put p .finished)
  | cancelLoad (p : Nat) {ex : WorkflowExecution} (hp : c.proc p = .idle) (hrow : c.row = some ex) :
      Move .cancel (c.put p (.cancelLoaded ex))
  | cancelCommit (p : Nat) (now : Time) {mem cur : WorkflowExecution}
      (hp : c.proc p = .cancelLoaded mem) (hrow : c.row = some cur) :
      Move .cancel ((c.commit (mem.writeBack (mem.cancel now) cur)).put p .finished)
  | retryLoad (p : Nat) {ex : WorkflowExecution} (hp : c.proc p = .idle) (hrow : c.row = some ex) :
      Move .retry (c.put p (.retryLoaded ex))
  | retryRefuse (p : Nat) {mem : WorkflowExecution} (hp : c.proc p = .retryLoaded mem)
      (h : mem.retry = none) : Move .retry (c.put p .finished)
  | retryCommit (p : Nat) {mem new cur : WorkflowExecution} (hp : c.proc p = .retryLoaded mem)
      (h : mem.retry = some new) (hrow : c.row = some cur) :
      Move .retry ((c.commit (mem.writeBack new cur)).put p .retryCommitted)
  | retrySend (p : Nat) (hp : c.proc p = .retryCommitted) :
      Move .retry ({ c with queue := c.queue + 1 }.put p .finished)
  | updateWorkflow (data : Option Schemas.DagDefinition) {wf : Schemas.WorkflowDefinition}
      (h : Schemas.updateWorkflow c.definition data = some wf) : Move .update { c with definition := wf }

def Step (actors : List Actor) (c c' : Lifecycle) : Prop := ∃ a ∈ actors, c.Move lax a c'

end Lifecycle

/-! ### A definition of one task -/

def oneDelay : Schemas.WorkflowDefinition where
  dagDefinition := .obj
    [("tasks", .arr [.obj [("id", .str "a"), ("type", .str "delay"), ("name", .str "A")]]), ("edges", .arr [])]
  version := 1

theorem oneDelay_rebuilds (lax : Json → Option Int) : (oneDelay.rebuild lax).isSome := by rfl

def noLax : Json → Option Int := fun _ => none

/-! ### What the operations do to the status -/

namespace WorkflowExecution
variable {ex new : WorkflowExecution}

@[simp] theorem writeBack_status (old new cur : WorkflowExecution) :
    (old.writeBack new cur).status = Library.writeBack old.status new.status cur.status := rfl

theorem complete_ok {now : Time} {taskOutputs : PyDict} (h : ex.complete now taskOutputs = .ok new) :
    ex.status.canTransitionTo .completed ∧ new.status = .completed := by
  unfold complete at h
  cases hnext : ex.status.transitionTo .completed with
  | error e =>
    rw [hnext] at h
    cases h
  | ok next =>
    rw [hnext] at h
    cases h
    exact ⟨(ExecutionState.transitionTo_ok hnext).1, rfl⟩

theorem fail_status (ex : WorkflowExecution) (now : Time) :
    (ex.fail now).status = ex.status ∨
      ex.status.canTransitionTo .failed ∧ (ex.fail now).status = .failed := by
  by_cases h : ex.status.canTransitionTo .failed
  · exact Or.inr ⟨h, by simp [fail, h]⟩
  · exact Or.inl (by simp [fail, h])

theorem cancel_status (ex : WorkflowExecution) (now : Time) :
    (ex.cancel now).status = ex.status ∨
      ex.status.canTransitionTo .cancelled ∧ (ex.cancel now).status = .cancelled := by
  by_cases h : ex.status.canTransitionTo .cancelled
  · exact Or.inr ⟨h, by simp [cancel, h]⟩
  · exact Or.inl (by simp [cancel, h])

/-- A retry resets a failed execution, and one that is pending stays so. -/
theorem retry_status (h : ex.retry = some new) : new.status = .pending ∧
    (new.status = ex.status ∨ ex.status.canTransitionTo .pending) := by
  unfold retry at h
  split at h
  · cases h
  next hstatus =>
  cases h
  refine ⟨rfl, ?_⟩
  cases hs : ex.status <;> simp_all [ExecutionState.canTransitionTo, ExecutionState.validTransitions]

end WorkflowExecution
end BackendProjects.Workflow
