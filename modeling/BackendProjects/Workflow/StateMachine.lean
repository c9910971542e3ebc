import BackendProjects.Workflow.Values
import Mathlib.Logic.Relation

/-! The states of an execution and the transitions between them. -/
namespace BackendProjects.Workflow

inductive ExecutionState where
  | pending
  | running
  | completed
  | failed
  | cancelled
  | timedOut
  deriving DecidableEq

namespace ExecutionState

def validTransitions : ExecutionState → List ExecutionState
  | pending => [running, cancelled]
  | running => [completed, failed, cancelled, timedOut]
  | completed => []
  | failed => [pending]
  | cancelled => []
  | timedOut => [pending]

def repr : ExecutionState → String
  | pending => "ExecutionState.PENDING"
  | running => "ExecutionState.RUNNING"
  | completed => "ExecutionState.COMPLETED"
  | failed => "ExecutionState.FAILED"
  | cancelled => "ExecutionState.CANCELLED"
  | timedOut => "ExecutionState.TIMED_OUT"

def canTransitionTo (state target : ExecutionState) : Prop := target ∈ state.validTransitions

instance (state target : ExecutionState) : Decidable (state.canTransitionTo target) :=
  inferInstanceAs (Decidable (target ∈ state.validTransitions))

def transitionTo (state target : ExecutionState) : Except PyError ExecutionState :=
  if state.canTransitionTo target then .ok target
  else .error (.valueError ("Invalid transition: " ++ state.repr ++ " -> " ++ target.repr))

def Moves (state target : ExecutionState) : Prop := Relation.ReflGen canTransitionTo state target

theorem Moves.refl (state : ExecutionState) : state.Moves state := Relation.ReflGen.refl

private theorem moves_iff {state target : ExecutionState} :
    state.Moves target ↔ target = state ∨ state.canTransitionTo target := Relation.reflGen_iff _ _ _

instance (state target : ExecutionState) : Decidable (state.Moves target) :=
  decidable_of_iff _ moves_iff.symm

/-- A final state is left by no move. -/
theorem Moves.final {state target : ExecutionState} (h : state.Moves target)
    (hf : state.validTransitions = []) : target = state := by
  rcases moves_iff.mp h with h | h
  · exact h
  · simp [canTransitionTo, hf] at h

theorem not_canTransitionTo_self (state : ExecutionState) : ¬ state.canTransitionTo state := by
  cases state <;> decide

theorem transitionTo_ok {state target next : ExecutionState}
    (h : state.transitionTo target = .ok next) : state.canTransitionTo target ∧ next = target := by
  unfold transitionTo at h
  split at h
  · next hc =>
    cases h
    exact ⟨hc, rfl⟩
  · cases h

end ExecutionState
end BackendProjects.Workflow
