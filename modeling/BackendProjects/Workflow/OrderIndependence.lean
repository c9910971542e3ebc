import BackendProjects.Workflow.Termination

/-! Every interleaving of a fresh execution comes to what the sequential evaluation says, as long
as no task raises an exception: `gather` passes an exception on in the middle of a wave. -/
namespace BackendProjects.Workflow
open Library
variable {E : Engine} {handler : Handler} {input : Option PyDict} {sum : Summary} {gen : List TaskId}
  {rest : List (List TaskId)} {s : RunState} {node : DAGNode} {t : TaskId}

/-- A generation with an exception is the last one of the evaluation. -/
private theorem Reached.raised (h : Reached E handler input sum (gen :: rest))
    (hraise : ∃ t ∈ gen, (sum.verdict E handler input t).isRaise = true) :
    (evaluate E handler input).raised = true ∧ (evaluate E handler input).failed = true := by
  have hfailing : ∃ t ∈ gen, (sum.verdict E handler input t).succeeds = false := by
    obtain ⟨t, ht, hv⟩ := hraise
    exact ⟨t, ht, Verdict.succeeds_of_isRaise hv⟩
  rw [h.stop hfailing]
  exact ⟨(evalGeneration_raised h.unraised).mpr hraise, (evalGeneration_failed h.unfailed).mpr hfailing⟩

/-- A run that has ended has returned what the evaluation says, or has met an exception in a wave. -/
private theorem Replays.ended (inv : Replays E handler input s) (hend : s.Ended) :
    (s.main = .returned ∧ Matches (evaluate E handler input) s ∧
      (evaluate E handler input).raised = false) ∨
    ∃ sum gen rest s₀, Leads E handler input s₀ ∧ Handed E handler input sum gen rest s₀ ∧
      ∃ t ∈ gen, (sum.verdict E handler input t).isRaise = true := by
  have hends := hend.ends
  cases inv.stage with
  | before hmain => rcases hmain with h | h | h <;> rw [h] at hends <;> cases hends
  | between hmain => rcases hmain with h | h | h <;> rw [h] at hends <;> cases hends
  | ended hmain hshown hraised =>
    rcases hmain with h | h
    · rw [h] at hends
      cases hends
    · exact Or.inl ⟨h, hshown, hraised⟩
  | during hmain d handed =>
    rcases MainPc.gathers_iff.mp hmain with h | ⟨e, h⟩
    · rw [h] at hends
      cases hends
    · obtain ⟨s₀, run, hh⟩ := handed
      exact Or.inr ⟨_, _, _, s₀, run, hh, d.raised e h⟩

/-- Where no setting of a task raises an exception, a run that has ended has returned. -/
theorem Replays.returned (inv : Replays E handler input s) (hend : s.Ended)
    (hdefined : ∀ node ∈ E.dag.nodes, RaisesNothing E node) :
    s.main = .returned ∧ Matches (evaluate E handler input) s := by
  rcases inv.ended hend with ⟨hmain, hshown, _⟩ | ⟨_, _, _, _, _, handed, hv⟩
  · exact ⟨hmain, hshown⟩
  · have hraised := (handed.during.reached.raised hv).1
    rw [evaluate_raised E handler input hdefined] at hraised
    cases hraised

section Runs
variable (hlock : E.reading.lock = true) (hall : E.reading.allSkipped = true)
  (htypes : ∀ node ∈ E.dag.nodes, node.taskType ≠ "condition")
include hlock hall htypes

end Runs

def overflowDefinition : DagDefinition where
  tasks := [⟨"a", "delay", "A", [], none, none⟩,
    ⟨"b", "delay", "B", [], some { delaySeconds := 2 ^ 1024 }, none⟩]

def overflowEngine : Engine where
  settings := settings
  reading := .repaired
  strOf := fun _ => ""
  dag := .ofAccepted overflowDefinition (by decide)

private def success : Outcome := .result ⟨true, .none, none, 0⟩

end BackendProjects.Workflow
