import BackendProjects.Workflow.Checkpoints

/-! What a workflow with branches means, said of the DAG alone: a task completes when its predecessors do
and none of them is a condition that takes another branch, and it is skipped when a condition has marked it
or when all of its predecessors are skipped. -/
namespace BackendProjects.Workflow
open Library

/-- What is to become of a task in every run. -/
inductive Fate where
  | completed (output : PyValue)
  | skipped

section Means
variable (E : Engine) (handler : Handler) (input : Option PyDict)

/-- The outputs are those of the task's predecessors, and no condition among these has marked the task. -/
structure Fed (t : TaskId) (output : TaskId → PyValue) (outputs : PyDict) : Prop where
  published : ∀ p ∈ E.dag.predecessors t, outputs.get? (.str p) = published (output p)
  unmarked : ∀ c ∈ E.dag.nodes, c.taskType = "condition" → c.taskId ∈ E.dag.predecessors t →
    ∀ toSkip, branchSkips E.strOf E.dag c (output c.taskId) = .ok toSkip → t ∉ toSkip

inductive Means : TaskId → Fate → Prop
  | completes {t : TaskId} {output : TaskId → PyValue} {outputs : PyDict} {calls : Nat} {o : PyValue}
      (hpreds : ∀ p ∈ E.dag.predecessors t, Means p (.completed (output p)))
      (hfed : Fed E t output outputs) (hv : verdict E handler input outputs t = .succeeded calls o) :
      Means t (.completed o)
  | marked {t : TaskId} {c : DAGNode} {o : PyValue} {toSkip : List TaskId} (hc : c ∈ E.dag.nodes)
      (htype : c.taskType = "condition") (h : Means c.taskId (.completed o))
      (hskips : branchSkips E.strOf E.dag c o = .ok toSkip) (ht : t ∈ toSkip) : Means t .skipped
  | behind {t : TaskId} (hne : E.dag.predecessors t ≠ [])
      (h : ∀ p ∈ E.dag.predecessors t, Means p .skipped) : Means t .skipped

/-- A task whose attempts come to nothing, although it is due. -/
def Fails (t : TaskId) : Prop := t ∈ E.dag.allTaskIds ∧ ∃ output outputs,
  (∀ p ∈ E.dag.predecessors t, Means E handler input p (.completed (output p))) ∧
    Fed E t output outputs ∧ (verdict E handler input outputs t).succeeds = false

/-- The conditions that mark a task as skipped are among its predecessors. -/
def MarkedByPredecessors (E : Engine) (t : TaskId) : Prop :=
  ∀ c ∈ E.dag.nodes, c.taskType = "condition" → ∀ output toSkip,
    branchSkips E.strOf E.dag c output = .ok toSkip → t ∈ toSkip → c.taskId ∈ E.dag.predecessors t

end Means

variable {E : Engine} {handler : Handler} {input : Option PyDict} {t : TaskId} {outputs outputs' : PyDict}
  {output output' : TaskId → PyValue} {fate fate' : Fate}

theorem verdict_congr (h : ∀ p ∈ E.dag.predecessors t, outputs.get? (.str p) = outputs'.get? (.str p)) :
    verdict E handler input outputs t = verdict E handler input outputs' t := by
  rw [verdict, verdict, taskInput_congr h]

/-- Two ways to feed a task with the same outputs have the same verdict. -/
private theorem Fed.verdict_eq (hfed : Fed E t output outputs) (hfed' : Fed E t output' outputs')
    (h : ∀ p ∈ E.dag.predecessors t, output p = output' p) :
    verdict E handler input outputs t = verdict E handler input outputs' t :=
  verdict_congr fun p hp => by rw [hfed.published p hp, hfed'.published p hp, h p hp]

/-- A task that is fed is not skipped. -/
private theorem Fed.not_skipped (hmarked : ∀ t, MarkedByPredecessors E t) (hfed : Fed E t output outputs)
    (h : ∀ p ∈ E.dag.predecessors t, ∀ fate, Means E handler input p fate → fate = .completed (output p)) :
    ¬ Means E handler input t .skipped := by
  intro hskipped
  cases hskipped with
  | @marked _ c o toSkip hc htype hcompleted hskips ht =>
    have hpred := hmarked t c hc htype o toSkip hskips ht
    have hsame := h _ hpred _ hcompleted
    rw [Fate.completed.injEq] at hsame
    exact hfed.unmarked c hc htype hpred toSkip (hsame ▸ hskips) ht
  | behind hne hall =>
    obtain ⟨p, hp⟩ := List.exists_mem_of_ne_nil _ hne
    cases h p hp _ (hall p hp)

/-- A workflow whose conditions mark only what depends on them gives every task one fate. -/
theorem Means.unique (hmarked : ∀ t, MarkedByPredecessors E t) (h : Means E handler input t fate)
    (h' : Means E handler input t fate') : fate' = fate := by
  induction h generalizing fate' with
  | @completes t output outputs calls o hpreds hfed hv ih =>
    cases fate' with
    | skipped => exact absurd h' (hfed.not_skipped hmarked fun p hp _ hp' => ih p hp hp')
    | completed o' =>
      cases h' with
      | @completes _ output' outputs' calls' _ hpreds' hfed' hv' =>
        have hsame : ∀ p ∈ E.dag.predecessors t, output p = output' p := by
          intro p hp
          have h := ih p hp (hpreds' p hp)
          rw [Fate.completed.injEq] at h
          exact h.symm
        rw [hfed.verdict_eq hfed' hsame, hv'] at hv
        cases hv
        rfl
  | @marked t c o toSkip hc htype _ hskips ht ih =>
    cases fate' with
    | skipped => rfl
    | completed o' =>
      cases h' with
      | @completes _ output' outputs' _ _ hpreds' hfed' _ =>
        have hpred := hmarked t c hc htype o toSkip hskips ht
        have hsame := ih (hpreds' _ hpred)
        rw [Fate.completed.injEq] at hsame
        exact absurd ht (hfed'.unmarked c hc htype hpred toSkip (hsame ▸ hskips))
  | @behind t hne _ ih =>
    cases fate' with
    | skipped => rfl
    | completed o' =>
      cases h' with
      | @completes _ output' outputs' _ _ hpreds' _ _ =>
        obtain ⟨p, hp⟩ := List.exists_mem_of_ne_nil _ hne
        cases ih p hp (hpreds' p hp)

/-- A task that fails has no fate. -/
theorem Fails.not_means (hmarked : ∀ t, MarkedByPredecessors E t) (h : Fails E handler input t) :
    ¬ Means E handler input t fate := by
  obtain ⟨_, output, outputs, hpreds, hfed, hv⟩ := h
  have hunique : ∀ p ∈ E.dag.predecessors t, ∀ fate, Means E handler input p fate →
      fate = .completed (output p) := fun p hp _ hp' => (hpreds p hp).unique hmarked hp'
  intro hmeans
  cases hmeans with
  | @completes _ output' outputs' calls o hpreds' hfed' hv' =>
    have hsame : ∀ p ∈ E.dag.predecessors t, output p = output' p := by
      intro p hp
      have h := hunique p hp _ (hpreds' p hp)
      rw [Fate.completed.injEq] at h
      exact h.symm
    rw [hfed.verdict_eq hfed' hsame, hv'] at hv
    cases hv
  | marked hc htype hcompleted hskips ht =>
    exact hfed.not_skipped hmarked hunique (.marked hc htype hcompleted hskips ht)
  | behind hne hall => exact hfed.not_skipped hmarked hunique (.behind hne hall)

end BackendProjects.Workflow
