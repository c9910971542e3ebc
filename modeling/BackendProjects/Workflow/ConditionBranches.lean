import BackendProjects.Workflow.Coverage
import BackendProjects.Workflow.RetryLoop

/-! The branch that a condition chooses and the branch that the executor skips: the choice is
made twice, by the task and from what the task has stored. -/
namespace BackendProjects.Workflow
open Library

namespace ConditionTask

/-- `ConditionTask.execute`; `evaluate` is `eval` with the names that the source allows, and
`bool` after it. -/
def execute (evaluate : PyValue → PyDict → Except String Bool) (durationMs : Int) (config : PyDict)
    (inputData : Option PyDict) : TaskResult :=
  let condition := (config.get? (.str "condition")).getD (.str "True")
  let onTrue := (config.get? (.str "on_true")).getD (.str "")
  let onFalse := (config.get? (.str "on_false")).getD (.str "")
  let inp := inputData.getD []
  match evaluate condition inp with
  | .ok result =>
      let branch := if result then "true_branch" else "false_branch"
      let chosen := if result then onTrue else onFalse
      { success := true
        output := .dict [(.str "result", .bool result), (.str "branch", .str branch),
          (.str "next_task_id", chosen)]
        durationMs := durationMs }
  | .error e => { success := false, output := .none, error := some e, durationMs := durationMs }

end ConditionTask

structure Targets (config : PyDict) (onTrue onFalse : Option String) : Prop where
  onTrue : config.get? (.str "on_true") = onTrue.map .str
  onFalse : config.get? (.str "on_false") = onFalse.map .str

def branchTarget (onTrue onFalse : Option String) (result : Bool) : String :=
  (if result then onTrue else onFalse).getD ""

section Skips
variable {strOf : PyValue → String} (dag : DAG) {node : DAGNode} {onTrue onFalse : Option String}

private theorem target_str (hstr : ∀ text, strOf (.str text) = text) (target : Option String) :
    strOf (((target.map PyValue.str).getD .none).orElse (.str "")) = target.getD "" := by
  cases target with
  | none => exact hstr ""
  | some text =>
    by_cases h : text = ""
    · simp [PyValue.orElse, PyValue.truthy, h, hstr]
    · simp [PyValue.orElse, PyValue.truthy, h, hstr]

/-- What the executor makes of the output that a condition has stored. -/
theorem branchSkips_of_output (hstr : ∀ text, strOf (.str text) = text)
    (targets : Targets node.config onTrue onFalse) (result : Bool) (rest : PyDict) :
    branchSkips strOf dag node (.dict ((.str "result", .bool result) :: rest)) =
      .ok (if branchTarget onTrue onFalse true ≠ "" ∧ branchTarget onTrue onFalse false ≠ "" then
        [branchTarget onTrue onFalse !result].filter (· ∈ dag.allTaskIds) else []) := by
  have hout : (PyValue.dict ((.str "result", .bool result) :: rest)).orElse (.dict []) =
      .dict ((.str "result", .bool result) :: rest) := rfl
  have hresult : PyDict.get? ((PyValue.str "result", PyValue.bool result) :: rest) (.str "result") =
      some (.bool result) := rfl
  have htrue : branchTarget onTrue onFalse true = onTrue.getD "" := rfl
  have hfalse : branchTarget onTrue onFalse false = onFalse.getD "" := rfl
  simp only [branchSkips, hout, targets.onTrue, targets.onFalse, target_str hstr, hresult, htrue, hfalse]
  by_cases hboth : onTrue.getD "" ≠ "" ∧ onFalse.getD "" ≠ ""
  · rw [if_pos hboth, if_pos hboth]
    cases result with
    | true => simp [branchTarget, List.filter_cons, hboth.2]
    | false => simp [branchTarget, List.filter_cons, hboth.1]
  · rw [if_neg hboth, if_neg hboth]
    rfl

/-- What a condition that has come to a result leaves for the executor. -/
private theorem ConditionTask.execute_output (targets : Targets node.config onTrue onFalse)
    {evaluate : PyValue → PyDict → Except String Bool} {inputData : Option PyDict} {result : Bool}
    (hresult : evaluate ((node.config.get? (.str "condition")).getD (.str "True")) (inputData.getD []) =
      .ok result) (durationMs : Int) :
    (execute evaluate durationMs node.config inputData).output =
      .dict [(.str "result", .bool result),
        (.str "branch", .str (if result then "true_branch" else "false_branch")),
        (.str "next_task_id", .str (branchTarget onTrue onFalse result))] := by
  simp only [execute, hresult, targets.onTrue, targets.onFalse]
  cases result with
  | true => cases onTrue <;> rfl
  | false => cases onFalse <;> rfl

/-- The chosen task is not skipped, the target of the other branch is if it is a task, and a
single target never is. Nothing is said about two equal targets. -/
structure BranchesAgree (onTrue onFalse : Option String) (result : Bool) (skips : List TaskId) :
    Prop where
  chosen : branchTarget onTrue onFalse true ≠ branchTarget onTrue onFalse false →
    branchTarget onTrue onFalse result ∉ skips
  other : branchTarget onTrue onFalse true ≠ "" → branchTarget onTrue onFalse false ≠ "" →
    branchTarget onTrue onFalse true ≠ branchTarget onTrue onFalse false →
    (branchTarget onTrue onFalse (!result) ∈ skips ↔
      branchTarget onTrue onFalse (!result) ∈ dag.allTaskIds)
  single : branchTarget onTrue onFalse true = "" ∨ branchTarget onTrue onFalse false = "" → skips = []

/-- The task's choice and the executor's skips agree wherever the two targets differ. -/
theorem condition_branches_agree (hstr : ∀ text, strOf (.str text) = text)
    (targets : Targets node.config onTrue onFalse)
    (evaluate : PyValue → PyDict → Except String Bool) (durationMs : Int) (inputData : Option PyDict)
    {result : Bool} (hresult : evaluate ((node.config.get? (.str "condition")).getD (.str "True"))
      (inputData.getD []) = .ok result) :
    ∃ output skips,
      (ConditionTask.execute evaluate durationMs node.config inputData).output = .dict output ∧
      PyDict.get? output (.str "next_task_id") = some (.str (branchTarget onTrue onFalse result)) ∧
      branchSkips strOf dag node (normalizeOutput strOf (.dict output)) = .ok skips ∧
      BranchesAgree dag onTrue onFalse result skips := by
  refine ⟨_, _, ConditionTask.execute_output targets hresult durationMs, rfl,
    branchSkips_of_output dag hstr targets result _, ?_⟩
  constructor
  · intro hne hin
    split at hin
    · have hsame := List.mem_singleton.mp (List.mem_filter.mp hin).1
      cases result with
      | true => exact hne hsame
      | false => exact hne hsame.symm
    · exact absurd hin List.not_mem_nil
  · intro htrue hfalse _
    rw [if_pos ⟨htrue, hfalse⟩]
    simp
  · intro h
    refine if_neg (fun hboth => ?_)
    rcases h with h | h
    · exact hboth.1 h
    · exact hboth.2 h

def gateDefinition (config : PyDict) : DagDefinition where
  tasks := [
    ⟨"gate", "condition", "Branch", config, none, none⟩,
    ⟨"ok", "delay", "Go on", [], none, none⟩,
    ⟨"skip", "delay", "Stop", [], none, none⟩]
  edges := [⟨"gate", "ok"⟩, ⟨"gate", "skip"⟩]

def forkDag : DAG :=
  .ofAccepted (gateDefinition [(.str "on_true", .str "ok"), (.str "on_false", .str "skip")]) (by decide)

def singleDag : DAG := .ofAccepted (gateDefinition [(.str "on_false", .str "skip")]) (by decide)

def strOfText : PyValue → String
  | .str text => text
  | _ => ""

theorem condition_branches_agree_fork : ∃ node, forkDag.getTask "gate" = .ok node ∧
    ∃ output skips,
      (ConditionTask.execute (fun _ _ => .ok true) 0 node.config none).output = .dict output ∧
      PyDict.get? output (.str "next_task_id") = some (.str "ok") ∧
      branchSkips strOfText forkDag node (normalizeOutput strOfText (.dict output)) = .ok skips ∧
      BranchesAgree forkDag (some "ok") (some "skip") true skips := by
  refine ⟨_, rfl, ?_⟩
  exact condition_branches_agree forkDag (fun _ => rfl)
    (⟨rfl, rfl⟩ : Targets _ (some "ok") (some "skip")) (fun _ _ => .ok true) 0 none rfl

/-- With no target for the true branch nothing is skipped, not even the target of the other one. -/
theorem single_target_is_not_skipped : ∃ node output, singleDag.getTask "gate" = .ok node ∧
    (ConditionTask.execute (fun _ _ => .ok true) 0 node.config none).output = .dict output ∧
    PyDict.get? output (.str "next_task_id") = some (.str "") ∧
    node.config.get? (.str "on_false") = some (.str "skip") ∧ "skip" ∈ singleDag.allTaskIds ∧
    branchSkips strOfText singleDag node (normalizeOutput strOfText (.dict output)) = .ok [] :=
  ⟨_, _, rfl, rfl, rfl, rfl, by decide, rfl⟩

end Skips

/-! ### The steps that mark the skips -/

section Steps
variable {E : Engine} {node : DAGNode} {s : RunState}

/-- One target is marked in one step, or in two where its row is missing. -/
theorem mark_steps (hnode : E.dag.getTask node.taskId = .ok node) {sid : TaskId}
    {toSkip : List TaskId} (hpc : s.pc node.taskId = .branching (sid :: toSkip))
    (htarget : sid ∈ E.dag.allTaskIds) :
    ∃ s', Run (Step E anyAnswer) s s' ∧ s'.pc node.taskId = .branching toSkip ∧
      s'.skipped = insert sid s.skipped := by
  cases hrow : findTask s.mem.tasks sid with
  | some te =>
    have hfound : nodeStep E node 0 0 .timeout s =
        some ((({ s with skipped := insert sid s.skipped }).saveTask te (·.skip 0)).goto node.taskId
          (.branching toSkip)) := by
      simp [nodeStep, hpc, hrow]
    exact ⟨_, .single (Step.of_node hnode _ _ _ hfound), Function.update_self .., rfl⟩
  | none =>
    let marked : RunState := { s with skipped := insert sid s.skipped }
    let missing := marked.goto node.taskId (.branchCreating sid toSkip)
    have hmissing : nodeStep E node 0 0 .timeout s = some missing := by
      simp [nodeStep, hpc, hrow, missing, marked]
    obtain ⟨target, hget⟩ := E.dag.exists_getTask (E.dag.mem_allTaskIds.mp htarget)
    have hcreate : nodeStep E node 0 0 .timeout missing =
        some (((missing.flush (.new E.settings target)).saveTask missing.mem.tasks.length
          (·.skip 0)).goto node.taskId (.branching toSkip)) := by
      simp [nodeStep, missing, hget]
    exact ⟨_, (Relation.ReflTransGen.single (Step.of_node hnode _ _ _ hmissing)).tail
      (Step.of_node hnode _ _ _ hcreate), Function.update_self .., rfl⟩

/-- A coroutine at its marks adds them and nothing else to the skipped tasks. -/
theorem branching_steps (hnode : E.dag.getTask node.taskId = .ok node) {toSkip : List TaskId}
    (hpc : s.pc node.taskId = .branching toSkip) (htargets : ∀ sid ∈ toSkip, sid ∈ E.dag.allTaskIds) :
    ∃ s', Run (Step E anyAnswer) s s' ∧ s'.pc node.taskId = .done ∧
      s'.skipped = s.skipped ∪ toSkip.toFinset := by
  induction toSkip generalizing s with
  | nil =>
    have hleave : nodeStep E node 0 0 .timeout s = some (s.leave node.taskId) := by
      simp [nodeStep, hpc]
    exact ⟨_, .single (Step.of_node hnode _ _ _ hleave), Function.update_self .., by simp⟩
  | cons sid toSkip ih =>
    obtain ⟨s₁, hrun, hpc₁, hskipped⟩ := mark_steps hnode hpc (htargets sid List.mem_cons_self)
    obtain ⟨s', hrun', hdone, hskipped'⟩ :=
      ih hpc₁ (fun t ht => htargets t (List.mem_cons_of_mem _ ht))
    refine ⟨s', hrun.trans hrun', hdone, ?_⟩
    rw [hskipped', hskipped, List.toFinset_cons, Finset.insert_union, Finset.union_insert]

/-- With the lock passed as `run_node` passes it, a condition that has succeeded skips what
`branchSkips` says. -/
theorem condition_steps (hnode : E.dag.getTask node.taskId = .ok node)
    (hlock : E.reading.branchLock = true) (htype : node.taskType = "condition") {te : Nat}
    {row : TaskExecution} {toSkip : List TaskId} (hpc : s.pc node.taskId = .finishing te true)
    (hrow : s.mem.tasks[te]? = some row)
    (hskips : branchSkips E.strOf E.dag node row.outputData = .ok toSkip) :
    ∃ s', Run (Step E anyAnswer) s s' ∧ s'.pc node.taskId = .done ∧
      s'.skipped = s.skipped ∪ toSkip.toFinset := by
  have hbranch : nodeStep E node 0 0 .timeout s =
      some ((s.publish node.taskId row.outputData).goto node.taskId (.branching toSkip)) := by
    simp [nodeStep, hpc, hrow, htype, hlock, hskips]
  obtain ⟨s', hrun, hdone, hskipped⟩ := branching_steps (s := (s.publish node.taskId
    row.outputData).goto node.taskId (.branching toSkip)) hnode (Function.update_self ..)
    (fun sid hsid => branchSkips_mem hskips hsid)
  exact ⟨s', .head (Step.of_node hnode _ _ _ hbranch) hrun, hdone, hskipped⟩

end Steps

end BackendProjects.Workflow
