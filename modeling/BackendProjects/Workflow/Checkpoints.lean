import BackendProjects.Workflow.DependencyOrder
import BackendProjects.Workflow.Termination

/-! What handlers that always succeed publish is a function of the DAG and the input alone, so the outputs
of a finished part of a run are those of any other run. -/
namespace BackendProjects.Workflow
open Library

abbrev Respond := DAGNode → PyDict → TaskResult

def Respond.handler (respond : Respond) : Handler := fun node _ data => respond node data

def published (output : PyValue) : Option PyValue := if output ≠ .none then some output else none

section Evaluates
variable (E : Engine) (respond : Respond) (input : Option PyDict)

def outputOf (outputs : PyDict) (node : DAGNode) : PyValue :=
  normalizeOutput E.strOf (respond node (taskInput E input outputs node.taskId)).output

structure Evaluates (completed : Finset TaskId) (outputs : PyDict) : Prop where
  known : ∀ t ∈ completed, t ∈ E.dag.graph.nodes
  closed : ∀ t ∈ completed, ∀ p ∈ E.dag.predecessors t, p ∈ completed
  absent : ∀ key, (∀ t ∈ completed, key ≠ .str t) → outputs.get? key = none
  value : ∀ node, E.dag.getTask node.taskId = .ok node → node.taskId ∈ completed →
    outputs.get? (.str node.taskId) = published (outputOf E respond input outputs node)

variable {E respond input} {completed completed' : Finset TaskId} {outputs outputs' : PyDict} {t : TaskId}
  {node : DAGNode}

theorem taskInput_congr
    (h : ∀ p ∈ E.dag.predecessors t, outputs.get? (.str p) = outputs'.get? (.str p)) :
    taskInput E input outputs t = taskInput E input outputs' t := by
  have hpreds : predOutputs E.dag t outputs = predOutputs E.dag t outputs' :=
    List.filterMap_congr (fun p hp => by rw [h p hp])
  rw [taskInput, taskInput, hpreds]

theorem outputOf_congr
    (h : ∀ p ∈ E.dag.predecessors node.taskId, outputs.get? (.str p) = outputs'.get? (.str p)) :
    outputOf E respond input outputs node = outputOf E respond input outputs' node := by
  rw [outputOf, outputOf, taskInput_congr h]

namespace Evaluates

theorem empty : Evaluates E respond input ∅ [] where
  known := by simp
  closed := by simp
  absent := fun _ _ => rfl
  value := fun _ _ h => absurd h (Finset.notMem_empty _)

/-- Outputs that follow from each other are the same wherever both have them: a first task in which they
differed would have had the same input. -/
theorem agree (h : Evaluates E respond input completed outputs)
    (h' : Evaluates E respond input completed' outputs') (ht : t ∈ completed) (ht' : t ∈ completed') :
    outputs.get? (.str t) = outputs'.get? (.str t) := by
  by_contra hdiffers
  let same : Finset TaskId := E.dag.allTaskIds.filter (fun u =>
    u ∈ completed → u ∈ completed' → outputs.get? (.str u) = outputs'.get? (.str u))
  have hsame {u : TaskId} (hu : u ∈ E.dag.graph.nodes) : u ∈ same ↔
      (u ∈ completed → u ∈ completed' → outputs.get? (.str u) = outputs'.get? (.str u)) := by
    simp [same, E.dag.mem_allTaskIds.mpr hu]
  obtain ⟨u, hu, hnot, hpreds⟩ := E.dag.exists_minimal_unsettled same (h.known t ht)
    (fun hin => hdiffers ((hsame (h.known t ht)).mp hin ht ht'))
  rw [hsame hu] at hnot
  simp only [Classical.not_imp] at hnot
  obtain ⟨huc, huc', hne⟩ := hnot
  obtain ⟨node, hnode⟩ := E.dag.exists_getTask hu
  obtain rfl := (E.dag.getTask_ok hnode).2
  have hinputs : ∀ p ∈ E.dag.predecessors node.taskId, outputs.get? (.str p) = outputs'.get? (.str p) := by
    intro p hp
    have hpc := h.closed _ huc p hp
    exact (hsame (h.known p hpc)).mp (hpreds p hp) hpc (h'.closed _ huc' p hp)
  rw [h.value node hnode huc, h'.value node hnode huc', outputOf_congr hinputs] at hne
  exact hne rfl

/-- One more task whose predecessors are completed. -/
theorem publish (h : Evaluates E respond input completed outputs)
    (hnode : E.dag.getTask node.taskId = .ok node)
    (hpreds : ∀ p ∈ E.dag.predecessors node.taskId, p ∈ completed) (hnew : node.taskId ∉ completed)
    (hothers : ∀ key, key ≠ .str node.taskId → outputs'.get? key = outputs.get? key)
    (hvalue : outputs'.get? (.str node.taskId) = published (outputOf E respond input outputs node)) :
    Evaluates E respond input (insert node.taskId completed) outputs' := by
  have hkept {p : TaskId} (hp : p ∈ completed) : outputs'.get? (.str p) = outputs.get? (.str p) := by
    refine hothers _ (fun heq => hnew ?_)
    cases heq
    exact hp
  refine ⟨fun t ht => ?_, fun t ht p hp => ?_, fun key hkey => ?_, fun other hother ht => ?_⟩
  · rcases Finset.mem_insert.mp ht with rfl | ht
    · exact E.dag.mem_nodes_of_getTask hnode
    · exact h.known t ht
  · rcases Finset.mem_insert.mp ht with rfl | ht
    · exact Finset.mem_insert_of_mem (hpreds p hp)
    · exact Finset.mem_insert_of_mem (h.closed t ht p hp)
  · rw [hothers key (hkey _ (Finset.mem_insert_self _ _))]
    exact h.absent key (fun t ht => hkey t (Finset.mem_insert_of_mem ht))
  · rcases Finset.mem_insert.mp ht with heq | ht
    · rw [heq, hnode] at hother
      cases hother
      rw [hvalue, outputOf_congr (fun p hp => (hkept (hpreds p hp)).symm)]
    · rw [hkept ht, h.value other hother ht, outputOf_congr (fun p hp => (hkept (h.closed _ ht p hp)).symm)]

theorem congr (h : Evaluates E respond input completed outputs) (hc : completed' = completed)
    (ho : outputs' = outputs) : Evaluates E respond input completed' outputs' := hc ▸ ho ▸ h

end Evaluates

end Evaluates

/-! ### The rows of an earlier run -/

def completedIds (rows : List TaskExecution) : Finset TaskId :=
  ((rows.filter (fun row => row.status = .completed)).map (·.taskDefinitionId)).toFinset

/-- Rows at which a run may be resumed: the completed tasks are so with their predecessors, and with the
outputs that some run from scratch has published for them; others can be attempted once more. -/
structure Checkpoint (E : Engine) (respond : Respond) (input : Option PyDict) (db : Database) : Prop where
  pending : db.execution.status = .pending
  data : db.execution.inputData = input
  known : ∀ row ∈ db.tasks, row.taskDefinitionId ∈ E.dag.graph.nodes
  once : (db.tasks.map (·.taskDefinitionId)).Nodup
  closed : ∀ t ∈ completedIds db.tasks, ∀ p ∈ E.dag.predecessors t, p ∈ completedIds db.tasks
  outputs : ∀ row ∈ db.tasks, row.status = .completed → ∃ u, Leads E respond.handler input u ∧
    row.taskDefinitionId ∈ u.completed ∧
    u.taskOutputs.get? (.str row.taskDefinitionId) = published row.outputData
  others : ∀ row ∈ db.tasks, row.status ≠ .completed →
    row.status ≠ .skipped ∧ 1 ≤ row.attempt ∧ row.attempt ≤ row.maxAttempts

variable {rows : List TaskExecution} {row : TaskExecution} {t : TaskId} {s : RunState}

theorem mem_completedIds : t ∈ completedIds rows ↔
    ∃ row ∈ rows, row.status = .completed ∧ row.taskDefinitionId = t := by
  simp [completedIds, and_assoc]

/-- Loading touches the outputs of completed tasks only. -/
theorem load_get?_of_ne {key : PyValue} (h : ∀ t ∈ completedIds rows, key ≠ .str t) :
    (rows.foldl loadRow s).taskOutputs.get? key = s.taskOutputs.get? key := by
  induction rows generalizing s with
  | nil => rfl
  | cons row rows ih =>
    have hrest : ∀ t ∈ completedIds rows, key ≠ .str t := by
      intro t ht
      obtain ⟨row', hrow', hstatus, hid⟩ := mem_completedIds.mp ht
      exact h t (mem_completedIds.mpr ⟨row', List.mem_cons_of_mem _ hrow', hstatus, hid⟩)
    rw [List.foldl_cons, ih hrest, loadRow]
    split
    · next hstatus =>
      have hkey := h _ (mem_completedIds.mpr ⟨row, List.mem_cons_self, hstatus, rfl⟩)
      rw [RunState.publish_taskOutputs]
      split
      · exact PyDict.get?_set_of_ne _ hkey _
      · rfl
    · split <;> rfl

/-- With one row for each task, what is loaded for a completed one is what its row has. -/
theorem persistedOutput_of_mem (hrow : row ∈ rows) (hstatus : row.status = .completed)
    (hrows : (rows.map (·.taskDefinitionId)).Nodup) :
    persistedOutput rows row.taskDefinitionId = published row.outputData := by
  have honly {other : TaskExecution} (h : other ∈ rows)
      (hid : other.taskDefinitionId = row.taskDefinitionId) : other = row :=
    List.inj_on_of_nodup_map hrows h hrow hid
  unfold persistedOutput published
  split
  · next hsome =>
    cases hfind : rows.reverse.find? (fun te => te.taskDefinitionId = row.taskDefinitionId ∧
        te.status = .completed ∧ te.outputData ≠ .none) with
    | none =>
      have hnot := List.find?_eq_none.mp hfind row (List.mem_reverse.mpr hrow)
      simp [hstatus, hsome] at hnot
    | some found =>
      have hfound := List.find?_some hfind
      simp only [decide_eq_true_eq] at hfound
      rw [honly (List.mem_reverse.mp (List.mem_of_find?_eq_some hfind)) hfound.1]
      rfl
  · next hnone =>
    rw [Option.map_eq_none_iff, List.find?_eq_none]
    intro other hother hfields
    obtain ⟨hid, _, hsome⟩ := of_decide_eq_true hfields
    rw [honly (List.mem_reverse.mp hother) hid] at hsome
    exact hnone hsome

end BackendProjects.Workflow
