import BackendProjects.Workflow.Dag

/-! The two ways of asking a DAG what comes next, and its execution order: round by round the ready
tasks are the generations, and one by one the successors of a completed task are what it adds. Where
nothing is ready, everything left is below a skipped task. -/
namespace BackendProjects.Workflow.DAG
open Library
variable (dag : DAG) {C : Finset TaskId} {t : TaskId}

private theorem mem_getReadyTasks {node : DAGNode} : node ∈ dag.getReadyTasks C ∅ ∅ ↔
    node ∈ dag.nodes ∧ node.taskId ∉ C ∧ ∀ p ∈ dag.predecessors node.taskId, p ∈ C := by
  rw [getReadyTasks, List.mem_filter, and_congr_right_iff]
  intro _
  simp only [decide_eq_true_eq, Finset.notMem_empty, or_false, and_false, exists_false,
    not_false_eq_true, true_and, and_congr_right_iff, predecessors]
  intro _
  constructor
  · intro h p hp
    by_contra hnot
    exact h ⟨List.ne_nil_of_mem hp, fun hall => hnot (hall p hp)⟩
  · rintro hall ⟨_, hnot⟩
    exact hnot hall

/-! ### Round by round -/

def afterWaves : Nat → Finset TaskId
  | 0 => ∅
  | k + 1 => afterWaves k ∪ (dag.readyIds (afterWaves k) ∅).toFinset

private theorem coe_afterWaves (k : Nat) : (dag.afterWaves k : Set TaskId) = dag.graph.settle^[k] ∅ := by
  induction k with
  | zero => simp [afterWaves]
  | succ k ih =>
    rw [Function.iterate_succ_apply', ← ih]
    ext t
    simp [afterWaves, FiniteDigraph.settle, mem_readyIds_empty]

private theorem mem_wave (k : Nat) :
    t ∈ dag.readyIds (dag.afterWaves k) ∅ ↔ t ∈ dag.getExecutionOrder.getD k [] := by
  rw [mem_readyIds_empty, coe_afterWaves]
  exact (dag.graph.topologicalGenerations_waves.mem_getD k t).symm

private theorem waves_disjoint {j k : Nat} (hjk : j < k) (hj : t ∈ dag.readyIds (dag.afterWaves j) ∅) :
    t ∉ dag.readyIds (dag.afterWaves k) ∅ := by
  rw [mem_readyIds_empty, coe_afterWaves] at hj ⊢
  exact fun hk => hk.2.1 (FiniteDigraph.mem_settle_of_ready hj hjk)

private theorem afterWaves_length : dag.afterWaves dag.getExecutionOrder.length = dag.allTaskIds := by
  have hwaves := dag.graph.topologicalGenerations_waves
  apply Finset.coe_injective
  rw [coe_afterWaves, getExecutionOrder, hwaves.settle_length]
  ext t
  simp only [Set.empty_union, Set.mem_ofPred_eq, Finset.mem_coe, mem_allTaskIds]
  exact ⟨hwaves.mem_nodes, FiniteDigraph.mem_generations dag.acyclic⟩

/-- Completing everything ready, again and again, goes through the execution order: the k-th
ready list is its k-th list, and it covers all tasks when the lists are used up, no sooner. -/
theorem waves_eq_generations :
    (∀ k, (dag.readyIds (dag.afterWaves k) ∅).toFinset = (dag.getExecutionOrder.getD k []).toFinset) ∧
    (∀ k < dag.getExecutionOrder.length, dag.readyIds (dag.afterWaves k) ∅ ≠ []) ∧
    (∀ j k, j ≠ k → Disjoint (dag.readyIds (dag.afterWaves j) ∅).toFinset
      (dag.readyIds (dag.afterWaves k) ∅).toFinset) ∧
    dag.afterWaves dag.getExecutionOrder.length = dag.allTaskIds ∧
    ∀ k < dag.getExecutionOrder.length, dag.afterWaves k ≠ dag.allTaskIds := by
  have hnonempty : ∀ k < dag.getExecutionOrder.length, dag.readyIds (dag.afterWaves k) ∅ ≠ [] := by
    intro k hk hnil
    obtain ⟨t, ht⟩ := List.exists_mem_of_ne_nil _ (dag.graph.topologicalGenerations_waves.getD_ne_nil hk)
    have hready := dag.mem_wave k |>.mpr ht
    rw [hnil] at hready
    cases hready
  refine ⟨fun k => ?_, hnonempty, fun j k hjk => ?_, dag.afterWaves_length, fun k hk hall => ?_⟩
  · ext t
    rw [List.mem_toFinset, List.mem_toFinset, mem_wave]
  · rw [Finset.disjoint_left]
    intro t hj hk
    rw [List.mem_toFinset] at hj hk
    rcases Nat.lt_or_gt_of_ne hjk with hlt | hgt
    · exact dag.waves_disjoint hlt hj hk
    · exact dag.waves_disjoint hgt hk hj
  · obtain ⟨t, ht⟩ := List.exists_mem_of_ne_nil _ (hnonempty k hk)
    obtain ⟨hnode, hnew, -⟩ := dag.mem_readyIds.mp ht
    exact hnew (hall ▸ dag.mem_allTaskIds.mpr hnode)

/-! ### One task at a time -/

inductive Completable : Finset TaskId → Prop
  | empty : Completable ∅
  | complete {C : Finset TaskId} {t : TaskId} :
      Completable C → t ∈ dag.readyIds C ∅ → Completable (insert t C)

variable {dag}

/-- They contain the predecessors of what they contain. -/
private theorem Completable.closed (h : dag.Completable C) (ht : t ∈ C) : ∀ p ∈ dag.predecessors t, p ∈ C := by
  induction h with
  | empty => cases ht
  | complete hC hready ih =>
    intro p hp
    rcases Finset.mem_insert.mp ht with rfl | ht
    · exact Finset.mem_insert_of_mem ((dag.mem_readyIds.mp hready).2.2.2.2 p hp)
    · exact Finset.mem_insert_of_mem (ih ht p hp)

variable (dag)

/-- The next tasks are the successors whose predecessors are all completed, each once. -/
theorem getNextTasks_eq (ht : t ∈ dag.graph.nodes) (C : Finset TaskId) :
    ∃ next, dag.getNextTasks t C = some next ∧ (next.map DAGNode.taskId).Nodup ∧
      ∀ node, node ∈ next ↔ node ∈ dag.nodes ∧ t ∈ dag.predecessors node.taskId ∧
        ∀ p ∈ dag.predecessors node.taskId, p ∈ C := by
  have hknown : ∀ s ∈ (dag.graph.successors t).filter (fun succ =>
      dag.graph.predecessors succ ≠ [] ∧ ∀ p ∈ dag.graph.predecessors succ, p ∈ C), s ∈ dag.graph.nodes :=
    fun s hs => dag.graph.target_mem _ (dag.graph.mem_successors.mp (List.mem_filter.mp hs).1)
  obtain ⟨next, hnext, hkeys, hmem⟩ := dag.mapM_node? hknown
  refine ⟨next, ?_, hkeys ▸ (dag.graph.successors_nodup t).filter _, fun node => ?_⟩
  · rw [getNextTasks, if_pos ht]
    exact hnext
  · rw [hmem, and_congr_right_iff, List.mem_filter, decide_eq_true_eq, FiniteDigraph.mem_successors,
      predecessors, FiniteDigraph.mem_predecessors]
    intro _
    refine and_congr_right fun hedge => ⟨And.right, fun hall => ⟨?_, hall⟩⟩
    exact List.ne_nil_of_mem (dag.graph.mem_predecessors.mpr hedge)

variable {dag}

/-- Completing a ready task takes it from the ready tasks and adds its next tasks. -/
private theorem Completable.ready_step (hC : dag.Completable C) (ht : t ∈ dag.readyIds C ∅) {next : List DAGNode}
    (hnext : dag.getNextTasks t (insert t C) = some next) (node : DAGNode) :
    (node ∈ dag.getReadyTasks (insert t C) ∅ ∅ ↔
      (node ∈ dag.getReadyTasks C ∅ ∅ ∧ node.taskId ≠ t) ∨ node ∈ next) ∧
    ¬ (node ∈ dag.getReadyTasks C ∅ ∅ ∧ node ∈ next) := by
  obtain ⟨hgraph, hnew, -, -, hpreds⟩ := dag.mem_readyIds.mp ht
  obtain ⟨next', hnext', -, hmem⟩ := dag.getNextTasks_eq hgraph (insert t C)
  cases hnext.symm.trans hnext'
  rw [hmem, mem_getReadyTasks, mem_getReadyTasks]
  refine ⟨⟨?_, ?_⟩, fun ⟨⟨_, _, hall⟩, _, hsucc, _⟩ => hnew (hall t hsucc)⟩
  · rintro ⟨hnode, hfresh, hall⟩
    obtain ⟨hne, hnotC⟩ := not_or.mp (fun h => hfresh (Finset.mem_insert.mpr h))
    by_cases hsucc : t ∈ dag.predecessors node.taskId
    · exact Or.inr ⟨hnode, hsucc, hall⟩
    · refine Or.inl ⟨⟨hnode, hnotC, fun p hp => ?_⟩, hne⟩
      exact (Finset.mem_insert.mp (hall p hp)).resolve_left (fun h => hsucc (h ▸ hp))
  · rintro (⟨⟨hnode, hnotC, hall⟩, hne⟩ | ⟨hnode, hsucc, hall⟩)
    · refine ⟨hnode, fun h => ?_, fun p hp => Finset.mem_insert_of_mem (hall p hp)⟩
      exact (Finset.mem_insert.mp h).elim hne hnotC
    · refine ⟨hnode, fun h => ?_, hall⟩
      rcases Finset.mem_insert.mp h with heq | hin
      · exact hnew (hpreds t (heq ▸ hsucc))
      · exact hnew (hC.closed hin t hsucc)

/-- The same about ids. -/
private theorem Completable.readyIds_step (hC : dag.Completable C) (ht : t ∈ dag.readyIds C ∅)
    {next : List DAGNode} (hnext : dag.getNextTasks t (insert t C) = some next) (u : TaskId) :
    (u ∈ dag.readyIds (insert t C) ∅ ↔
      (u ∈ dag.readyIds C ∅ ∧ u ≠ t) ∨ u ∈ next.map DAGNode.taskId) ∧
    ¬ (u ∈ dag.readyIds C ∅ ∧ u ∈ next.map DAGNode.taskId) := by
  have hstep := hC.ready_step ht hnext
  simp only [readyIds, List.mem_map]
  refine ⟨⟨?_, ?_⟩, ?_⟩
  · rintro ⟨node, hnode, rfl⟩
    rcases (hstep node).1.mp hnode with ⟨hready, hne⟩ | hnew
    · exact Or.inl ⟨⟨node, hready, rfl⟩, hne⟩
    · exact Or.inr ⟨node, hnew, rfl⟩
  · rintro (⟨⟨node, hready, rfl⟩, hne⟩ | ⟨node, hnew, rfl⟩)
    · exact ⟨node, (hstep node).1.mpr (Or.inl ⟨hready, hne⟩), rfl⟩
    · exact ⟨node, (hstep node).1.mpr (Or.inr hnew), rfl⟩
  · rintro ⟨⟨node, hready, rfl⟩, other, hnew, hid⟩
    have hnode := (dag.mem_getReadyTasks.mp hready).1
    have hother := (dag.mem_getReadyTasks.mp ((hstep other).1.mpr (Or.inr hnew))).1
    have hsame := dag.node?_eq_some.mpr ⟨hother, hid⟩
    rw [dag.node?_eq_some.mpr ⟨hnode, rfl⟩] at hsame
    cases hsame
    exact (hstep node).2 ⟨hready, hnew⟩

variable (dag)

def CompleteRun : Finset TaskId → List TaskId → Prop
  | C, [] => dag.readyIds C ∅ = []
  | C, t :: order => t ∈ dag.readyIds C ∅ ∧ CompleteRun (insert t C) order

def nextCalls : Finset TaskId → List TaskId → Option (List (List DAGNode))
  | _, [] => some []
  | C, t :: order => do
    let next ← dag.getNextTasks t (insert t C)
    let rest ← nextCalls (insert t C) order
    return next :: rest

variable {dag}

/-- From any point of a run, its calls return what is neither completed nor ready yet, once. -/
private theorem Completable.count_nextCalls {order : List TaskId} (hC : dag.Completable C)
    (horder : dag.CompleteRun C order) : ∃ calls, dag.nextCalls C order = some calls ∧
      ∀ u ∈ dag.graph.nodes, (calls.flatten.map DAGNode.taskId).count u =
        if u ∈ C ∨ u ∈ dag.readyIds C ∅ then 0 else 1 := by
  induction order generalizing C with
  | nil =>
    refine ⟨[], rfl, fun u hu => ?_⟩
    rw [if_pos]
    · rfl
    · by_contra hnot
      obtain ⟨w, hw, hnew, hpreds⟩ := dag.exists_minimal_unsettled C hu (fun h => hnot (Or.inl h))
      have hready : w ∈ dag.readyIds C ∅ := dag.mem_readyIds_empty.mpr ⟨hw, by simpa using hnew, hpreds⟩
      rw [horder] at hready
      cases hready
  | cons t order ih =>
    obtain ⟨ht, hrest⟩ := horder
    obtain ⟨next, hnext, hnodup, -⟩ := dag.getNextTasks_eq (dag.mem_readyIds.mp ht).1 (insert t C)
    obtain ⟨calls, hcalls, hcount⟩ := ih (hC.complete ht) hrest
    refine ⟨next :: calls, by rw [nextCalls, hnext, hcalls]; rfl, fun u hu => ?_⟩
    obtain ⟨hstep, hdisjoint⟩ := hC.readyIds_step ht hnext u
    rw [List.flatten_cons, List.map_append, List.count_append, hcount u hu, hnodup.count]
    by_cases hin : u ∈ next.map DAGNode.taskId
    · have hready := hstep.mpr (Or.inr hin)
      have hC' : u ∉ C := fun h => (dag.mem_readyIds.mp hready).2.1 (Finset.mem_insert_of_mem h)
      rw [if_pos hin, if_pos (Or.inr hready), if_neg (fun h => h.elim hC' (fun h => hdisjoint ⟨h, hin⟩))]
    · have hsame : (u ∈ insert t C ∨ u ∈ dag.readyIds (insert t C) ∅) ↔
          (u ∈ C ∨ u ∈ dag.readyIds C ∅) := by
        rw [hstep, Finset.mem_insert]
        by_cases heq : u = t
        · subst heq
          simp [ht]
        · simp [heq, hin]
      simp only [hin, hsame, if_false, Nat.zero_add]

/-- Some order completes every task. -/
private theorem Completable.exists_completeRun (hC : dag.Completable C) : ∃ order, dag.CompleteRun C order := by
  generalize hn : (dag.allTaskIds \ C).card = n
  induction n generalizing C with
  | zero =>
    refine ⟨[], List.eq_nil_iff_forall_not_mem.mpr (fun t ht => ?_)⟩
    obtain ⟨hnode, hnew, -⟩ := dag.mem_readyIds.mp ht
    have hempty := Finset.card_eq_zero.mp hn
    exact hnew (Finset.sdiff_eq_empty_iff_subset.mp hempty (dag.mem_allTaskIds.mpr hnode))
  | succ n ih =>
    obtain ⟨t, ht⟩ := Finset.card_pos.mp (by rw [hn]; exact Nat.succ_pos n)
    obtain ⟨hall, hnew⟩ := Finset.mem_sdiff.mp ht
    obtain ⟨w, hw, hwnew, hpreds⟩ := dag.exists_minimal_unsettled C (dag.mem_allTaskIds.mp hall) hnew
    have hready : w ∈ dag.readyIds C ∅ := dag.mem_readyIds_empty.mpr ⟨hw, by simpa using hwnew, hpreds⟩
    obtain ⟨order, horder⟩ := ih (hC.complete hready) (by
      rw [Finset.sdiff_insert, Finset.card_erase_of_mem
        (Finset.mem_sdiff.mpr ⟨dag.mem_allTaskIds.mpr hw, hwnew⟩), hn]
      rfl)
    exact ⟨w :: order, hready, horder⟩

variable (dag)

/-- Asking for the next tasks after each completion is as good as asking for the ready tasks again.
Over a run that leaves nothing ready, every task but the roots is returned by one call, the roots by
none. -/
theorem next_tasks_incremental :
    (∀ C, dag.Completable C → ∀ t ∈ dag.readyIds C ∅, ∃ next,
      dag.getNextTasks t (insert t C) = some next ∧
      (∀ node, node ∈ dag.getReadyTasks (insert t C) ∅ ∅ ↔
        (node ∈ dag.getReadyTasks C ∅ ∅ ∧ node.taskId ≠ t) ∨ node ∈ next) ∧
      ∀ node, ¬ (node ∈ dag.getReadyTasks C ∅ ∅ ∧ node ∈ next)) ∧
    (∃ order, dag.CompleteRun ∅ order) ∧
    ∀ order, dag.CompleteRun ∅ order → ∃ calls, dag.nextCalls ∅ order = some calls ∧
      ∀ t ∈ dag.allTaskIds, (calls.flatten.map DAGNode.taskId).count t =
        if dag.graph.inDegree t = 0 then 0 else 1 := by
  refine ⟨fun C hC t ht => ?_, Completable.empty.exists_completeRun, fun order horder => ?_⟩
  · obtain ⟨next, hnext, -, -⟩ := dag.getNextTasks_eq (dag.mem_readyIds.mp ht).1 (insert t C)
    have hstep := hC.ready_step ht hnext
    exact ⟨next, hnext, fun node => (hstep node).1, fun node => (hstep node).2⟩
  · obtain ⟨calls, hcalls, hcount⟩ := Completable.empty.count_nextCalls horder
    refine ⟨calls, hcalls, fun t ht => ?_⟩
    have hnode := dag.mem_allTaskIds.mp ht
    have hroot : (t ∈ (∅ : Finset TaskId) ∨ t ∈ dag.readyIds ∅ ∅) ↔ dag.graph.inDegree t = 0 := by
      simp [mem_readyIds_empty, FiniteDigraph.Ready, hnode, FiniteDigraph.inDegree_eq_zero]
    rw [hcount t hnode]
    simp only [hroot]

/-! ### Behind skipped tasks -/

/-- What is completed contains all ancestors of what it contains. -/
theorem ancestor_completed (closed : ∀ t ∈ C, ∀ p ∈ dag.predecessors t, p ∈ C) {s : TaskId}
    (h : Relation.TransGen dag.graph.Edge s t) (hpreds : ∀ p ∈ dag.predecessors t, p ∈ C) : s ∈ C := by
  induction h with
  | single hedge => exact hpreds s (dag.graph.mem_predecessors.mpr hedge)
  | tail _ hedge ih => exact ih (closed _ (hpreds _ (dag.graph.mem_predecessors.mpr hedge)))

/-- Nothing is ready only when every unsettled task is below a skipped one, and what is ready is below
none as long as what is completed hangs together. -/
theorem stuck_behind_skips (completed skipped : Finset TaskId) :
    (dag.getReadyTasks completed skipped ∅ = [] →
      ∀ t ∈ dag.allTaskIds, t ∉ completed → t ∉ skipped →
        ∃ s ∈ skipped, Relation.TransGen dag.graph.Edge s t) ∧
    ((∀ t ∈ completed, ∀ p ∈ dag.predecessors t, p ∈ completed) → Disjoint completed skipped →
      ∀ node ∈ dag.getReadyTasks completed skipped ∅, ∀ s,
        Relation.TransGen dag.graph.Edge s node.taskId → s ∉ skipped) ∧
    (¬ dag.allTaskIds ⊆ completed → dag.getReadyTasks completed ∅ ∅ ≠ []) := by
  have hstuck (S : Finset TaskId) (hnone : dag.getReadyTasks completed S ∅ = []) (t : TaskId)
      (ht : t ∈ dag.allTaskIds) (hc : t ∉ completed) (hs : t ∉ S) :
      ∃ s ∈ S, Relation.TransGen dag.graph.Edge s t := by
    obtain ⟨w, ⟨hw, hnew, hpreds⟩, hreach⟩ := FiniteDigraph.exists_ready_above dag.acyclic
      (dag.mem_allTaskIds.mp ht) (show t ∉ (↑(completed ∪ S) : Set TaskId) by simp [hc, hs])
    obtain ⟨hwc, hws⟩ := not_or.mp (fun h => hnew (Finset.mem_coe.mpr (Finset.mem_union.mpr h)))
    by_contra hclear
    -- No predecessor of w is skipped, since each of them is above t.
    have hunskipped : ∀ p ∈ dag.predecessors w, p ∉ S := fun p hp hin =>
      hclear ⟨p, hin, Relation.TransGen.head' (dag.graph.mem_predecessors.mp hp) hreach⟩
    have hready : w ∈ dag.readyIds completed S := dag.mem_readyIds.mpr ⟨hw, hwc, hws, hunskipped,
      fun p hp => (Finset.mem_union.mp (hpreds p hp)).resolve_right (hunskipped p hp)⟩
    rw [readyIds, hnone] at hready
    cases hready
  refine ⟨hstuck skipped, fun closed disjoint node hnode s hs => ?_, fun hless hnone => ?_⟩
  · have hready : node.taskId ∈ dag.readyIds completed skipped := List.mem_map_of_mem hnode
    obtain ⟨-, -, -, -, hpreds⟩ := dag.mem_readyIds.mp hready
    exact Finset.disjoint_left.mp disjoint (dag.ancestor_completed closed hs hpreds)
  · obtain ⟨t, ht, hc⟩ := Finset.not_subset.mp hless
    obtain ⟨s, hs, -⟩ := hstuck ∅ hnone t ht hc (Finset.notMem_empty t)
    exact Finset.notMem_empty s hs

end BackendProjects.Workflow.DAG
