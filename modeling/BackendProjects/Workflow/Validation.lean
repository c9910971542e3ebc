import BackendProjects.Workflow.Dag

/-! Which definitions the DAG constructor accepts, and the neighbour lists that it fills in. -/
namespace BackendProjects.Workflow
open Library

namespace DagDefinition

def Edge (definition : DagDefinition) (u v : TaskId) : Prop := (u, v) ∈ definition.edges.map EdgeConfig.ends

def Lists (definition : DagDefinition) (t : TaskId) : Prop := t ∈ definition.tasks.map TaskConfig.id

structure WellFormed (definition : DagDefinition) : Prop where
  nonempty : definition.tasks ≠ []
  known : ∀ e ∈ definition.edges, definition.Lists e.fromTask ∧ definition.Lists e.toTask
  acyclic : ∀ v, ¬ Relation.TransGen definition.Edge v v

end DagDefinition

namespace Parsed
variable {p q : Parsed} {es : List EdgeConfig} {err : PyError}

private theorem mem_foldl_addTask (tasks : List TaskConfig) (p : Parsed) (t : TaskId) :
    t ∈ (tasks.foldl addTask p).graph.nodes ↔ t ∈ p.graph.nodes ∨ t ∈ tasks.map TaskConfig.id := by
  induction tasks generalizing p with
  | nil => simp
  | cons task tasks ih =>
    have hone : t ∈ (addTask p task).graph.nodes ↔ t ∈ p.graph.nodes ∨ t = task.id := by
      rw [addTask, FiniteDigraph.addNode_nodes]
      split
      · next hin => exact ⟨Or.inl, fun h => h.elim id (fun h => h ▸ hin)⟩
      · rw [List.mem_append, List.mem_singleton]
    rw [List.foldl_cons, ih, hone, List.map_cons, List.mem_cons, or_assoc]

/-- The nodes are the listed ids. -/
theorem mem_addTasks {definition : DagDefinition} {t : TaskId} :
    t ∈ (definition.tasks.foldl addTask .empty).graph.nodes ↔ definition.Lists t := by
  rw [mem_foldl_addTask]
  simp [empty, FiniteDigraph.empty, DagDefinition.Lists]

private theorem foldlM_addEdge_error (h : es.foldlM addEdge p = .error err) :
    ∃ message, err = .valueError message := by
  induction es generalizing p with
  | nil => cases h
  | cons e es ih =>
    rw [List.foldlM_cons, addEdge] at h
    split at h
    · exact ih h
    · cases h
      exact ⟨_, rfl⟩

end Parsed

namespace DAG
variable {definition : DagDefinition} {dag : DAG} {p : Parsed} {err : PyError}

private theorem validate_error (h : validate p = .error err) : ∃ message, err = .valueError message := by
  unfold validate at h
  split at h
  · cases h
    exact ⟨_, rfl⟩
  · split at h
    · split at h
      · cases h
      · cases h
        exact ⟨_, rfl⟩
    · cases h
      exact ⟨_, rfl⟩

/-- Every rejection is a ValueError. -/
theorem init_error (h : init definition = .error err) : ∃ message, err = .valueError message := by
  unfold init Parsed.parse at h
  cases hq : definition.edges.foldlM Parsed.addEdge (definition.tasks.foldl Parsed.addTask .empty) with
  | error e =>
    rw [hq] at h
    cases h
    exact Parsed.foldlM_addEdge_error hq
  | ok q =>
    rw [hq] at h
    exact validate_error h

/-- The nodes of a DAG are the listed tasks. -/
theorem mem_nodes (h : init definition = .ok dag) {t : TaskId} :
    t ∈ dag.graph.nodes ↔ definition.Lists t := by
  obtain ⟨q, hq, _, hgraph⟩ := init_ok h
  rw [hgraph, (Parsed.foldlM_addEdge hq).2.1, Parsed.mem_addTasks]

private theorem edge_iff (h : init definition = .ok dag) (u v : TaskId) :
    dag.graph.Edge u v ↔ definition.Edge u v := dag.mem_edges h (u, v)

private theorem edge_eq (h : init definition = .ok dag) : dag.graph.Edge = definition.Edge := by
  ext u v
  exact edge_iff h u v

private theorem wellFormed_of_init (h : init definition = .ok dag) : definition.WellFormed where
  nonempty := by
    obtain ⟨root, hroot⟩ := List.exists_mem_of_ne_nil _ dag.rooted
    obtain ⟨task, htask, _⟩ := List.mem_map.mp ((mem_nodes h).mp (List.mem_filter.mp hroot).1)
    exact List.ne_nil_of_mem htask
  known := by
    obtain ⟨q, hq, _, _⟩ := init_ok h
    intro e he
    obtain ⟨hfrom, hto⟩ := (Parsed.foldlM_addEdge hq).2.2.2 e he
    exact ⟨Parsed.mem_addTasks.mp hfrom, Parsed.mem_addTasks.mp hto⟩
  acyclic := edge_eq h ▸ FiniteDigraph.not_cycle dag.acyclic

/-- The constructor finds nothing wrong with a well-formed definition. -/
theorem exists_init (h : definition.WellFormed) : ∃ dag, init definition = .ok dag := by
  obtain ⟨q, hq⟩ := Parsed.exists_foldlM_addEdge (definition.tasks.foldl Parsed.addTask .empty)
    (fun e he => ⟨Parsed.mem_addTasks.mpr (h.known e he).1, Parsed.mem_addTasks.mpr (h.known e he).2⟩)
  obtain ⟨-, hnodes, hedges, -⟩ := Parsed.foldlM_addEdge hq
  have hedge : q.graph.Edge = definition.Edge := by
    ext u v
    rw [FiniteDigraph.Edge, hedges, Parsed.foldl_addTask_edges]
    simp [Parsed.empty, FiniteDigraph.empty, DagDefinition.Edge]
  have hacyclic : q.graph.isDirectedAcyclicGraph = true :=
    FiniteDigraph.isDirectedAcyclicGraph_iff.mpr (hedge ▸ h.acyclic)
  obtain ⟨task, htask⟩ := List.exists_mem_of_ne_nil _ h.nonempty
  have hlisted : task.id ∈ q.graph.nodes := by
    rw [hnodes, Parsed.mem_addTasks]
    exact List.mem_map_of_mem htask
  obtain ⟨root, hroot, hdegree⟩ := FiniteDigraph.exists_root hacyclic hlisted
  obtain ⟨dag, hdag, -⟩ := exists_validate (p := q.link) hacyclic hroot hdegree
  refine ⟨dag, ?_⟩
  unfold init Parsed.parse
  rw [hq]
  exact hdag

/-- What the last loop of the parser has filled in. -/
theorem linked (h : init definition = .ok dag) {node : DAGNode} (hnode : node ∈ dag.nodes) :
    node.dependencies = dag.graph.predecessors node.taskId ∧
    node.dependents = dag.graph.successors node.taskId := by
  obtain ⟨q, _, hnodes, hgraph⟩ := init_ok h
  rw [hnodes] at hnode
  obtain ⟨parsed, _, rfl⟩ := List.mem_map.mp hnode
  rw [hgraph]
  exact ⟨rfl, rfl⟩

/-- The root tasks are the nodes without dependencies, and there are some. -/
theorem getRootTasks_eq (h : init definition = .ok dag) : ∃ roots, dag.getRootTasks = some roots ∧
    roots ≠ [] ∧ ∀ node, node ∈ roots ↔ node ∈ dag.nodes ∧ node.dependencies = [] := by
  have hknown : ∀ t ∈ dag.graph.nodes.filter (fun n => dag.graph.inDegree n = 0), t ∈ dag.graph.nodes :=
    fun t ht => (List.mem_filter.mp ht).1
  obtain ⟨roots, hroots, hkeys, hmem⟩ := dag.mapM_node? hknown
  refine ⟨roots, hroots, ?_, fun node => ?_⟩
  · rintro rfl
    exact dag.rooted hkeys.symm
  · rw [hmem, and_congr_right_iff]
    intro hnode
    have hgraph : node.taskId ∈ dag.graph.nodes := dag.keys ▸ List.mem_map_of_mem hnode
    simp [(linked h hnode).1, hgraph, FiniteDigraph.inDegree]

/-- The constructor accepts exactly the well-formed definitions and turns every other one down
with a ValueError. An accepted one has roots, and its neighbour lists mirror the listed edges. -/
theorem init_characterised (definition : DagDefinition) :
    ((∃ dag, init definition = .ok dag) ↔ definition.WellFormed) ∧
    (¬ definition.WellFormed → ∃ message, init definition = .error (.valueError message)) ∧
    ∀ dag, init definition = .ok dag →
      (∃ roots, dag.getRootTasks = some roots ∧ roots ≠ [] ∧
        ∀ node, node ∈ roots ↔ node ∈ dag.nodes ∧ node.dependencies = []) ∧
      (∀ v, definition.Lists v ↔ ∃ node, dag.node? v = some node) ∧
      ∀ v node, dag.node? v = some node →
        (∀ u, u ∈ node.dependencies ↔ definition.Edge u v) ∧ node.dependencies.Nodup ∧
        (∀ w, w ∈ node.dependents ↔ definition.Edge v w) ∧ node.dependents.Nodup := by
  refine ⟨⟨fun ⟨dag, h⟩ => wellFormed_of_init h, exists_init⟩, fun hbad => ?_, fun dag h => ?_⟩
  · cases hinit : init definition with
    | ok dag => exact absurd (wellFormed_of_init hinit) hbad
    | error err =>
      obtain ⟨message, rfl⟩ := init_error hinit
      exact ⟨message, rfl⟩
  · refine ⟨getRootTasks_eq h, fun v => ?_, fun v node hv => ?_⟩
    · rw [← mem_nodes h, ← dag.keys, List.mem_map]
      exact exists_congr (fun node => dag.node?_eq_some.symm)
    · obtain ⟨hnode, rfl⟩ := dag.node?_eq_some.mp hv
      obtain ⟨hdeps, hdependents⟩ := linked h hnode
      rw [hdeps, hdependents]
      refine ⟨fun u => ?_, dag.graph.predecessors_nodup _, fun w => ?_, dag.graph.successors_nodup _⟩
      · rw [FiniteDigraph.mem_predecessors]
        exact edge_iff h u node.taskId
      · rw [FiniteDigraph.mem_successors]
        exact edge_iff h node.taskId w

example : init { tasks := [⟨"a", "delay", "A", [], none, none⟩], edges := [⟨"a", "a"⟩] } =
    .error (.valueError "DAG contains a cycle") := rfl

end DAG
end BackendProjects.Workflow
