import BackendProjects.Library.Peeling
import BackendProjects.Workflow.Retry

/-! Workflow definitions and the DAG that the engine builds from an accepted one. -/
namespace BackendProjects.Workflow
open Library

structure TaskConfig where
  id : TaskId
  type : String
  name : String
  config : PyDict := []
  retry : Option RetryConfig := none
  timeoutSeconds : Option Int := none

structure EdgeConfig where
  fromTask : TaskId
  toTask : TaskId

structure DagDefinition where
  tasks : List TaskConfig
  edges : List EdgeConfig := []

structure DAGNode where
  taskId : TaskId
  taskType : String
  taskName : String
  config : PyDict
  retryConfig : Option RetryConfig := none
  timeoutSeconds : Int := 300
  dependencies : List TaskId := []
  dependents : List TaskId := []

def DAGNode.ofTask (t : TaskConfig) : DAGNode where
  taskId := t.id
  taskType := t.type
  taskName := t.name
  config := t.config
  retryConfig := t.retry
  timeoutSeconds := t.timeoutSeconds.getD 300

/-- `nodes[node.task_id] = node` in a dict: a key that is there keeps its place. -/
def insertNode (nodes : List DAGNode) (node : DAGNode) : List DAGNode :=
  if node.taskId ∈ nodes.map DAGNode.taskId then
    nodes.map (fun m => if m.taskId = node.taskId then node else m)
  else nodes ++ [node]

private theorem insertNode_keys (nodes : List DAGNode) (node : DAGNode) :
    (insertNode nodes node).map DAGNode.taskId =
      if node.taskId ∈ nodes.map DAGNode.taskId then nodes.map DAGNode.taskId
      else nodes.map DAGNode.taskId ++ [node.taskId] := by
  unfold insertNode
  split
  · rw [List.map_map]
    apply List.map_congr_left
    intro m _
    simp only [Function.comp_apply]
    split
    · next h => exact h.symm
    · rfl
  · simp

structure Parsed where
  nodes : List DAGNode
  graph : FiniteDigraph TaskId
  keys : nodes.map DAGNode.taskId = graph.nodes

namespace Parsed

def empty : Parsed := ⟨[], .empty, rfl⟩

def addTask (p : Parsed) (t : TaskConfig) : Parsed where
  nodes := insertNode p.nodes (.ofTask t)
  graph := p.graph.addNode t.id
  keys := by rw [insertNode_keys, FiniteDigraph.addNode_nodes, p.keys]; rfl

private def unknownTask (u v : TaskId) : PyError :=
  .valueError ("Edge references unknown task: " ++ u ++ " -> " ++ v)

def addEdge (p : Parsed) (e : EdgeConfig) : Except PyError Parsed :=
  if h : e.fromTask ∈ p.graph.nodes ∧ e.toTask ∈ p.graph.nodes then
    .ok { p with
      graph := p.graph.addEdge e.fromTask e.toTask h.1 h.2
      keys := by rw [FiniteDigraph.addEdge_nodes, p.keys] }
  else .error (unknownTask e.fromTask e.toTask)

def link (p : Parsed) : Parsed where
  nodes := p.nodes.map (fun n =>
    { n with
      dependencies := p.graph.predecessors n.taskId
      dependents := p.graph.successors n.taskId })
  graph := p.graph
  keys := by rw [List.map_map, ← p.keys]; rfl

def parse (definition : DagDefinition) : Except PyError Parsed := do
  let p ← definition.edges.foldlM addEdge (definition.tasks.foldl addTask empty)
  return p.link

end Parsed

/-- An accepted workflow graph: its fields carry what `DAG._validate` has checked. -/
structure DAG where
  nodes : List DAGNode
  graph : FiniteDigraph TaskId
  keys : nodes.map DAGNode.taskId = graph.nodes
  acyclic : graph.isDirectedAcyclicGraph = true
  rooted : graph.nodes.filter (fun n => graph.inDegree n = 0) ≠ []

namespace DAG

def validate (p : Parsed) : Except PyError DAG :=
  match p.graph.edges.find? (fun e => e.1 ∉ p.graph.nodes ∨ e.2 ∉ p.graph.nodes) with
  | some (u, v) => .error (Parsed.unknownTask u v)
  | none =>
    if hcycle : p.graph.isDirectedAcyclicGraph = true then
      if hroots : p.graph.nodes.filter (fun n => p.graph.inDegree n = 0) ≠ [] then
        .ok ⟨p.nodes, p.graph, p.keys, hcycle, hroots⟩
      else .error (.valueError "DAG must have at least one root task with no dependencies")
    else .error (.valueError "DAG contains a cycle")

/-- `DAG(definition)` -/
def init (definition : DagDefinition) : Except PyError DAG := do
  let p ← Parsed.parse definition
  validate p

/-- The DAG of a definition that is known to be accepted. -/
def ofAccepted (definition : DagDefinition) (h : (init definition).toBool = true) : DAG :=
  match init definition, h with
  | .ok dag, _ => dag

theorem init_ofAccepted (definition : DagDefinition) (h : (init definition).toBool = true) :
    init definition = .ok (ofAccepted definition h) := by
  unfold ofAccepted
  split
  · next dag _ heq _ => exact heq

variable (dag : DAG)

def getReadyTasks (completedIds skippedIds runningIds : Finset TaskId) : List DAGNode :=
  dag.nodes.filter (fun node =>
    let preds := dag.graph.predecessors node.taskId
    ¬ (node.taskId ∈ completedIds ∨ node.taskId ∈ skippedIds ∨ node.taskId ∈ runningIds) ∧
    ¬ (∃ p ∈ preds, p ∈ skippedIds) ∧
    ¬ (preds ≠ [] ∧ ¬ ∀ p ∈ preds, p ∈ completedIds))

/-- The method that the scheduling loop calls and the class does not have: the tasks in neither
set that have predecessors, all of them skipped. -/
def tasksWithAllPredecessorsSkipped (completed skipped : Finset TaskId) : List TaskId :=
  (dag.nodes.filter (fun node =>
    let preds := dag.graph.predecessors node.taskId
    node.taskId ∉ completed ∧ node.taskId ∉ skipped ∧ preds ≠ [] ∧ ∀ p ∈ preds, p ∈ skipped)).map
    DAGNode.taskId

def getExecutionOrder : List (List TaskId) := dag.graph.topologicalGenerations

def getTask (taskId : TaskId) : Except PyError DAGNode :=
  match dag.nodes.find? (fun n => n.taskId = taskId) with
  | some node => .ok node
  | none => .error (.keyError ("Unknown task id: " ++ taskId))

def predecessors (taskId : TaskId) : List TaskId := dag.graph.predecessors taskId

def allTaskIds : Finset TaskId := (dag.nodes.map DAGNode.taskId).toFinset

/-- `nodes[task_id]`, with nothing where Python raises a KeyError. -/
def node? (taskId : TaskId) : Option DAGNode := dag.nodes.find? (fun n => n.taskId = taskId)

def getRootTasks : Option (List DAGNode) :=
  (dag.graph.nodes.filter (fun n => dag.graph.inDegree n = 0)).mapM dag.node?

/-- Nothing stands for the error that networkx raises for an id outside the graph. -/
def getNextTasks (completedTaskId : TaskId) (completedIds : Finset TaskId) : Option (List DAGNode) :=
  if completedTaskId ∈ dag.graph.nodes then
    ((dag.graph.successors completedTaskId).filter (fun succ =>
      let preds := dag.graph.predecessors succ
      preds ≠ [] ∧ ∀ p ∈ preds, p ∈ completedIds)).mapM dag.node?
  else none

/-! ### What the queries return -/

@[simp] theorem mem_allTaskIds {t : TaskId} : t ∈ dag.allTaskIds ↔ t ∈ dag.graph.nodes := by
  rw [allTaskIds, dag.keys, List.mem_toFinset]

theorem card_allTaskIds : dag.allTaskIds.card = dag.nodes.length := by
  rw [allTaskIds, dag.keys, List.toFinset_card_of_nodup dag.graph.nodes_nodup, ← dag.keys,
    List.length_map]

theorem nodes_pos : 0 < dag.nodes.length := by
  rw [← dag.card_allTaskIds, Finset.card_pos]
  obtain ⟨n, hn⟩ := List.exists_mem_of_ne_nil _ dag.rooted
  exact ⟨n, dag.mem_allTaskIds.mpr (List.mem_filter.mp hn).1⟩

theorem getTask_ok {t : TaskId} {node : DAGNode} (h : dag.getTask t = .ok node) :
    node ∈ dag.nodes ∧ node.taskId = t := by
  unfold getTask at h
  split at h
  · next n hn =>
    cases h
    exact ⟨List.mem_of_find?_eq_some hn, by simpa using List.find?_some hn⟩
  · cases h

theorem exists_getTask {t : TaskId} (h : t ∈ dag.graph.nodes) : ∃ node, dag.getTask t = .ok node := by
  rw [← dag.keys] at h
  obtain ⟨node, hnode, rfl⟩ := List.mem_map.mp h
  unfold getTask
  split
  · exact ⟨_, rfl⟩
  · next hn => exact absurd hnode (by simpa using List.find?_eq_none.mp hn node)

theorem mem_nodes_of_getTask {t : TaskId} {node : DAGNode} (h : dag.getTask t = .ok node) :
    t ∈ dag.graph.nodes := by
  obtain ⟨hnode, rfl⟩ := dag.getTask_ok h
  exact dag.keys ▸ List.mem_map_of_mem hnode

theorem getTask_of_mem {node : DAGNode} (h : node ∈ dag.nodes) : dag.getTask node.taskId = .ok node := by
  have hgraph : node.taskId ∈ dag.graph.nodes := dag.keys ▸ List.mem_map_of_mem h
  obtain ⟨other, hother⟩ := dag.exists_getTask hgraph
  obtain ⟨hmem, hid⟩ := dag.getTask_ok hother
  have hnodup : (dag.nodes.map DAGNode.taskId).Nodup := dag.keys ▸ dag.graph.nodes_nodup
  rw [hother, List.inj_on_of_nodup_map hnodup hmem h hid]

theorem node?_eq_some {t : TaskId} {node : DAGNode} :
    dag.node? t = some node ↔ node ∈ dag.nodes ∧ node.taskId = t := by
  constructor
  · intro h
    exact ⟨List.mem_of_find?_eq_some h, by simpa using List.find?_some h⟩
  · rintro ⟨hnode, rfl⟩
    have h := dag.getTask_of_mem hnode
    unfold getTask at h
    unfold node?
    split at h
    · next other hother =>
      cases h
      exact hother
    · cases h

/-- Looking up known ids gives their nodes, in the same order. -/
theorem mapM_node? {ids : List TaskId} (h : ∀ t ∈ ids, t ∈ dag.graph.nodes) :
    ∃ nodes, ids.mapM dag.node? = some nodes ∧ nodes.map DAGNode.taskId = ids ∧
      ∀ node, node ∈ nodes ↔ node ∈ dag.nodes ∧ node.taskId ∈ ids := by
  induction ids with
  | nil => exact ⟨[], rfl, rfl, by simp⟩
  | cons t ids ih =>
    obtain ⟨ht, hids⟩ := List.forall_mem_cons.mp h
    obtain ⟨nodes, hnodes, hkeys, hmem⟩ := ih hids
    obtain ⟨node, hnode⟩ := dag.exists_getTask ht
    obtain ⟨hin, hid⟩ := dag.getTask_ok hnode
    refine ⟨node :: nodes, ?_, by rw [List.map_cons, hid, hkeys], fun other => ?_⟩
    · rw [List.mapM_cons, dag.node?_eq_some.mpr ⟨hin, hid⟩, hnodes]
      rfl
    · rw [List.mem_cons, hmem, List.mem_cons]
      constructor
      · rintro (rfl | ⟨hother, hids⟩)
        · exact ⟨hin, Or.inl hid⟩
        · exact ⟨hother, Or.inr hids⟩
      · rintro ⟨hother, hsame | hids⟩
        · have h := dag.node?_eq_some.mpr ⟨hother, hsame⟩
          rw [dag.node?_eq_some.mpr ⟨hin, hid⟩] at h
          exact Or.inl (Option.some.inj h).symm
        · exact Or.inr ⟨hother, hids⟩

def readyIds (completed skipped : Finset TaskId) : List TaskId :=
  (dag.getReadyTasks completed skipped ∅).map DAGNode.taskId

theorem readyIds_nodup (completed skipped : Finset TaskId) : (dag.readyIds completed skipped).Nodup := by
  have hkeys : (dag.nodes.map DAGNode.taskId).Nodup := dag.keys ▸ dag.graph.nodes_nodup
  exact hkeys.sublist (List.filter_sublist.map _)

theorem mem_readyIds {completed skipped : Finset TaskId} {t : TaskId} :
    t ∈ dag.readyIds completed skipped ↔
      t ∈ dag.graph.nodes ∧ t ∉ completed ∧ t ∉ skipped ∧
      (∀ p ∈ dag.predecessors t, p ∉ skipped) ∧ ∀ p ∈ dag.predecessors t, p ∈ completed := by
  simp only [readyIds, getReadyTasks, List.mem_map, List.mem_filter, ← dag.keys, predecessors]
  constructor
  · rintro ⟨node, ⟨hnode, h⟩, rfl⟩
    simp only [decide_eq_true_eq] at h
    refine ⟨⟨node, hnode, rfl⟩, fun hc => h.1 (Or.inl hc), fun hs => h.1 (Or.inr (Or.inl hs)),
      fun p hp hs => h.2.1 ⟨p, hp, hs⟩, ?_⟩
    intro p hp
    by_contra hpc
    exact h.2.2 ⟨List.ne_nil_of_mem hp, fun hall => hpc (hall p hp)⟩
  · rintro ⟨⟨node, hnode, rfl⟩, hc, hs, hps, hpc⟩
    refine ⟨node, ⟨hnode, ?_⟩, rfl⟩
    simp only [decide_eq_true_eq]
    refine ⟨by simp [hc, hs], ?_, fun h => h.2 hpc⟩
    rintro ⟨p, hp, hin⟩
    exact hps p hp hin

theorem mem_tasksWithAllPredecessorsSkipped {completed skipped : Finset TaskId} {t : TaskId} :
    t ∈ dag.tasksWithAllPredecessorsSkipped completed skipped ↔
      t ∈ dag.graph.nodes ∧ t ∉ completed ∧ t ∉ skipped ∧
      dag.predecessors t ≠ [] ∧ ∀ p ∈ dag.predecessors t, p ∈ skipped := by
  simp only [tasksWithAllPredecessorsSkipped, List.mem_map, List.mem_filter, ← dag.keys,
    predecessors]
  constructor
  · rintro ⟨node, ⟨hnode, h⟩, rfl⟩
    exact ⟨⟨node, hnode, rfl⟩, by simpa using h⟩
  · rintro ⟨⟨node, hnode, rfl⟩, h⟩
    exact ⟨node, ⟨hnode, by simpa using h⟩, rfl⟩

/-- Without skipped tasks, no task has only skipped predecessors. -/
theorem tasksWithAllPredecessorsSkipped_empty (completed : Finset TaskId) :
    dag.tasksWithAllPredecessorsSkipped completed ∅ = [] := by
  rw [List.eq_nil_iff_forall_not_mem]
  intro t ht
  obtain ⟨_, _, _, hne, hall⟩ := dag.mem_tasksWithAllPredecessorsSkipped.mp ht
  obtain ⟨p, hp⟩ := List.exists_mem_of_ne_nil _ hne
  exact Finset.notMem_empty p (hall p hp)

/-- With nothing skipped, the ready tasks are the ready nodes of the graph. -/
theorem mem_readyIds_empty {completed : Finset TaskId} {t : TaskId} :
    t ∈ dag.readyIds completed ∅ ↔ dag.graph.Ready (completed : Set TaskId) t := by
  rw [mem_readyIds]
  simp only [FiniteDigraph.Ready, predecessors, Finset.notMem_empty, not_false_eq_true,
    implies_true, true_and, Finset.mem_coe]

/-- As long as some task is unsettled, one of them has all its predecessors settled. -/
theorem exists_minimal_unsettled (settled : Finset TaskId) {t : TaskId} (ht : t ∈ dag.graph.nodes)
    (hs : t ∉ settled) :
    ∃ w ∈ dag.graph.nodes, w ∉ settled ∧ ∀ p ∈ dag.predecessors w, p ∈ settled := by
  obtain ⟨w, hw, hws, hp⟩ := FiniteDigraph.exists_ready dag.acyclic ht
    (show t ∉ (settled : Set TaskId) by simpa using hs)
  exact ⟨w, hw, by simpa using hws, fun p h => Finset.mem_coe.mp (hp p h)⟩

end DAG

/-! ### What an accepted definition becomes -/

def DAGNode.unlinked (node : DAGNode) : DAGNode := { node with dependencies := [], dependents := [] }

def EdgeConfig.ends (e : EdgeConfig) : TaskId × TaskId := (e.fromTask, e.toTask)

namespace Parsed
variable {p q : Parsed} {es : List EdgeConfig}

/-- Adding edges keeps the nodes, and every edge has known ends. -/
theorem foldlM_addEdge (h : es.foldlM addEdge p = .ok q) : q.nodes = p.nodes ∧
    q.graph.nodes = p.graph.nodes ∧
    (∀ e, e ∈ q.graph.edges ↔ e ∈ p.graph.edges ∨ e ∈ es.map EdgeConfig.ends) ∧
    ∀ e ∈ es, e.fromTask ∈ p.graph.nodes ∧ e.toTask ∈ p.graph.nodes := by
  induction es generalizing p with
  | nil =>
    cases h
    simp
  | cons e es ih =>
    rw [List.foldlM_cons, addEdge] at h
    split at h
    · next hknown =>
      obtain ⟨hnodes, hgraph, hedges, hends⟩ := ih h
      simp only [FiniteDigraph.addEdge_nodes, FiniteDigraph.mem_addEdge] at hgraph hedges hends
      refine ⟨hnodes, hgraph, fun a => ?_, List.forall_mem_cons.mpr ⟨hknown, hends⟩⟩
      rw [hedges, List.map_cons, List.mem_cons, or_assoc]
      rfl
    · cases h

theorem exists_foldlM_addEdge (p : Parsed)
    (h : ∀ e ∈ es, e.fromTask ∈ p.graph.nodes ∧ e.toTask ∈ p.graph.nodes) :
    ∃ q, es.foldlM addEdge p = .ok q := by
  induction es generalizing p with
  | nil => exact ⟨p, rfl⟩
  | cons e es ih =>
    obtain ⟨hknown, hends⟩ := List.forall_mem_cons.mp h
    rw [List.foldlM_cons, addEdge, dif_pos hknown]
    refine ih _ (fun e he => ?_)
    rw [FiniteDigraph.addEdge_nodes]
    exact hends e he

theorem foldl_addTask_edges (tasks : List TaskConfig) (p : Parsed) :
    (tasks.foldl addTask p).graph.edges = p.graph.edges := by
  induction tasks generalizing p with
  | nil => rfl
  | cons t tasks ih =>
    rw [List.foldl_cons, ih]
    simp only [addTask, FiniteDigraph.addNode]
    split <;> rfl

end Parsed

namespace DAG
variable {definition : DagDefinition} {dag : DAG}

/-- What the constructor has parsed and checked. -/
theorem init_ok (h : init definition = .ok dag) : ∃ q,
    definition.edges.foldlM Parsed.addEdge (definition.tasks.foldl Parsed.addTask .empty) = .ok q ∧
    dag.nodes = q.link.nodes ∧ dag.graph = q.graph := by
  unfold init Parsed.parse at h
  cases hq : definition.edges.foldlM Parsed.addEdge (definition.tasks.foldl Parsed.addTask .empty) with
  | error e =>
    rw [hq] at h
    cases h
  | ok q =>
    rw [hq] at h
    change validate q.link = .ok dag at h
    unfold validate at h
    repeat' split at h
    all_goals first
      | cases h; done
      | (cases h; exact ⟨q, rfl, rfl, rfl⟩)

/-- The edges of a DAG are those of its definition. -/
theorem mem_edges (h : init definition = .ok dag) (e : TaskId × TaskId) :
    e ∈ dag.graph.edges ↔ e ∈ definition.edges.map EdgeConfig.ends := by
  obtain ⟨q, hq, _, hgraph⟩ := init_ok h
  rw [hgraph, (Parsed.foldlM_addEdge hq).2.2.1, Parsed.foldl_addTask_edges]
  simp [Parsed.empty, FiniteDigraph.empty]

/-- The checks pass for every acyclic graph with a root: its edges have known ends by construction. -/
theorem exists_validate {p : Parsed} (hacyclic : p.graph.isDirectedAcyclicGraph = true)
    {root : TaskId} (hroot : root ∈ p.graph.nodes) (hdegree : p.graph.inDegree root = 0) :
    ∃ dag, validate p = .ok dag ∧ dag.nodes = p.nodes := by
  have hknown : p.graph.edges.find? (fun e => e.1 ∉ p.graph.nodes ∨ e.2 ∉ p.graph.nodes) = none := by
    rw [List.find?_eq_none]
    intro e he
    simp [p.graph.source_mem e he, p.graph.target_mem e he]
  have hroots : p.graph.nodes.filter (fun n => p.graph.inDegree n = 0) ≠ [] :=
    List.ne_nil_of_mem (List.mem_filter.mpr ⟨hroot, by simpa using hdegree⟩)
  refine ⟨⟨p.nodes, p.graph, p.keys, hacyclic, hroots⟩, ?_, rfl⟩
  unfold validate
  rw [hknown]
  simp only [hacyclic, hroots, dif_pos, ne_eq, not_false_eq_true]

/-- A definition with the same tasks and the same pairs of ends is accepted, too, with the same
nodes. -/
theorem init_congr {other : DagDefinition} (h : init definition = .ok dag)
    (htasks : other.tasks = definition.tasks)
    (hends : ∀ e, e ∈ other.edges.map EdgeConfig.ends ↔ e ∈ definition.edges.map EdgeConfig.ends) :
    ∃ dag', init other = .ok dag' ∧
      dag'.nodes.map DAGNode.unlinked = dag.nodes.map DAGNode.unlinked := by
  obtain ⟨q, hq, hnodes, hgraph⟩ := init_ok h
  obtain ⟨hqnodes, hqgraph, hqedges, hqends⟩ := Parsed.foldlM_addEdge hq
  have hknown : ∀ e ∈ other.edges,
      e.fromTask ∈ (other.tasks.foldl Parsed.addTask .empty).graph.nodes ∧
      e.toTask ∈ (other.tasks.foldl Parsed.addTask .empty).graph.nodes := by
    intro e he
    obtain ⟨e', he', hsame⟩ := List.mem_map.mp ((hends _).mp (List.mem_map_of_mem he))
    obtain ⟨hfrom, hto⟩ := Prod.mk.inj hsame
    rw [htasks, ← hfrom, ← hto]
    exact hqends e' he'
  obtain ⟨q', hq'⟩ := Parsed.exists_foldlM_addEdge _ hknown
  obtain ⟨hqnodes', hqgraph', hqedges', -⟩ := Parsed.foldlM_addEdge hq'
  rw [htasks] at hqnodes' hqgraph' hqedges'
  have hsame (e) : e ∈ q'.graph.edges ↔ e ∈ q.graph.edges := by rw [hqedges', hqedges, hends]
  have hgraphs : q'.graph.nodes = q.graph.nodes := hqgraph'.trans hqgraph.symm
  obtain ⟨root, hroot⟩ := List.exists_mem_of_ne_nil _ dag.rooted
  obtain ⟨hmem, hdegree⟩ := List.mem_filter.mp hroot
  rw [decide_eq_true_eq, FiniteDigraph.inDegree_eq_zero] at hdegree
  rw [hgraph] at hmem hdegree
  have hacyclic : q'.link.graph.isDirectedAcyclicGraph = true :=
    q.graph.isDirectedAcyclicGraph_congr (fun v => by rw [← hgraphs]; rfl) hsame (hgraph ▸ dag.acyclic)
  obtain ⟨dag', hdag', hnodes'⟩ := exists_validate hacyclic
    (show root ∈ q'.graph.nodes from hgraphs ▸ hmem)
    (FiniteDigraph.inDegree_eq_zero _ |>.mpr (fun u hu => hdegree u ((hsame _).mp hu)))
  refine ⟨dag', ?_, ?_⟩
  · unfold init Parsed.parse
    rw [hq']
    exact hdag'
  · rw [hnodes', hnodes, Parsed.link, Parsed.link, List.map_map, List.map_map, hqnodes, hqnodes']
    rfl

end DAG
end BackendProjects.Workflow
