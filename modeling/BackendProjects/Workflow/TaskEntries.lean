import BackendProjects.Workflow.Coverage

/-! The entries of a definition and the nodes that stand for them. A node lives under the id of its entry,
and an entry with an id that is there already takes the place of the earlier one. -/
namespace BackendProjects.Workflow
open Library

structure TaskConfig.Becomes (t : TaskConfig) (node : DAGNode) : Prop where
  taskId : node.taskId = t.id
  taskType : node.taskType = t.type
  taskName : node.taskName = t.name
  config : node.config = t.config
  retryConfig : node.retryConfig = t.retry
  timeoutSeconds : node.timeoutSeconds = t.timeoutSeconds.getD 300

/-- The nodes and the entries correspond one to one. -/
def DagDefinition.Corresponds (definition : DagDefinition) (dag : DAG) : Prop :=
  ∃ nodes, nodes.Perm dag.nodes ∧ List.Forall₂ TaskConfig.Becomes definition.tasks nodes

/-- Every run of steps that meet `SettlesOnce` and that sets the status to completed has settled as many
tasks as the definition lists. -/
def DagDefinition.CountedByRuns (definition : DagDefinition) (dag : DAG) : Prop :=
  ∀ (E : Engine) (answers : Answers) (db : Database) (s s' : RunState), E.dag = dag →
    Run (Where (SettlesOnce E) (Interleaved E answers)) (.start E db) s →
    Step E answers s s' → Completes s s' →
    s'.completed.card = definition.tasks.length - s'.skipped.card

namespace Parsed
variable {p : Parsed} {tasks : List TaskConfig}

/-- Entries with new ids are appended. -/
theorem foldl_addTask_nodes (h : (p.nodes.map DAGNode.taskId ++ tasks.map TaskConfig.id).Nodup) :
    (tasks.foldl addTask p).nodes = p.nodes ++ tasks.map .ofTask := by
  induction tasks generalizing p with
  | nil => simp
  | cons t tasks ih =>
    have hnew : t.id ∉ p.nodes.map DAGNode.taskId := fun hin =>
      (List.nodup_append.mp h).2.2 _ hin _ List.mem_cons_self rfl
    have hnodes : (addTask p t).nodes = p.nodes ++ [.ofTask t] := if_neg hnew
    rw [List.foldl_cons, ih, hnodes, List.map_cons, List.append_assoc, List.singleton_append]
    rw [hnodes, List.map_append, List.append_assoc]
    exact h

end Parsed

namespace DAG
variable {definition : DagDefinition} {dag : DAG}

/-- The nodes of an accepted definition are those of its tasks, with their neighbours filled in. -/
theorem nodes_linked (h : init definition = .ok dag) : dag.nodes =
    (definition.tasks.foldl Parsed.addTask .empty).nodes.map (fun n =>
      { n with
        dependencies := dag.graph.predecessors n.taskId
        dependents := dag.graph.successors n.taskId }) := by
  obtain ⟨q, hq, hnodes, hgraph⟩ := init_ok h
  rw [hnodes, hgraph, ← (Parsed.foldlM_addEdge hq).1]
  rfl

private theorem corresponds_iff (h : init definition = .ok dag) :
    definition.Corresponds dag ↔ (definition.tasks.map TaskConfig.id).Nodup := by
  constructor
  · rintro ⟨nodes, hperm, hall⟩
    have hkeys : definition.tasks.map TaskConfig.id = nodes.map DAGNode.taskId := by
      rw [← List.forall₂_eq_eq_eq, List.forall₂_map_left_iff, List.forall₂_map_right_iff]
      exact hall.imp (fun _ _ hbecomes => hbecomes.taskId.symm)
    rw [hkeys, (hperm.map DAGNode.taskId).nodup_iff, dag.keys]
    exact dag.graph.nodes_nodup
  · intro hnodup
    refine ⟨dag.nodes, .refl _, ?_⟩
    rw [nodes_linked h, Parsed.foldl_addTask_nodes (by simpa [Parsed.empty] using hnodup)]
    rw [List.forall₂_map_right_iff, Parsed.empty, List.nil_append, List.forall₂_map_right_iff,
      List.forall₂_same]
    exact fun t _ => ⟨rfl, rfl, rfl, rfl, rfl, rfl⟩

end DAG

/-- Two disjoint sets that count as many tasks as there are count them exactly. -/
private theorem Settled.card_add {E : Engine} {s : RunState} (inv : Settled E s)
    (h : E.dag.nodes.length ≤ s.completed.card + s.skipped.card) :
    s.completed.card + s.skipped.card = E.dag.nodes.length := by
  have hdisj : Disjoint s.completed s.skipped := Finset.disjoint_left.mpr inv.disjoint
  refine Nat.le_antisymm ?_ h
  rw [← E.dag.card_allTaskIds, ← Finset.card_union_of_disjoint hdisj]
  exact Finset.card_le_card (Finset.union_subset inv.completed inv.skipped)

/-- The entries of an accepted definition all become nodes, and the runs that settle each task once count
them all, exactly when no two of them have the same id. -/
theorem every_entry_becomes_a_node_iff {definition : DagDefinition} {dag : DAG}
    (h : DAG.init definition = .ok dag) :
    definition.Corresponds dag ∧ definition.CountedByRuns dag ↔
      (definition.tasks.map TaskConfig.id).Nodup := by
  refine ⟨fun hall => (DAG.corresponds_iff h).mp hall.1, fun hnodup => ?_⟩
  have hcorresponds := (DAG.corresponds_iff h).mpr hnodup
  refine ⟨hcorresponds, ?_⟩
  rintro E answers db s s' rfl run hstep hcompletes
  obtain ⟨nodes, hperm, hall⟩ := hcorresponds
  obtain ⟨inv, hfinal, hc, hs⟩ := settled_at_completion run hstep hcompletes
  have hcount : s.completed.card + s.skipped.card = definition.tasks.length := by
    rw [inv.card_add hfinal, ← hperm.length_eq, hall.length_eq]
  rw [hc, hs]
  exact Nat.eq_sub_of_add_eq hcount

theorem every_entry_becomes_a_node_iff_chain :
    chainDefinition.Corresponds (.ofAccepted chainDefinition (by decide)) ∧
      chainDefinition.CountedByRuns (.ofAccepted chainDefinition (by decide)) :=
  (every_entry_becomes_a_node_iff (DAG.init_ofAccepted chainDefinition (by decide))).mpr (by decide)

def twiceDefinition : DagDefinition where
  tasks := [⟨"a", "http", "Charge", [], none, none⟩, ⟨"a", "delay", "Wait", [], none, some 5⟩]

/-- The later entry is the only one that is left. -/
theorem later_entry_replaces_the_earlier : ∃ dag, DAG.init twiceDefinition = .ok dag ∧
    dag.nodes.map DAGNode.taskName = ["Wait"] ∧ ¬ twiceDefinition.Corresponds dag := by
  refine ⟨.ofAccepted twiceDefinition (by decide), DAG.init_ofAccepted _ _, by decide, ?_⟩
  rw [DAG.corresponds_iff (DAG.init_ofAccepted twiceDefinition (by decide))]
  decide

end BackendProjects.Workflow
