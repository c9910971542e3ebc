import BackendProjects.Workflow.Schemas

/-! A workflow definition from the request to the executor: what is stored is a dump under field
names, and what runs is the DAG rebuilt from that dump. -/
namespace BackendProjects.Workflow.Schemas
open Library Json

structure WorkflowDefinition where
  dagDefinition : Json
  version : Nat

section Services
variable (lax : Json → Option Int)

/-- `create_workflow`: the dump is validated once more before it is stored. -/
def createWorkflow (data : DagDefinition) : Option WorkflowDefinition := do
  let _ ← DagDefinition.modelValidate lax data.modelDump
  let _ ← (DAG.init data.core).toOption
  return ⟨data.modelDump, 1⟩

/-- `update_workflow`, where a request without a definition leaves the stored one. -/
def updateWorkflow (wf : WorkflowDefinition) : Option DagDefinition → Option WorkflowDefinition
  | none => some wf
  | some data => do
      let _ ← (DAG.init data.core).toOption
      return ⟨data.modelDump, wf.version + 1⟩

/-- What the executor makes of a row: the definition it reads and the DAG it builds from it. -/
def WorkflowDefinition.rebuild (wf : WorkflowDefinition) : Option (DagDefinition × DAG) := do
  let definition ← DagDefinition.modelValidate lax wf.dagDefinition
  let dag ← (DAG.init definition.core).toOption
  return (definition, dag)

def DagDefinition.retryConfigs (d : DagDefinition) : List (TaskId × Option Json) :=
  d.tasks.map (fun t => (t.id, t.retry.map RetryConfig.modelDump))

/-- The row is rebuilt to the nodes and the edges that were validated. -/
def RunsAsValidated (data : DagDefinition) (wf : WorkflowDefinition) : Prop :=
  ∃ validated definition rebuilt, DAG.init data.core = .ok validated ∧
    wf.rebuild lax = some (definition, rebuilt) ∧
    rebuilt.nodes.map DAGNode.unlinked = validated.nodes.map DAGNode.unlinked ∧
    definition.retryConfigs = data.retryConfigs ∧
    ∀ e, e ∈ rebuilt.graph.edges ↔ e ∈ validated.graph.edges

end Services

/-! ### The ends of an edge -/

def edgeObjects : Json → List Members
  | .obj o =>
    match o.lookup "edges" with
    | some (.arr xs) => xs.filterMap asDict
    | _ => []
  | _ => []

def endsByAlias (o : Members) : Option Json × Option Json :=
  ((o.lookup "from").or (o.lookup "from_task"), (o.lookup "to").or (o.lookup "to_task"))

def endsByName (o : Members) : Option Json × Option Json :=
  ((o.lookup "from_task").or (o.lookup "from"), (o.lookup "to_task").or (o.lookup "to"))

def written (ends : TaskId × TaskId) : Option Json × Option Json :=
  (some (.str ends.1), some (.str ends.2))

/-- The ends in the dump of an edge, where an extra key hides a field of its name. -/
def EdgeConfig.storedEnds (e : EdgeConfig) : Option Json × Option Json :=
  ((e.extra.lookup "from_task").or (some (.str e.fromTask)),
    (e.extra.lookup "to_task").or (some (.str e.toTask)))

def EdgeConfig.ends (e : EdgeConfig) : TaskId × TaskId := e.core.ends

private theorem written_injective : Function.Injective written := by
  rintro ⟨a, b⟩ ⟨c, d⟩ h
  simpa [written] using h

private theorem asStr_eq_some {j : Json} {s : String} : asStr j = some s ↔ j = .str s := by
  cases j <;> simp [asStr]

/-- A required text that is read under the chosen of two keys. -/
theorem lookup_of_field_chosen {o : Members} {first second text : String}
    (h : field o (o.chosen first second) asStr none = some text) :
    (o.lookup first).or (o.lookup second) = some (.str text) := by
  rw [← Members.lookup_chosen]
  unfold field at h
  split at h
  · next value hvalue => rw [hvalue, asStr_eq_some.mp h]
  · cases h

/-- What a dump has under a name: the extra key if the alias was read, else the field. -/
theorem stored_end {o : Members} {first second : String} {keys : List String} {j : Json}
    (hkeys : second ∈ keys ↔ o.chosen first second = second)
    (h : (o.lookup first).or (o.lookup second) = some j) (hne : first ≠ second) :
    ((o.without keys).lookup second).or (some j) = (o.lookup second).or (o.lookup first) := by
  cases hfirst : o.lookup first with
  | some value =>
    have hchosen : o.chosen first second = first := if_pos (by simp [hfirst])
    rw [hfirst, Option.some_or] at h
    rw [Members.lookup_without_of_notMem (fun hin => hne (hchosen ▸ hkeys.mp hin)), h]
  | none =>
    have hchosen : o.chosen first second = second := if_neg (by simp [hfirst])
    rw [hfirst, Option.none_or] at h
    rw [Members.lookup_without_of_mem (hkeys.mpr hchosen), h, Option.none_or, Option.some_or]

private theorem EdgeConfig.of_modelValidate {j : Json} {e : EdgeConfig} (h : modelValidate j = some e) :
    ∃ o, j = .obj o ∧ endsByAlias o = written e.ends ∧ endsByName o = e.storedEnds := by
  cases j <;> simp only [modelValidate, reduceCtorEq] at h
  next o =>
  simp only [Option.pure_def, Option.bind_eq_bind, Option.bind_eq_some_iff, Option.some.injEq] at h
  obtain ⟨fromTask, hfrom, toTask, hto, condition, -, rfl⟩ := h
  have hfrom := lookup_of_field_chosen hfrom
  have hto := lookup_of_field_chosen hto
  refine ⟨o, rfl, Prod.ext hfrom hto, Prod.ext ?_ ?_⟩
  · refine (stored_end ?_ hfrom (by decide)).symm
    rcases Members.chosen_eq_or (o := o) "to" "to_task" with hother | hother <;>
      simp [edgeKeys, hother, eq_comm]
  · refine (stored_end ?_ hto (by decide)).symm
    rcases Members.chosen_eq_or (o := o) "from" "from_task" with hother | hother <;>
      simp [edgeKeys, hother, eq_comm]

/-- A dump has no alias, so its ends are read under their names. -/
theorem field_stored_end {fields extra : Members} {first second text : String}
    (hfirst : fields.lookup first = none) (hextra : extra.lookup first = none)
    (hsecond : fields.lookup second = some (.str text)) :
    field (fields.overlay extra) (Members.chosen (fields.overlay extra) first second) asStr none =
      ((extra.lookup second).or (some (.str text))).bind asStr := by
  rw [field, Members.lookup_chosen, Members.lookup_overlay, Members.lookup_overlay, hfirst, hextra, hsecond]
  cases extra.lookup second <;> rfl

/-- A dumped edge is read with its stored ends, where these are texts. -/
private theorem EdgeConfig.modelValidate_modelDump (e : EdgeConfig) (p : TaskId × TaskId) :
    (∃ e', modelValidate e.modelDump = some e' ∧ e'.ends = p) ↔ e.storedEnds = written p := by
  have hfrom : e.extra.lookup "from" = none := e.free "from" (by simp)
  have hto : e.extra.lookup "to" = none := e.free "to" (by simp)
  have hcondition : e.extra.lookup "condition" = none := e.free "condition" (by simp)
  simp only [modelDump, modelValidate]
  rw [field_overlay hcondition rfl, optional_nullable asStr .str (fun _ => rfl) (fun _ => by simp),
    field_stored_end rfl hfrom rfl, field_stored_end rfl hto rfl]
  simp only [Option.pure_def, Option.bind_eq_bind, Option.bind_some, Option.bind_eq_some_iff,
    asStr_eq_some, Option.some.injEq, written, storedEnds, Prod.ext_iff, ends, core, Workflow.EdgeConfig.ends]
  constructor
  · rintro ⟨e', ⟨fromTask, ⟨_, hfrom, rfl⟩, toTask, ⟨_, hto, rfl⟩, rfl⟩, rfl, rfl⟩
    exact ⟨hfrom, hto⟩
  · rintro ⟨hfrom, hto⟩
    exact ⟨_, ⟨p.1, ⟨_, hfrom, rfl⟩, p.2, ⟨_, hto, rfl⟩, rfl⟩, rfl, rfl⟩

/-! ### The definition -/

private theorem mapM_of_asList {α : Type} {read : Json → Option α} {j : Json} {as : List α}
    (h : asList read j = some as) : ∃ xs, j = .arr xs ∧ xs.mapM read = some as := by
  cases j <;> simp only [asList, reduceCtorEq] at h
  exact ⟨_, rfl, h⟩

/-- The ends in a list of edge objects that is read. -/
theorem edge_ends_of_mapM {xs : List Json} {edges : List EdgeConfig}
    (h : xs.mapM EdgeConfig.modelValidate = some edges) :
    (xs.filterMap asDict).map endsByAlias = edges.map (fun e => written e.ends) ∧
    (xs.filterMap asDict).map endsByName = edges.map EdgeConfig.storedEnds := by
  induction xs generalizing edges with
  | nil =>
    cases h
    exact ⟨rfl, rfl⟩
  | cons x xs ih =>
    rw [List.mapM_cons] at h
    simp only [Option.pure_def, Option.bind_eq_bind, Option.bind_eq_some_iff, Option.some.injEq] at h
    obtain ⟨e, he, rest, hrest, rfl⟩ := h
    obtain ⟨o, rfl, halias, hname⟩ := EdgeConfig.of_modelValidate he
    obtain ⟨haliases, hnames⟩ := ih hrest
    simp [asDict, halias, hname, haliases, hnames]

variable {lax : Json → Option Int}

/-- The ends in a request that is read, by alias and by name. -/
private theorem DagDefinition.ends_of_modelValidate {body : Json} {data : DagDefinition}
    (h : modelValidate lax body = some data) :
    (edgeObjects body).map endsByAlias = data.edges.map (fun e => written e.ends) ∧
    (edgeObjects body).map endsByName = data.edges.map EdgeConfig.storedEnds := by
  cases body <;> simp only [modelValidate, reduceCtorEq] at h
  next o =>
  simp only [Option.pure_def, Option.bind_eq_bind, Option.bind_eq_some_iff, Option.some.injEq] at h
  obtain ⟨tasks, -, edges, hedges, rfl⟩ := h
  unfold field at hedges
  unfold edgeObjects
  cases hlookup : o.lookup "edges" with
  | none =>
    rw [hlookup] at hedges
    cases hedges
    simp [hlookup]
  | some value =>
    rw [hlookup] at hedges
    obtain ⟨xs, rfl, hxs⟩ := mapM_of_asList hedges
    simpa [hlookup] using edge_ends_of_mapM hxs

/-- The dumps of a list of edges are read with their stored ends. -/
theorem mapM_modelDump (edges : List EdgeConfig) (ends : List (TaskId × TaskId)) :
    (∃ reread, (edges.map EdgeConfig.modelDump).mapM EdgeConfig.modelValidate = some reread ∧
      reread.map EdgeConfig.ends = ends) ↔ edges.map EdgeConfig.storedEnds = ends.map written := by
  induction edges generalizing ends with
  | nil => simp [eq_comm]
  | cons e edges ih =>
    simp only [List.map_cons, List.mapM_cons, Option.pure_def, Option.bind_eq_bind,
      Option.bind_eq_some_iff, Option.some.injEq]
    constructor
    · rintro ⟨_, ⟨e', he', rest, hrest, rfl⟩, rfl⟩
      rw [List.map_cons, List.map_cons, (e.modelValidate_modelDump e'.ends).mp ⟨e', he', rfl⟩,
        (ih (rest.map EdgeConfig.ends)).mp ⟨rest, hrest, rfl⟩]
    · intro h
      cases ends with
      | nil => simp at h
      | cons p ends =>
        obtain ⟨hhead, htail⟩ := List.cons.inj h
        obtain ⟨e', he', rfl⟩ := (e.modelValidate_modelDump p).mpr hhead
        obtain ⟨rest, hrest, rfl⟩ := (ih ends).mpr htail
        exact ⟨_, ⟨e', he', rest, hrest, rfl⟩, rfl⟩

/-- Of a dumped definition everything but the edges is read as it was written. -/
private theorem DagDefinition.modelValidate_modelDump (d : DagDefinition) : modelValidate lax d.modelDump =
    ((d.edges.map EdgeConfig.modelDump).mapM EdgeConfig.modelValidate).map
      (fun edges => { d with edges := edges }) := by
  have hfree {key : String} (h : key ∈ dagKeys) := d.free key h
  simp only [modelDump, modelValidate]
  rw [field_overlay (hfree (by simp [dagKeys])) rfl, field_overlay (hfree (by simp [dagKeys])) rfl,
    asList_map (fun t _ => t.modelValidate_modelDump)]
  simp only [asList, Option.pure_def, Option.bind_eq_bind, Option.bind_some]
  have hextra : (Members.overlay [("tasks", .arr (d.tasks.map TaskConfig.modelDump)),
      ("edges", .arr (d.edges.map EdgeConfig.modelDump))] d.extra).without dagKeys = d.extra :=
    extra_overlay (by simp [dagKeys]) (fun _ h => hfree h)
  simp only [hextra]
  cases (d.edges.map EdgeConfig.modelDump).mapM EdgeConfig.modelValidate <;> rfl

/-! ### What is validated is what runs -/

private theorem toOption_eq_some {α : Type} {x : Except PyError α} {a : α} : x.toOption = some a ↔ x = .ok a := by
  cases x <;> simp [Except.toOption]

private theorem DagDefinition.core_ends (d : DagDefinition) :
    d.core.edges.map Workflow.EdgeConfig.ends = d.edges.map EdgeConfig.ends := by
  rw [core, List.map_map]
  rfl

private theorem DagDefinition.mem_edges {d : DagDefinition} {dag : DAG} (h : DAG.init d.core = .ok dag)
    (e : TaskId × TaskId) : e ∈ dag.graph.edges ↔ e ∈ d.edges.map EdgeConfig.ends := by
  rw [DAG.mem_edges h, core_ends]

/-- Both services store the dump of a definition whose DAG they have built. -/
theorem stored {data : DagDefinition} {wf : WorkflowDefinition}
    (h : createWorkflow lax data = some wf ∨ ∃ before, updateWorkflow before (some data) = some wf) :
    (∃ dag, DAG.init data.core = .ok dag) ∧ wf.dagDefinition = data.modelDump := by
  rcases h with h | ⟨before, h⟩
  · simp only [createWorkflow, Option.pure_def, Option.bind_eq_bind, Option.bind_eq_some_iff,
      Option.some.injEq] at h
    obtain ⟨_, _, dag, hdag, rfl⟩ := h
    exact ⟨⟨dag, toOption_eq_some.mp hdag⟩, rfl⟩
  · simp only [updateWorkflow, Option.pure_def, Option.bind_eq_bind, Option.bind_eq_some_iff,
      Option.some.injEq] at h
    obtain ⟨dag, hdag, rfl⟩ := h
    exact ⟨⟨dag, toOption_eq_some.mp hdag⟩, rfl⟩

/-- A stored dump is rebuilt from what its edges are read as. -/
theorem rebuild_eq_some {data definition : DagDefinition} {wf : WorkflowDefinition} {rebuilt : DAG}
    (hdump : wf.dagDefinition = data.modelDump) : wf.rebuild lax = some (definition, rebuilt) ↔
      ∃ reread, (data.edges.map EdgeConfig.modelDump).mapM EdgeConfig.modelValidate = some reread ∧
        definition = { data with edges := reread } ∧ DAG.init definition.core = .ok rebuilt := by
  simp only [WorkflowDefinition.rebuild, hdump, DagDefinition.modelValidate_modelDump, Option.pure_def,
    Option.bind_eq_bind, Option.bind_eq_some_iff, Option.map_eq_some_iff, Option.some.injEq, Prod.mk.injEq,
    toOption_eq_some]
  constructor
  · rintro ⟨_, ⟨reread, hreread, rfl⟩, dag, hdag, rfl, rfl⟩
    exact ⟨reread, hreread, rfl, hdag⟩
  · rintro ⟨reread, hreread, rfl, hdag⟩
    exact ⟨_, ⟨reread, hreread, rfl⟩, rebuilt, hdag, rfl, rfl⟩

/-- A row is rebuilt to what was validated if and only if the request's edges have the same ends
with the names of the ends before their aliases as with the aliases first. -/
theorem runs_as_validated_iff {body : Json} {data : DagDefinition} {wf : WorkflowDefinition}
    (hread : DagDefinition.modelValidate lax body = some data)
    (hstored : createWorkflow lax data = some wf ∨ ∃ before, updateWorkflow before (some data) = some wf) :
    RunsAsValidated lax data wf ↔
      ∀ ends, ends ∈ (edgeObjects body).map endsByName ↔ ends ∈ (edgeObjects body).map endsByAlias := by
  obtain ⟨⟨validated, hvalidated⟩, hdump⟩ := stored hstored
  obtain ⟨halias, hname⟩ := DagDefinition.ends_of_modelValidate hread
  have hwritten : data.edges.map (fun e => written e.ends) = (data.edges.map EdgeConfig.ends).map written := by
    rw [List.map_map]
    rfl
  rw [halias, hname, hwritten]
  constructor
  · rintro ⟨_, definition, rebuilt, hagain, hrebuild, -, -, hsame⟩ ends
    cases hvalidated.symm.trans hagain
    obtain ⟨reread, hreread, rfl, hdag⟩ := (rebuild_eq_some hdump).mp hrebuild
    rw [(mapM_modelDump data.edges (reread.map EdgeConfig.ends)).mp ⟨reread, hreread, rfl⟩]
    have hends (e) : e ∈ reread.map EdgeConfig.ends ↔ e ∈ data.edges.map EdgeConfig.ends := by
      rw [← DagDefinition.mem_edges hvalidated, ← hsame, DagDefinition.mem_edges hdag]
    simp only [List.mem_map (f := written), hends]
  · intro hends
    have hrange : data.edges.map EdgeConfig.storedEnds ∈ Set.range (List.map written) := by
      rw [Set.range_list_map]
      intro ends h
      obtain ⟨e, -, rfl⟩ := List.mem_map.mp ((hends ends).mp h)
      exact ⟨e, rfl⟩
    obtain ⟨ends, hstoredEnds⟩ := hrange
    obtain ⟨reread, hreread, rfl⟩ := (mapM_modelDump data.edges ends).mpr hstoredEnds.symm
    have hsame (e) : e ∈ reread.map EdgeConfig.ends ↔ e ∈ data.edges.map EdgeConfig.ends := by
      rw [← List.mem_map_of_injective written_injective, hstoredEnds, hends,
        List.mem_map_of_injective written_injective]
    let definition : DagDefinition := { data with edges := reread }
    have hcoreTasks : definition.core.tasks = data.core.tasks := rfl
    have hcoreEnds : ∀ e, e ∈ definition.core.edges.map Workflow.EdgeConfig.ends ↔
        e ∈ data.core.edges.map Workflow.EdgeConfig.ends :=
      fun e => by rw [definition.core_ends, data.core_ends, hsame]
    obtain ⟨rebuilt, hrebuilt, hnodes⟩ := DAG.init_congr hvalidated hcoreTasks hcoreEnds
    have hrebuild : wf.rebuild lax = some (definition, rebuilt) :=
      (rebuild_eq_some hdump).mpr ⟨reread, hreread, rfl, hrebuilt⟩
    refine ⟨validated, definition, rebuilt, hvalidated, hrebuild, hnodes, rfl, fun e => ?_⟩
    rw [DagDefinition.mem_edges hrebuilt, DagDefinition.mem_edges hvalidated, hsame]

private def document (edge : Members) : Json :=
  let task (id : String) : Json := .obj [("id", .str id), ("type", .str "delay"), ("name", .str id)]
  .obj [("tasks", .arr [task "a", task "b", task "c"]), ("edges", .arr [.obj edge])]

private def created (body : Json) : Option (DagDefinition × WorkflowDefinition) := do
  let data ← DagDefinition.modelValidate (fun _ => none) body
  return (data, ← createWorkflow (fun _ => none) data)

private theorem created_eq_some {body : Json} {data : DagDefinition} {wf : WorkflowDefinition}
    (h : created body = some (data, wf)) :
    DagDefinition.modelValidate (fun _ => none) body = some data ∧
    createWorkflow (fun _ => none) data = some wf := by
  simp only [created, Option.pure_def, Option.bind_eq_bind, Option.bind_eq_some_iff,
    Option.some.injEq, Prod.mk.injEq] at h
  obtain ⟨_, hdata, _, hwf, rfl, rfl⟩ := h
  exact ⟨hdata, hwf⟩

theorem runs_as_validated_iff_extra_key : ∃ data wf,
    createWorkflow (fun _ => none) data = some wf ∧ RunsAsValidated (fun _ => none) data wf := by
  obtain ⟨⟨data, wf⟩, h⟩ := Option.isSome_iff_exists.mp
    (show (created (document [("from", .str "a"), ("to", .str "b"), ("note", .int 1)])).isSome = true by
      decide +kernel)
  obtain ⟨hread, hcreate⟩ := created_eq_some h
  refine ⟨data, wf, hcreate, (runs_as_validated_iff hread (Or.inl hcreate)).mpr ?_⟩
  simp [document, edgeObjects, asDict, endsByName, endsByAlias, List.lookup_cons]

private def edgesBeforeAndAfter (body : Json) : Option (List (TaskId × TaskId) × List (TaskId × TaskId)) := do
  let (data, wf) ← created body
  let validated ← (DAG.init data.core).toOption
  let (_, rebuilt) ← wf.rebuild (fun _ => none)
  return (validated.graph.edges, rebuilt.graph.edges)

/-- The edge from a to b has c under the name of its source: what runs is an edge from c to b. -/
theorem extra_key_replaces_an_end : ∃ data wf,
    DagDefinition.modelValidate (fun _ => none)
      (document [("from", .str "a"), ("to", .str "b"), ("from_task", .str "c")]) = some data ∧
    createWorkflow (fun _ => none) data = some wf ∧ ¬ RunsAsValidated (fun _ => none) data wf := by
  have hedges : edgesBeforeAndAfter
      (document [("from", .str "a"), ("to", .str "b"), ("from_task", .str "c")]) =
        some ([("a", "b")], [("c", "b")]) := by decide +kernel
  simp only [edgesBeforeAndAfter, Option.pure_def, Option.bind_eq_bind, Option.bind_eq_some_iff,
    Option.some.injEq, Prod.mk.injEq] at hedges
  obtain ⟨⟨data, wf⟩, hcreated, validated, hvalidated, ⟨definition, rebuilt⟩, hrebuild, hbefore, hafter⟩ :=
    hedges
  obtain ⟨hread, hcreate⟩ := created_eq_some hcreated
  refine ⟨data, wf, hread, hcreate, ?_⟩
  rintro ⟨_, _, _, hvalidated', hrebuild', -, -, hsame⟩
  cases (toOption_eq_some.mp hvalidated).symm.trans hvalidated'
  cases hrebuild.symm.trans hrebuild'
  have h := hsame ("c", "b")
  rw [hbefore, hafter] at h
  simp at h

end BackendProjects.Workflow.Schemas
