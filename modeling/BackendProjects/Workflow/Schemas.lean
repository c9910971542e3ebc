import BackendProjects.Workflow.Dag
import BackendProjects.Workflow.JsonValues

/-! The models of a workflow definition: how they are read from a JSON document with free extra
keys, and what they are dumped to. Nothing stands for a ValidationError. -/
namespace BackendProjects.Workflow.Schemas
open Library Json

/-! ### The models -/

/-- `lax` is what pydantic makes of a value that is not an integer where it wants one. -/
def asInt (lax : Json → Option Int) : Json → Option Int
  | .int i => some i
  | other => lax other

def asStr : Json → Option String
  | .str s => some s
  | _ => none

def asDict : Json → Option Members
  | .obj members => some members
  | _ => none

def asList {α : Type} (read : Json → Option α) : Json → Option (List α)
  | .arr xs => xs.mapM read
  | _ => none

def optional {α : Type} (read : Json → Option α) : Json → Option (Option α)
  | .null => some none
  | other => (read other).map some

def field {α : Type} (o : Members) (key : String) (read : Json → Option α) (default : Option α) : Option α :=
  match o.lookup key with
  | some value => read value
  | none => default

def retryKeys : List String := ["max_attempts", "strategy", "delay_seconds", "max_delay_seconds"]
def taskKeys : List String := ["id", "type", "name", "config", "retry", "timeout_seconds"]
def dagKeys : List String := ["tasks", "edges"]

structure RetryConfig where
  maxAttempts : Int
  strategy : String
  delaySeconds : Int
  maxDelaySeconds : Int
  extra : Members
  free : ∀ key ∈ retryKeys, extra.lookup key = none

structure TaskConfig where
  id : TaskId
  type : String
  name : String
  config : Members
  retry : Option RetryConfig
  timeoutSeconds : Option Int
  extra : Members
  free : ∀ key ∈ taskKeys, extra.lookup key = none

/-- An end's name can be among the extras, next to its alias. -/
structure EdgeConfig where
  fromTask : TaskId
  toTask : TaskId
  condition : Option String
  extra : Members
  free : ∀ key ∈ ["from", "to", "condition"], extra.lookup key = none

structure DagDefinition where
  tasks : List TaskConfig
  edges : List EdgeConfig
  extra : Members
  free : ∀ key ∈ dagKeys, extra.lookup key = none

/-! ### Validation -/

section Validation
variable (lax : Json → Option Int)

def RetryConfig.modelValidate : Json → Option RetryConfig
  | .obj o => do
      return {
        maxAttempts := ← field o "max_attempts" (asInt lax) (some 3)
        strategy := ← field o "strategy" asStr (some "fixed")
        delaySeconds := ← field o "delay_seconds" (asInt lax) (some 5)
        maxDelaySeconds := ← field o "max_delay_seconds" (asInt lax) (some 300)
        extra := Members.without o retryKeys
        free := fun _ h => Members.lookup_without_of_mem h }
  | _ => none

def TaskConfig.modelValidate : Json → Option TaskConfig
  | .obj o => do
      return {
        id := ← field o "id" asStr none
        type := ← field o "type" asStr none
        name := ← field o "name" asStr none
        config := ← field o "config" asDict (some [])
        retry := ← field o "retry" (optional (RetryConfig.modelValidate lax)) (some none)
        timeoutSeconds := ← field o "timeout_seconds" (optional (asInt lax)) (some none)
        extra := Members.without o taskKeys
        free := fun _ h => Members.lookup_without_of_mem h }
  | _ => none

/-- The keys that the fields of an edge are read under: the alias of an end comes before its name. -/
def edgeKeys (o : Members) : List String :=
  [o.chosen "from" "from_task", o.chosen "to" "to_task", "condition"]

theorem edge_free (o : Members) :
    ∀ key ∈ ["from", "to", "condition"], (o.without (edgeKeys o)).lookup key = none := by
  simp only [List.forall_mem_cons, List.not_mem_nil, false_implies, implies_true, and_true]
  exact ⟨Members.lookup_without_chosen "from" "from_task" (by simp [edgeKeys]),
    Members.lookup_without_chosen "to" "to_task" (by simp [edgeKeys]),
    Members.lookup_without_of_mem (by simp [edgeKeys])⟩

def EdgeConfig.modelValidate : Json → Option EdgeConfig
  | .obj o => do
      return {
        fromTask := ← field o (Members.chosen o "from" "from_task") asStr none
        toTask := ← field o (Members.chosen o "to" "to_task") asStr none
        condition := ← field o "condition" (optional asStr) (some none)
        extra := Members.without o (edgeKeys o)
        free := edge_free o }
  | _ => none

def DagDefinition.modelValidate : Json → Option DagDefinition
  | .obj o => do
      return {
        tasks := ← field o "tasks" (asList (TaskConfig.modelValidate lax)) none
        edges := ← field o "edges" (asList EdgeConfig.modelValidate) (some [])
        extra := Members.without o dagKeys
        free := fun _ h => Members.lookup_without_of_mem h }
  | _ => none

end Validation

/-! ### Dumps -/

def nullable : Option Json → Json
  | some value => value
  | none => .null

/-- `model_dump`: the fields under their names, then the extras under their own keys. -/
def RetryConfig.modelDump (r : RetryConfig) : Json :=
  .obj (Members.overlay [("max_attempts", .int r.maxAttempts), ("strategy", .str r.strategy),
    ("delay_seconds", .int r.delaySeconds), ("max_delay_seconds", .int r.maxDelaySeconds)] r.extra)

def TaskConfig.modelDump (t : TaskConfig) : Json :=
  .obj (Members.overlay [("id", .str t.id), ("type", .str t.type), ("name", .str t.name),
    ("config", .obj t.config), ("retry", nullable (t.retry.map RetryConfig.modelDump)),
    ("timeout_seconds", nullable (t.timeoutSeconds.map .int))] t.extra)

def EdgeConfig.modelDump (e : EdgeConfig) : Json :=
  .obj (Members.overlay [("from_task", .str e.fromTask), ("to_task", .str e.toTask),
    ("condition", nullable (e.condition.map .str))] e.extra)

def DagDefinition.modelDump (d : DagDefinition) : Json :=
  .obj (Members.overlay [("tasks", .arr (d.tasks.map TaskConfig.modelDump)),
    ("edges", .arr (d.edges.map EdgeConfig.modelDump))] d.extra)

/-! ### What the DAG is built from -/

def RetryConfig.core (r : RetryConfig) : Workflow.RetryConfig :=
  ⟨r.maxAttempts, r.strategy, r.delaySeconds, r.maxDelaySeconds⟩

def TaskConfig.core (t : TaskConfig) : Workflow.TaskConfig where
  id := t.id
  type := t.type
  name := t.name
  config := PyValue.loadsMembers t.config
  retry := t.retry.map RetryConfig.core
  timeoutSeconds := t.timeoutSeconds

def EdgeConfig.core (e : EdgeConfig) : Workflow.EdgeConfig := ⟨e.fromTask, e.toTask⟩

def DagDefinition.core (d : DagDefinition) : Workflow.DagDefinition :=
  ⟨d.tasks.map TaskConfig.core, d.edges.map EdgeConfig.core⟩

/-! ### Dumps are read back -/

section RoundTrip
variable {lax : Json → Option Int}

/-- A field of the dump is read as it was written, as long as no extra key hides it. -/
theorem field_overlay {α : Type} {fields extra : Members} {key : String} {value : Json}
    {read : Json → Option α} {default : Option α} (hextra : extra.lookup key = none)
    (hfield : fields.lookup key = some value) :
    field (fields.overlay extra) key read default = read value := by
  rw [field, Members.lookup_overlay, hextra, hfield]
  rfl

theorem optional_nullable {α : Type} (read : Json → Option α) (write : α → Json)
    (hread : ∀ a, read (write a) = some a) (hnull : ∀ a, write a ≠ .null) (value : Option α) :
    optional read (nullable (value.map write)) = some value := by
  cases value with
  | none => rfl
  | some a =>
    have hsome : optional read (write a) = (read (write a)).map some := by
      unfold optional
      split
      · next h => exact absurd h (hnull a)
      · rfl
    simp [nullable, hsome, hread]

theorem asList_map {α : Type} {read : Json → Option α} {write : α → Json} {xs : List α}
    (hread : ∀ a ∈ xs, read (write a) = some a) : asList read (.arr (xs.map write)) = some xs := by
  simp only [asList]
  induction xs with
  | nil => rfl
  | cons x xs ih =>
    rw [List.map_cons, List.mapM_cons, hread x List.mem_cons_self,
      ih (fun a ha => hread a (List.mem_cons_of_mem _ ha))]
    rfl

/-- The extras of a dump whose keys are all read are those that it was written with. -/
theorem extra_overlay {fields extra : Members} {keys : List String}
    (hfields : ∀ key ∈ fields.map Prod.fst, key ∈ keys) (hfree : ∀ key ∈ keys, extra.lookup key = none) :
    (fields.overlay extra).without keys = extra := by
  rw [Members.without_overlay hfields]
  exact Members.without_eq_self hfree

private theorem RetryConfig.modelValidate_modelDump (r : RetryConfig) :
    RetryConfig.modelValidate lax r.modelDump = some r := by
  have hfree {key : String} (h : key ∈ retryKeys) := r.free key h
  simp only [modelDump, modelValidate]
  rw [field_overlay (hfree (by simp [retryKeys])) rfl, field_overlay (hfree (by simp [retryKeys])) rfl,
    field_overlay (hfree (by simp [retryKeys])) rfl, field_overlay (hfree (by simp [retryKeys])) rfl]
  simp only [asInt, asStr, Option.pure_def, Option.bind_eq_bind, Option.bind_some]
  congr 1
  cases r
  simp only [mk.injEq, true_and]
  exact extra_overlay (by simp [retryKeys]) (fun _ h => hfree h)

theorem TaskConfig.modelValidate_modelDump (t : TaskConfig) :
    TaskConfig.modelValidate lax t.modelDump = some t := by
  have hfree {key : String} (h : key ∈ taskKeys) := t.free key h
  simp only [modelDump, modelValidate]
  rw [field_overlay (hfree (by simp [taskKeys])) rfl, field_overlay (hfree (by simp [taskKeys])) rfl,
    field_overlay (hfree (by simp [taskKeys])) rfl, field_overlay (hfree (by simp [taskKeys])) rfl,
    field_overlay (hfree (by simp [taskKeys])) rfl, field_overlay (hfree (by simp [taskKeys])) rfl,
    optional_nullable _ RetryConfig.modelDump RetryConfig.modelValidate_modelDump
      (fun r => by simp [RetryConfig.modelDump]),
    optional_nullable (asInt lax) .int (fun i => rfl) (fun i => by simp)]
  simp only [asDict, asStr, Option.pure_def, Option.bind_eq_bind, Option.bind_some]
  congr 1
  cases t
  simp only [mk.injEq, true_and]
  exact extra_overlay (by simp [taskKeys]) (fun _ h => hfree h)

end RoundTrip
end BackendProjects.Workflow.Schemas
