import BackendProjects.Library.Paging
import BackendProjects.Anomaly.AnomalyStatus
import BackendProjects.Workflow.Scheduler
import BackendProjects.Workflow.StoredDefinition
import BackendProjects.Workflow.TaskResponses

/-! The listings of both services, page by page, and when going through the pages shows every row once. -/
namespace BackendProjects
open Library

/-- A condition that is added to a statement if there is something to compare with. -/
def whereGiven {α β : Type} (given : Option β) (condition : β → α → Bool) (rows : List α) : List α :=
  match given with
  | none => rows
  | some x => rows.filter (condition x)

private theorem whereGiven_eq {α β : Type} (given : Option β) (condition : β → α → Bool) (rows : List α) :
    whereGiven given condition rows = rows.filter fun r => given.all (condition · r) := by
  cases given with
  | none => simp [whereGiven]
  | some x => rfl

def truthy (text : Option String) : Option String := text.filter (· ≠ "")

private theorem truthy_all (text : Option String) (p : String → Bool) :
    (truthy text).all p = true ↔ ∀ x ∈ text, x ≠ "" → p x = true := by
  cases text with
  | none => simp [truthy]
  | some x => by_cases h : x = "" <;> simp [truthy, Option.filter, h]

/-- `.unique()` keeps the first row of each identity. -/
def unique {α : Type} (id : α → String) (rows : List α) : List α :=
  rows.foldl (fun kept r => if kept.any (id · = id r) then kept else kept ++ [r]) []

private theorem foldl_unique {α : Type} {id : α → String} {kept rows : List α}
    (h : ((kept ++ rows).map id).Nodup) :
    rows.foldl (fun kept r => if kept.any (id · = id r) then kept else kept ++ [r]) kept = kept ++ rows := by
  induction rows generalizing kept with
  | nil => exact (List.append_nil kept).symm
  | cons r rows ih =>
    have hnew : ¬ kept.any (id · = id r) = true := by
      rw [List.map_append, List.nodup_append] at h
      simp only [List.any_eq_true, decide_eq_true_eq, not_exists, not_and]
      exact fun x hx => h.2.2 (id x) (List.mem_map_of_mem hx) (id r) (List.mem_map_of_mem List.mem_cons_self)
    rw [List.append_cons] at h ⊢
    rw [List.foldl_cons, if_neg hnew]
    exact ih h

private theorem unique_of_nodup {α : Type} {id : α → String} {rows : List α} (h : (rows.map id).Nodup) :
    unique id rows = rows :=
  @foldl_unique α id [] rows h

/-! ### Anomalies -/

namespace Anomaly

structure DetectedAnomaly extends AnomalyRow where
  detectedAt : Timestamp

structure AnomalyFilters where
  severity : Option String := none
  status : Option String := none
  detector : Option String := none
  start : Option Timestamp := none
  stop : Option Timestamp := none

namespace AnomalyFilters
variable (filters : AnomalyFilters)

def narrow (rows : List DetectedAnomaly) : List DetectedAnomaly :=
  let rows := whereGiven (truthy filters.severity) (fun severity r => r.severity = severity) rows
  let rows := whereGiven (truthy filters.status) (fun status r => r.status = status) rows
  let rows := whereGiven (truthy filters.detector) (fun detector r => r.detectorType = detector) rows
  let rows := whereGiven filters.start (fun start r => start ≤ r.detectedAt) rows
  whereGiven filters.stop (fun stop r => r.detectedAt ≤ stop) rows

def Asks (r : DetectedAnomaly) : Prop :=
  (∀ severity ∈ filters.severity, severity ≠ "" → r.severity = severity) ∧
  (∀ status ∈ filters.status, status ≠ "" → r.status = status) ∧
  (∀ detector ∈ filters.detector, detector ≠ "" → r.detectorType = detector) ∧
  (∀ start ∈ filters.start, start ≤ r.detectedAt) ∧ (∀ stop ∈ filters.stop, r.detectedAt ≤ stop)

instance (r : DetectedAnomaly) : Decidable (filters.Asks r) := inferInstanceAs (Decidable (_ ∧ _ ∧ _ ∧ _ ∧ _))

private theorem narrow_eq (rows : List DetectedAnomaly) : filters.narrow rows = rows.filter (filters.Asks ·) := by
  simp only [narrow, whereGiven_eq, List.filter_filter]
  refine List.filter_congr fun r _ => Bool.eq_iff_iff.mpr ?_
  simp only [Bool.and_eq_true, truthy_all]
  simp only [Option.all_eq_true, decide_eq_true_eq, Asks, Option.mem_def]
  tauto

end AnomalyFilters

def listAnomalies (order : OrderBy DetectedAnomaly.detectedAt) (table : Table DetectedAnomaly (·.id))
    (page size : Int) (filters : AnomalyFilters) : Option (List DetectedAnomaly × Nat) := do
  let total := (filters.narrow table.rows).length
  let rows ← offsetLimit (max (page - 1) 0 * size) size (order.run (filters.narrow table.rows))
  return (rows, total)

private theorem listAnomalies_page (order : OrderBy DetectedAnomaly.detectedAt)
    (table : Table DetectedAnomaly (·.id))
    (size k : Nat) (filters : AnomalyFilters) :
    listAnomalies order table (k + 1) size filters =
      ((page (order.run (table.rows.filter (filters.Asks ·))) size k).mapM some).map fun items =>
        (items, (table.rows.filter (filters.Asks ·)).length) := by
  have hpage : max ((k : Int) + 1 - 1) 0 * size = k * size := by
    rw [Int.add_sub_cancel, max_eq_left (Int.natCast_nonneg k)]
  have hitems (rows : List DetectedAnomaly) : rows.mapM some = some rows :=
    (List.mapM_pure (f := id)).trans (congrArg some (List.map_id rows))
  rw [listAnomalies, filters.narrow_eq, hpage, offsetLimit_page, hitems]
  rfl

/-- Going through `list_anomalies`. -/
theorem listAnomalies_pagesThrough_iff (table : Table DetectedAnomaly (·.id)) (filters : AnomalyFilters)
    {size : Nat} (hsize : 0 < size) :
    PagesThrough DetectedAnomaly.detectedAt (fun page order => listAnomalies order table page size filters)
        (·.id) size ((table.rows.filter (filters.Asks ·)).map (·.id)) ↔
      TiesTogether DetectedAnomaly.detectedAt (table.rows.filter (filters.Asks ·)) size := by
  have hnodup := table.nodup.sublist (List.filter_sublist (p := (filters.Asks ·)).map (·.id))
  rw [pagesThrough_iff hnodup hsize (fun a b h => Option.some.inj h ▸ rfl)
    fun k order => listAnomalies_page order table size k filters]
  exact and_iff_left fun _ _ => rfl

end Anomaly

/-! ### Executions and workflows -/

namespace Workflow

def ExecutionState.value : ExecutionState → String
  | .pending => "pending"
  | .running => "running"
  | .completed => "completed"
  | .failed => "failed"
  | .cancelled => "cancelled"
  | .timedOut => "timed_out"

/-- A row of `workflow_executions` with its tasks, in the order of their creation. -/
structure ExecutionRow extends WorkflowExecution where
  id : String
  executionId : String
  workflowId : WorkflowId
  createdAt : Time
  triggeredBy : String := "manual"
  correlationId : Option String := none
  taskExecutions : List TaskExecution := []

structure ExecutionResponse where
  id : String
  executionId : String
  workflowId : WorkflowId
  status : String
  inputData : Option Json.Members
  outputData : Option Json.Members
  error : Option String
  startedAt : Option Time
  completedAt : Option Time
  createdAt : Time
  triggeredBy : String
  correlationId : Option String
  taskExecutions : List TaskExecutionResponse

structure ExecutionListResponse where
  items : List ExecutionResponse
  total : Nat
  page : Int
  size : Int

/-- `to_response` of a row as the store takes it and the API reads it back. -/
def ExecutionRow.response (reprFloat : Rat → String) (e : ExecutionRow) : Option ExecutionResponse := do
  let tasks ← toResponse reprFloat e.taskExecutions
  return {
    id := e.id
    executionId := e.executionId
    workflowId := e.workflowId
    status := e.status.value
    inputData := ← optionalDict (← (e.inputData.elim PyValue.none .dict).dumps reprFloat)
    outputData := ← optionalDict (← e.outputData.dumps reprFloat)
    error := e.error
    startedAt := e.startedAt
    completedAt := e.completedAt
    createdAt := e.createdAt
    triggeredBy := e.triggeredBy
    correlationId := e.correlationId
    taskExecutions := tasks }

def narrowExecutions (workflowId : Option WorkflowId) (status : Option String) (rows : List ExecutionRow) :
    List ExecutionRow :=
  let rows := whereGiven workflowId (fun workflowId e => e.workflowId = workflowId) rows
  whereGiven (truthy status) (fun status e => e.status.value = status) rows

def listExecutions (reprFloat : Rat → String) (order : OrderBy ExecutionRow.createdAt)
    (table : Table ExecutionRow (·.id)) (workflowId : Option WorkflowId) (status : Option String)
    (page size : Int) : Option ExecutionListResponse := do
  let page := max 1 page
  let size := min 100 (max 1 size)
  let total := (narrowExecutions workflowId status table.rows).length
  let rows ← offsetLimit ((page - 1) * size) size (order.run (narrowExecutions workflowId status table.rows))
  let items ← (unique (·.id) rows).mapM (ExecutionRow.response reprFloat)
  return ⟨items, total, page, size⟩

structure WorkflowRow extends Schemas.WorkflowDefinition where
  id : WorkflowId
  name : String
  description : Option String := none
  inputSchema : Json := .null
  isActive : Bool := true
  createdBy : String
  createdAt : Time
  updatedAt : Time

structure WorkflowResponse where
  id : WorkflowId
  name : String
  description : Option String
  version : Nat
  dagDefinition : Json.Members
  inputSchema : Option Json.Members
  isActive : Bool
  createdBy : String
  createdAt : Time
  updatedAt : Time

structure WorkflowListResponse where
  items : List WorkflowResponse
  total : Nat

def requiredDict : Json → Option Json.Members
  | .obj members => some members
  | _ => none

def WorkflowResponse.modelValidate (i : WorkflowRow) : Option WorkflowResponse := do
  return {
    id := i.id
    name := i.name
    description := i.description
    version := i.version
    dagDefinition := ← requiredDict i.dagDefinition
    inputSchema := ← optionalDict i.inputSchema
    isActive := i.isActive
    createdBy := i.createdBy
    createdAt := i.createdAt
    updatedAt := i.updatedAt }

def listWorkflows (order : OrderBy WorkflowRow.createdAt) (table : Table WorkflowRow (·.id))
    (page size : Int) : Option WorkflowListResponse := do
  let page := max 1 page
  let size := min 100 (max 1 size)
  let total := (table.rows.filter (·.isActive)).length
  let rows ← offsetLimit ((page - 1) * size) size (order.run (table.rows.filter (·.isActive)))
  let items ← rows.mapM WorkflowResponse.modelValidate
  return ⟨items, total⟩

/-- The page and the size that are asked for are taken as they are. -/
private theorem requested (k : Nat) {size : Nat} (hsize : 0 < size) (hmax : size ≤ 100) :
    max 1 ((k : Int) + 1) = k + 1 ∧ min 100 (max 1 (size : Int)) = size := by
  omega

section Executions
variable (reprFloat : Rat → String) (workflowId : Option WorkflowId) (status : Option String)

def Asked (e : ExecutionRow) : Prop :=
  (∀ id ∈ workflowId, e.workflowId = id) ∧ ∀ value ∈ status, value ≠ "" → e.status.value = value

instance (e : ExecutionRow) : Decidable (Asked workflowId status e) := inferInstanceAs (Decidable (_ ∧ _))

private theorem narrowExecutions_eq (rows : List ExecutionRow) :
    narrowExecutions workflowId status rows = rows.filter (Asked workflowId status ·) := by
  simp only [narrowExecutions, whereGiven_eq, List.filter_filter]
  refine List.filter_congr fun e _ => Bool.eq_iff_iff.mpr ?_
  simp only [Bool.and_eq_true, truthy_all]
  simp only [Option.all_eq_true, decide_eq_true_eq, Asked, Option.mem_def]
  tauto

private theorem response_id {e : ExecutionRow} {r : ExecutionResponse} (h : e.response reprFloat = some r) :
    r.id = e.id := by
  simp only [ExecutionRow.response, Option.bind_eq_bind, Option.bind_eq_some_iff] at h
  obtain ⟨_, -, _, -, _, -, _, -, _, -, h⟩ := h
  cases h
  rfl

private theorem listExecutions_page (order : OrderBy ExecutionRow.createdAt) (table : Table ExecutionRow (·.id))
    {size : Nat} (hsize : 0 < size) (hmax : size ≤ 100) (k : Nat) :
    (listExecutions reprFloat order table workflowId status (k + 1) size).map (fun r => (r.items, r.total)) =
      ((page (order.run (table.rows.filter (Asked workflowId status ·))) size k).mapM
        (ExecutionRow.response reprFloat)).map fun items =>
          (items, (table.rows.filter (Asked workflowId status ·)).length) := by
  obtain ⟨hpage, hlimit⟩ := requested k hsize hmax
  have hunique : unique (·.id) (page (order.run (table.rows.filter (Asked workflowId status ·))) size k) =
      page (order.run (table.rows.filter (Asked workflowId status ·))) size k := by
    refine unique_of_nodup (List.Nodup.sublist ((page_sublist ..).map _) ?_)
    rw [((order.perm _).map _).nodup_iff]
    exact table.nodup.sublist (List.filter_sublist.map _)
  simp only [listExecutions, hpage, hlimit, narrowExecutions_eq, Int.add_sub_cancel, offsetLimit_page,
    Option.bind_eq_bind, Option.bind_some, hunique]
  rw [Option.map_bind]
  cases List.mapM (ExecutionRow.response reprFloat)
    (page (order.run (table.rows.filter (Asked workflowId status ·))) size k) <;> rfl

/-- Going through `list_executions`. -/
theorem listExecutions_pagesThrough_iff (table : Table ExecutionRow (·.id)) {size : Nat} (hsize : 0 < size)
    (hmax : size ≤ 100) :
    PagesThrough ExecutionRow.createdAt (fun page order =>
        (listExecutions reprFloat order table workflowId status page size).map fun r => (r.items, r.total))
        (·.id) size ((table.rows.filter (Asked workflowId status ·)).map (·.id)) ↔
      TiesTogether ExecutionRow.createdAt (table.rows.filter (Asked workflowId status ·)) size ∧
        ∀ e ∈ table.rows.filter (Asked workflowId status ·), (e.response reprFloat).isSome = true :=
  pagesThrough_iff (table.nodup.sublist (List.filter_sublist.map _)) hsize
    (fun _ _ h => response_id reprFloat h)
    fun k order => listExecutions_page reprFloat workflowId status order table hsize hmax k

end Executions

section Workflows

private theorem modelValidate_id {i : WorkflowRow} {r : WorkflowResponse}
    (h : WorkflowResponse.modelValidate i = some r) : r.id = i.id := by
  simp only [WorkflowResponse.modelValidate, Option.bind_eq_bind, Option.bind_eq_some_iff] at h
  obtain ⟨_, -, _, -, h⟩ := h
  cases h
  rfl

private theorem listWorkflows_page (order : OrderBy WorkflowRow.createdAt) (table : Table WorkflowRow (·.id))
    {size : Nat} (hsize : 0 < size) (hmax : size ≤ 100) (k : Nat) :
    (listWorkflows order table (k + 1) size).map (fun r => (r.items, r.total)) =
      ((page (order.run (table.rows.filter (·.isActive))) size k).mapM WorkflowResponse.modelValidate).map
        fun items => (items, (table.rows.filter (·.isActive)).length) := by
  obtain ⟨hpage, hlimit⟩ := requested k hsize hmax
  simp only [listWorkflows, hpage, hlimit, Int.add_sub_cancel, offsetLimit_page, Option.bind_eq_bind,
    Option.bind_some]
  rw [Option.map_bind]
  cases (page (order.run (table.rows.filter (·.isActive))) size k).mapM WorkflowResponse.modelValidate <;> rfl

/-- Going through `list_workflows`. -/
theorem listWorkflows_pagesThrough_iff (table : Table WorkflowRow (·.id)) {size : Nat} (hsize : 0 < size)
    (hmax : size ≤ 100) :
    PagesThrough WorkflowRow.createdAt (fun page order =>
        (listWorkflows order table page size).map fun r => (r.items, r.total))
        (·.id) size ((table.rows.filter (·.isActive)).map (·.id)) ↔
      TiesTogether WorkflowRow.createdAt (table.rows.filter (·.isActive)) size ∧
        ∀ i ∈ table.rows.filter (·.isActive), (WorkflowResponse.modelValidate i).isSome = true :=
  pagesThrough_iff (table.nodup.sublist (List.filter_sublist.map _)) hsize (fun _ _ => modelValidate_id)
    fun k order => listWorkflows_page order table hsize hmax k

end Workflows

end Workflow

/-! ### All listings -/

open Anomaly Workflow

/-- Paging returns every matching row once, whatever the order of equal timestamps in each query, exactly if no
page ends between rows of the same time, and if what is stored in the rows can be read. -/
theorem paging_is_complete_iff (reprFloat : Rat → String) :
    (∀ (table : Table DetectedAnomaly (·.id)) (filters : AnomalyFilters) (size : Nat), 1 ≤ size →
      (PagesThrough DetectedAnomaly.detectedAt (fun page order => listAnomalies order table page size filters)
          (·.id) size ((table.rows.filter (filters.Asks ·)).map (·.id)) ↔
        TiesTogether DetectedAnomaly.detectedAt (table.rows.filter (filters.Asks ·)) size)) ∧
    (∀ (table : Table ExecutionRow (·.id)) workflowId status (size : Nat), 1 ≤ size → size ≤ 100 →
      (PagesThrough ExecutionRow.createdAt (fun page order =>
          (listExecutions reprFloat order table workflowId status page size).map fun r => (r.items, r.total))
          (·.id) size ((table.rows.filter (Asked workflowId status ·)).map (·.id)) ↔
        TiesTogether ExecutionRow.createdAt (table.rows.filter (Asked workflowId status ·)) size ∧
          ∀ e ∈ table.rows.filter (Asked workflowId status ·), (e.response reprFloat).isSome = true)) ∧
    ∀ (table : Table WorkflowRow (·.id)) (size : Nat), 1 ≤ size → size ≤ 100 →
      (PagesThrough WorkflowRow.createdAt (fun page order =>
          (listWorkflows order table page size).map fun r => (r.items, r.total))
          (·.id) size ((table.rows.filter (·.isActive)).map (·.id)) ↔
        TiesTogether WorkflowRow.createdAt (table.rows.filter (·.isActive)) size ∧
          ∀ i ∈ table.rows.filter (·.isActive), (WorkflowResponse.modelValidate i).isSome = true) := by
  refine ⟨?_, ?_, ?_⟩
  · exact fun table filters size hsize => listAnomalies_pagesThrough_iff table filters hsize
  · exact fun table workflowId status size hsize hmax =>
      listExecutions_pagesThrough_iff reprFloat workflowId status table hsize hmax
  · exact fun table size hsize hmax => listWorkflows_pagesThrough_iff table hsize hmax

private def detected (id : RecordId) (detectedAt : Timestamp) : DetectedAnomaly where
  id := id
  sourceId := "s"
  metricName := "cpu"
  detectorType := "zscore"
  severity := "high"
  score := .finite 1
  expectedValue := none
  actualValue := .finite 9
  deviation := .finite 9
  reason := "z=9.0000 vs threshold 3.0"
  detectedAt := detectedAt

private def spread : Table DetectedAnomaly (·.id) :=
  ⟨[detected "a" 1, detected "b" 2, detected "c" 3], by decide⟩

private def burst : Table DetectedAnomaly (·.id) := ⟨[detected "a" 1, detected "b" 1], by decide⟩

theorem paging_is_complete_iff_spread :
    PagesThrough DetectedAnomaly.detectedAt (fun page order => listAnomalies order spread page 2 {}) (·.id) 2
      ((spread.rows.filter (AnomalyFilters.Asks {} ·)).map (·.id)) := by
  refine ((paging_is_complete_iff fun _ => "").1 spread {} 2 (by decide)).mpr ?_
  unfold TiesTogether
  decide +kernel

private def reversed : OrderBy DetectedAnomaly.detectedAt where
  run rows := (OrderBy.stable _).run rows.reverse
  perm rows := ((OrderBy.stable _).perm _).trans rows.reverse_perm
  sorted _ := (OrderBy.stable _).sorted _

/-- Both pages of the burst show the record `a` when the second query has the other order. -/
theorem burst_is_lost :
    (listAnomalies (OrderBy.stable _) burst 1 1 {}).map (·.1.map (·.id)) = some ["a"] ∧
    (listAnomalies reversed burst 2 1 {}).map (·.1.map (·.id)) = some ["a"] ∧
    ¬ PagesThrough DetectedAnomaly.detectedAt (fun page order => listAnomalies order burst page 1 {}) (·.id) 1
      ((burst.rows.filter (AnomalyFilters.Asks {} ·)).map (·.id)) := by
  refine ⟨by decide +kernel, by decide +kernel, ?_⟩
  refine (not_congr (listAnomalies_pagesThrough_iff burst {} one_pos)).mpr ?_
  unfold TiesTogether
  decide +kernel

end BackendProjects
