import BackendProjects.Workflow.JsonValues
import BackendProjects.Workflow.Tasks

/-! The output of a task from its handler to the API: the executor stores it as JSON of any kind,
and the response model reads an object or null. -/
namespace BackendProjects.Workflow
open Library

/-- A `TaskExecutionResponse`, without the fields that are not about the task's attempts. -/
structure TaskExecutionResponse where
  taskDefinitionId : TaskId
  taskName : String
  taskType : String
  status : TaskStatus
  outputData : Option Json.Members
  error : Option String
  attempt : Nat
  maxAttempts : Nat
  startedAt : Option Time
  completedAt : Option Time
  durationMs : Option Int

/-- `Optional[dict[str, Any]]`, with nothing for a ValidationError. -/
def optionalDict : Json → Option (Option Json.Members)
  | .null => some none
  | .obj members => some (some members)
  | _ => none

/-- `TaskExecutionResponse.model_validate` of a row whose output column holds this document. -/
def TaskExecutionResponse.modelValidate (row : TaskExecution) (output : Json) :
    Option TaskExecutionResponse := do
  return {
    taskDefinitionId := row.taskDefinitionId
    taskName := row.taskName
    taskType := row.taskType
    status := row.status
    outputData := ← optionalDict output
    error := row.error
    attempt := row.attempt
    maxAttempts := row.maxAttempts
    startedAt := row.startedAt
    completedAt := row.completedAt
    durationMs := row.durationMs }

variable (reprFloat : Rat → String)

def TaskExecution.response (row : TaskExecution) : Option TaskExecutionResponse := do
  TaskExecutionResponse.modelValidate row (← row.outputData.dumps reprFloat)

/-- `ExecutionService.to_response`, which get, list and stats call, on the rows of one execution. -/
def toResponse (rows : List TaskExecution) : Option (List TaskExecutionResponse) :=
  rows.mapM (·.response reprFloat)

/-- One row that cannot be read spoils the response for its execution. -/
theorem toResponse_isSome (rows : List TaskExecution) :
    (toResponse reprFloat rows).isSome = true ↔ ∀ row ∈ rows, (row.response reprFloat).isSome = true := by
  induction rows with
  | nil => simp [toResponse]
  | cons row rows ih =>
    rw [List.forall_mem_cons, ← ih, toResponse, toResponse, List.mapM_cons]
    cases row.response reprFloat <;> cases rows.mapM (·.response reprFloat) <;> simp

/-- A row can be read when its output can be written and is an object or null. -/
theorem TaskExecution.response_isSome (row : TaskExecution) : (row.response reprFloat).isSome = true ↔
    ∃ output, row.outputData.dumps reprFloat = some output ∧ (optionalDict output).isSome = true := by
  unfold response TaskExecutionResponse.modelValidate
  cases row.outputData.dumps reprFloat with
  | none => simp
  | some output => cases h : optionalDict output <;> simp [h]

/-- Only None and dicts are written as null and objects. -/
theorem dumps_optionalDict (v : PyValue) :
    (∃ output, v.dumps reprFloat = some output ∧ (optionalDict output).isSome = true) ↔
      (v = .none ∨ ∃ entries, v = .dict entries) ∧ v.Encodable := by
  rw [← PyValue.dumps_isSome reprFloat]
  cases v with
  | none => simp [PyValue.dumps, optionalDict]
  | dict entries =>
    simp only [PyValue.dumps]
    cases PyValue.dumpsEntries reprFloat entries <;> simp [optionalDict]
  | float f => cases f <;> simp [PyValue.dumps, optionalDict]
  | list xs | tuple xs =>
    simp only [PyValue.dumps]
    cases PyValue.dumpsList reprFloat xs <;> simp [optionalDict]
  | bool | int | str | set => simp [PyValue.dumps, optionalDict]

/-- What a tuple or a set is normalized to is a text, which the response does not take. -/
theorem normalizeOutput_optionalDict (strOf : PyValue → String) (v : PyValue) :
    (normalizeOutput strOf v = .none ∨ ∃ entries, normalizeOutput strOf v = .dict entries) ∧
      (normalizeOutput strOf v).Encodable ↔ (v = .none ∨ ∃ entries, v = .dict entries) ∧ v.Encodable := by
  cases v <;> simp [normalizeOutput]

/-- The row of a successful task is taken by the store and read by the API exactly when the output
of its handler is None, or a dict all of whose values JSON can write. -/
theorem task_output_is_readable_iff (strOf : PyValue → String) (row : TaskExecution) (now : Time)
    (r : TaskResult) (h : r.success = true) :
    (∃ output, (row.record strOf now r).outputData.dumps reprFloat = some output ∧
      (TaskExecutionResponse.modelValidate (row.record strOf now r) output).isSome = true) ↔
    (r.output = .none ∨ ∃ entries, r.output = .dict entries) ∧ r.output.Encodable := by
  have hrow : (row.record strOf now r).outputData = normalizeOutput strOf r.output := by
    simp [TaskExecution.record, h]
  rw [← normalizeOutput_optionalDict strOf, ← dumps_optionalDict reprFloat, hrow]
  refine exists_congr (fun output => and_congr_right (fun _ => ?_))
  unfold TaskExecutionResponse.modelValidate
  cases optionalDict output <;> simp

/-! ### The outputs of two expressions -/

private def expressionRow : TaskExecution where
  taskDefinitionId := "t"
  taskName := "T"
  taskType := "python"

private def evaluated (output : PyValue) : TaskResult := ⟨true, output, none, 0⟩

theorem task_output_is_readable_dict : ∃ output,
    (expressionRow.record (fun _ => "") 1 (evaluated (.dict [(.str "sum", .int 2)]))).outputData.dumps
      (fun _ => "") = some output ∧
    (TaskExecutionResponse.modelValidate
      (expressionRow.record (fun _ => "") 1 (evaluated (.dict [(.str "sum", .int 2)]))) output).isSome =
        true := by
  refine (task_output_is_readable_iff (fun _ => "") (fun _ => "") expressionRow 1 (evaluated _) rfl).mpr
    ⟨Or.inr ⟨_, rfl⟩, .dict (fun e he => ?_) (fun e he => ?_)⟩
  · rw [List.mem_singleton.mp he]
    trivial
  · rw [List.mem_singleton.mp he]
    exact .int 2

theorem list_output_is_not_readable : ¬ ∀ r : TaskResult, r.success = true →
    (toResponse (fun _ => "") [expressionRow.record (fun _ => "") 1 r]).isSome = true := by
  intro h
  have hlist := h (evaluated (.list [.int 1, .int 2])) rfl
  exact absurd hlist (by decide +kernel)

end BackendProjects.Workflow
