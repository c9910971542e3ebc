import BackendProjects.Workflow.Executor

/-! What a run comes to when it is evaluated one generation of the DAG after the other: the
abstract meaning of a run whose handlers answer in one way only. -/
namespace BackendProjects.Workflow
open Library

/-- Handlers that answer every attempt with a result, be it a success or a failure, which depends on the node,
the number of the attempt, and the merged input only. -/
abbrev Handler := DAGNode → Nat → PyDict → TaskResult

def Handler.answers (handler : Handler) : Answers :=
  fun node attempt data outcome => outcome = .result (handler node attempt data)

def Answering (answers : Answers) : Prop := ∀ node attempt data, ∃ outcome, answers node attempt data outcome

theorem Handler.answering (handler : Handler) : Answering handler.answers :=
  fun node attempt data => ⟨.result (handler node attempt data), rfl⟩

inductive Verdict where
  | succeeded (calls : Nat) (output : PyValue)
  | failed (calls : Nat)
  | raises (calls : Nat)

namespace Verdict

def calls : Verdict → Nat
  | succeeded calls _ | failed calls | raises calls => calls

def succeeds : Verdict → Bool
  | succeeded _ _ => true
  | _ => false

def isRaise : Verdict → Bool
  | raises _ => true
  | _ => false

def output? : Verdict → Option PyValue
  | succeeded _ output => if output ≠ .none then some output else none
  | _ => none

theorem succeeds_of_isRaise {v : Verdict} (h : v.isRaise = true) : v.succeeds = false := by
  cases v with
  | raises calls => rfl
  | succeeded calls output => cases h
  | failed calls => cases h

end Verdict

structure Summary where
  completed : Finset TaskId
  /-- Some task has had no successful attempt. -/
  failed : Bool
  /-- The exception of some task goes up. -/
  raised : Bool
  calls : TaskId → Nat
  outputs : PyDict

def Summary.empty : Summary := ⟨∅, false, false, fun _ => 0, []⟩

section Task
variable (strOf : PyValue → String) (handler : Handler) (node : DAGNode) (data : PyDict)

def attempts (a : Nat) : Nat → Verdict
  | 0 => .failed (a - 1)
  | n + 1 =>
      match getTaskClass node.taskType with
      | .error _ => .raises (a - 1)
      | .ok _ =>
          let r := handler node a data
          if r.success then .succeeded a (normalizeOutput strOf r.output)
          else if n = 0 then .failed a
          else match (getRetryStrategy node.retryConfig).bind (·.backoff a) with
            | .ok _ => attempts (a + 1) n
            | .error _ => .raises a

def retried (a n : Nat) : Verdict :=
  if n = 0 then .failed a
  else match (getRetryStrategy node.retryConfig).bind (·.backoff a) with
    | .ok _ => attempts strOf handler node data (a + 1) n
    | .error _ => .raises a

def called (a n : Nat) : Verdict :=
  if (handler node a data).success then
    .succeeded a (normalizeOutput strOf (handler node a data).output)
  else retried strOf handler node data a n

theorem attempts_ok {taskClass : TaskClass} (h : getTaskClass node.taskType = .ok taskClass)
    (a n : Nat) : attempts strOf handler node data a (n + 1) = called strOf handler node data a n := by
  simp only [attempts, h]
  rfl

theorem attempts_error {e : PyError} (h : getTaskClass node.taskType = .error e) (a n : Nat) :
    attempts strOf handler node data a (n + 1) = .raises (a - 1) := by
  simp only [attempts, h]

/-- Whether a delay is defined does not depend on the sample. -/
theorem bind_getDelay_isOk (strategy : Except PyError RetryStrategy) (a : Nat) (sample : Rat) :
    (strategy.bind (·.getDelay a sample)).toBool = (strategy.bind (·.backoff a)).toBool := by
  cases strategy with
  | error e => rfl
  | ok strategy => exact strategy.getDelay_isOk a sample

theorem retried_ok {a n : Nat} {sample delay : Rat} (hn : n ≠ 0)
    (h : (getRetryStrategy node.retryConfig).bind (·.getDelay a sample) = .ok delay) :
    retried strOf handler node data a n = attempts strOf handler node data (a + 1) n := by
  have hok := bind_getDelay_isOk (getRetryStrategy node.retryConfig) a sample
  rw [h] at hok
  unfold retried
  rw [if_neg hn]
  split
  · rfl
  · next e he =>
    rw [he] at hok
    cases hok

theorem retried_error {a n : Nat} {sample : Rat} {e : PyError} (hn : n ≠ 0)
    (h : (getRetryStrategy node.retryConfig).bind (·.getDelay a sample) = .error e) :
    retried strOf handler node data a n = .raises a := by
  have hok := bind_getDelay_isOk (getRetryStrategy node.retryConfig) a sample
  rw [h] at hok
  unfold retried
  rw [if_neg hn]
  split
  · next delay hd =>
    rw [hd] at hok
    cases hok
  · rfl

/-- No attempt from number `a` up to number `k` succeeds, and no delay is defined after the last. -/
structure Undelayed (a k : Nat) : Prop where
  le : a ≤ k
  failed : ∀ b, a ≤ b → b ≤ k → (handler node b data).success = false
  delay : ((getRetryStrategy node.retryConfig).bind (·.backoff k)).toBool = false

/-- The attempts of a task raise an exception where a delay between two of them is not defined. -/
theorem attempts_isRaise {taskClass : TaskClass} (h : getTaskClass node.taskType = .ok taskClass)
    (a n : Nat) : (attempts strOf handler node data a n).isRaise = true ↔
      ∃ k, k + 1 < a + n ∧ Undelayed handler node data a k := by
  induction n generalizing a with
  | zero =>
    constructor
    · intro hv
      cases hv
    · rintro ⟨k, hlt, hle, _, _⟩
      omega
  | succ n ih =>
    rw [attempts_ok _ _ _ _ h, called]
    split
    · next hs =>
      constructor
      · intro hv
        cases hv
      · rintro ⟨k, _, hle, hfailed, _⟩
        rw [hfailed a le_rfl hle] at hs
        cases hs
    next hs =>
    rw [Bool.not_eq_true] at hs
    rw [retried]
    split
    · next hn =>
      constructor
      · intro hv
        cases hv
      · rintro ⟨k, hlt, hle, _, _⟩
        omega
    next hn =>
    split
    · next delay hd =>
      rw [ih]
      constructor
      · rintro ⟨k, hlt, hle, hfailed, hdelay⟩
        refine ⟨k, by omega, by omega, fun b hb hbk => ?_, hdelay⟩
        rcases Nat.eq_or_lt_of_le hb with rfl | hb
        · exact hs
        · exact hfailed b hb hbk
      · rintro ⟨k, hlt, hle, hfailed, hdelay⟩
        have hne : a ≠ k := by
          rintro rfl
          rw [hd] at hdelay
          cases hdelay
        exact ⟨k, by omega, by omega, fun b hb hbk => hfailed b (by omega) hbk, hdelay⟩
    · next e he =>
      refine ⟨fun _ => ⟨a, by omega, le_rfl, fun b hb hba => ?_, by rw [he]; rfl⟩, fun _ => rfl⟩
      rw [Nat.le_antisymm hba hb]
      exact hs

end Task

def Engine.maxAttempts (E : Engine) (node : DAGNode) : Nat :=
  (TaskExecution.new E.settings node).maxAttempts

theorem Engine.maxAttempts_pos (E : Engine) (node : DAGNode) : 1 ≤ E.maxAttempts node := by
  simp only [Engine.maxAttempts, TaskExecution.new]
  omega

section Run
variable (E : Engine) (handler : Handler) (input : Option PyDict)

def taskInput (outputs : PyDict) (t : TaskId) : PyDict :=
  mergedInput input (predOutputs E.dag t outputs)

def verdict (outputs : PyDict) (t : TaskId) : Verdict :=
  match E.dag.getTask t with
  | .error _ => .raises 0
  | .ok node =>
      match getRetryStrategy node.retryConfig with
      | .error _ => .raises 0
      | .ok _ =>
          attempts E.strOf handler node (taskInput E input outputs t) 1 (E.maxAttempts node)

def publishAll (verdicts : TaskId → Verdict) (gen : List TaskId) (outputs : PyDict) : PyDict :=
  gen.foldl (fun outputs t =>
    match (verdicts t).output? with
    | some output => outputs.set (.str t) output
    | none => outputs) outputs

/-- One generation, on top of what the generations before it have come to. -/
def evalGeneration (sum : Summary) (gen : List TaskId) : Summary :=
  let verdicts := verdict E handler input sum.outputs
  { completed := sum.completed ∪ (gen.filter (fun t => (verdicts t).succeeds)).toFinset
    failed := sum.failed || gen.any (fun t => !(verdicts t).succeeds)
    raised := sum.raised || gen.any (fun t => (verdicts t).isRaise)
    calls := fun t => if t ∈ gen then (verdicts t).calls else sum.calls t
    outputs := publishAll verdicts gen sum.outputs }

/-- Generation by generation, up to the first one with a task that has no successful attempt. -/
def evalGenerations : List (List TaskId) → Summary → Summary
  | [], sum => sum
  | gen :: rest, sum =>
      let next := evalGeneration E handler input sum gen
      if next.failed then next else evalGenerations rest next

def evaluate : Summary := evalGenerations E handler input E.dag.getExecutionOrder .empty

/-- The keys of a generation are the tasks in it. -/
theorem publishAll_of_notMem (verdicts : TaskId → Verdict) {gen : List TaskId} (outputs : PyDict)
    {key : PyValue} (h : ∀ t ∈ gen, key ≠ .str t) :
    (publishAll verdicts gen outputs).get? key = outputs.get? key := by
  induction gen generalizing outputs with
  | nil => rfl
  | cons t gen ih =>
    rw [publishAll, List.foldl_cons, ← publishAll, ih _ (fun u hu => h u (List.mem_cons_of_mem _ hu))]
    split
    · exact PyDict.get?_set_of_ne _ (h t List.mem_cons_self) _
    · rfl

theorem publishAll_of_mem (verdicts : TaskId → Verdict) {gen : List TaskId} (hgen : gen.Nodup)
    (outputs : PyDict) {t : TaskId} (ht : t ∈ gen) :
    (publishAll verdicts gen outputs).get? (.str t) =
      (verdicts t).output?.or (outputs.get? (.str t)) := by
  induction gen generalizing outputs with
  | nil => cases ht
  | cons u gen ih =>
    obtain ⟨hu, hgen⟩ := List.nodup_cons.mp hgen
    rw [publishAll, List.foldl_cons, ← publishAll]
    rcases List.mem_cons.mp ht with rfl | hin
    · rw [publishAll_of_notMem _ _ (fun v hv heq => hu (by cases heq; exact hv))]
      cases (verdicts t).output? with
      | none => rfl
      | some output => rw [PyDict.get?_set]; rfl
    · rw [ih hgen _ hin]
      congr 1
      have hne : PyValue.str t ≠ .str u := fun heq => hu (by cases heq; exact hin)
      split
      · exact PyDict.get?_set_of_ne _ hne _
      · rfl

/-! ### Where an exception can come from -/

structure RaisesNothing (node : DAGNode) : Prop where
  strategy : (getRetryStrategy node.retryConfig).toBool = true
  taskClass : (getTaskClass node.taskType).toBool = true
  delay : ∀ k, 1 ≤ k → k < E.maxAttempts node →
    ((getRetryStrategy node.retryConfig).bind (·.backoff k)).toBool = true

/-- A task raises an exception where its type or its retry settings are refused, or where the delay
after a failed attempt is not defined. -/
theorem verdict_isRaise {node : DAGNode} (hnode : E.dag.getTask node.taskId = .ok node) (outputs : PyDict) :
    (verdict E handler input outputs node.taskId).isRaise = true ↔
      (getRetryStrategy node.retryConfig).toBool = false ∨ (getTaskClass node.taskType).toBool = false ∨
        ∃ k, k < E.maxAttempts node ∧
          Undelayed handler node (taskInput E input outputs node.taskId) 1 k := by
  simp only [verdict, hnode]
  cases hs : getRetryStrategy node.retryConfig with
  | error e => exact ⟨fun _ => Or.inl rfl, fun _ => rfl⟩
  | ok strategy =>
    obtain ⟨n, hn⟩ := Nat.exists_eq_add_of_le' (E.maxAttempts_pos node)
    cases hc : getTaskClass node.taskType with
    | error e =>
      rw [hn, attempts_error _ _ _ _ hc]
      exact ⟨fun _ => Or.inr (Or.inl rfl), fun _ => rfl⟩
    | ok taskClass =>
      rw [attempts_isRaise _ _ _ _ hc]
      have hlt (k : Nat) : k + 1 < 1 + E.maxAttempts node ↔ k < E.maxAttempts node := by omega
      simp [hlt, Except.toBool]

private theorem evalGenerations_raised {gens : List (List TaskId)} {sum : Summary} (h : sum.raised = false)
    (hgens : ∀ t ∈ gens.flatten, ∀ outputs, (verdict E handler input outputs t).isRaise = false) :
    (evalGenerations E handler input gens sum).raised = false := by
  induction gens generalizing sum with
  | nil => exact h
  | cons gen rest ih =>
    have hnext : (evalGeneration E handler input sum gen).raised = false := by
      simp only [evalGeneration, h, Bool.false_or, List.any_eq_false, Bool.not_eq_true]
      exact fun t ht => hgens t (List.mem_flatten_of_mem List.mem_cons_self ht) _
    rw [evalGenerations]
    split
    · exact hnext
    · exact ih hnext (fun t ht => hgens t (List.mem_append_right _ ht))

/-- Where all settings are defined, the evaluation meets no exception. -/
theorem evaluate_raised (hdefined : ∀ node ∈ E.dag.nodes, RaisesNothing E node) :
    (evaluate E handler input).raised = false := by
  refine evalGenerations_raised E handler input rfl (fun t ht outputs => ?_)
  have hmem : t ∈ E.dag.graph.nodes := E.dag.graph.topologicalGenerations_waves.mem_nodes ht
  obtain ⟨node, hnode⟩ := E.dag.exists_getTask hmem
  obtain ⟨hin, rfl⟩ := E.dag.getTask_ok hnode
  have hd := hdefined node hin
  by_contra hraise
  rcases (verdict_isRaise E handler input hnode outputs).mp (by simpa using hraise) with h | h | ⟨k, hlt, hk⟩
  · rw [hd.strategy] at h
    cases h
  · rw [hd.taskClass] at h
    cases h
  · have h := hk.delay
    rw [hd.delay k hk.le hlt] at h
    cases h

end Run
end BackendProjects.Workflow
