import BackendProjects.Workflow.Attempts

/-! The retry loop of one task as a function of what its awaits come back with: what it leaves in
the row, what the handler sees of it, and when it comes to its end. -/
namespace BackendProjects.Workflow
open Library

/-- What one round of the loop reads from outside: the status of the execution, the clock when
the attempt begins and ends, the answer of the handler and the random sample of the delay. -/
structure Round where
  status : ExecutionState
  started : Time
  outcome : Outcome
  ended : Time
  sample : Rat

structure Call where
  row : TaskExecution
  events : List HandlerEvent
  result : Except PyError Bool

namespace Call

def after (events : List HandlerEvent) (call : Call) : Call :=
  { call with events := events ++ call.events }

def failing (e : PyError) (call : Call) : Call := { call with result := .error e }

end Call

section Source
variable (E : Engine) (node : DAGNode) (input : PyDict)

def executeTaskOnce (round : Round) (te : TaskExecution) : Call :=
  match getTaskClass node.taskType with
  | .error e => ⟨te, [], .error e⟩
  | .ok _ =>
      let te := te.begin round.started
      match round.outcome with
      | .raises e => ⟨te, [.started node.taskId te.attempt input], .error e⟩
      | outcome =>
          ⟨te.answered E.strOf round.ended (taskTimeout E.settings node) outcome,
            [.started node.taskId te.attempt input, .returned node.taskId te.attempt outcome],
            .ok outcome.ok⟩

@[simp] theorem executeTaskOnce_attempt (round : Round) (te : TaskExecution) :
    (executeTaskOnce E node input round te).row.attempt = te.attempt := by
  unfold executeTaskOnce
  cases getTaskClass node.taskType with
  | error e => rfl
  | ok taskClass => cases round.outcome <;> simp [TaskExecution.begin]

@[simp] theorem executeTaskOnce_maxAttempts (round : Round) (te : TaskExecution) :
    (executeTaskOnce E node input round te).row.maxAttempts = te.maxAttempts := by
  unfold executeTaskOnce
  cases getTaskClass node.taskType with
  | error e => rfl
  | ok taskClass => cases round.outcome <;> simp [TaskExecution.begin]

/-- An attempt whose handler is there and answers, in one way or the other. -/
theorem executeTaskOnce_answered {taskClass : TaskClass} {round : Round}
    (hclass : getTaskClass node.taskType = .ok taskClass) (hcaught : ∀ e, round.outcome ≠ .raises e)
    (te : TaskExecution) :
    executeTaskOnce E node input round te =
      ⟨(te.begin round.started).answered E.strOf round.ended (taskTimeout E.settings node) round.outcome,
        [.started node.taskId te.attempt input, .returned node.taskId te.attempt round.outcome],
        .ok round.outcome.ok⟩ := by
  simp only [executeTaskOnce, hclass]
  cases houtcome : round.outcome with
  | result r => rfl
  | timeout => rfl
  | raises e => exact absurd houtcome (hcaught e)

def retryLoop (strategy : RetryStrategy) (rounds : Nat → Round) (te : TaskExecution) : Call :=
  if te.attempt ≤ te.maxAttempts then
    if (rounds te.attempt).status = .cancelled then ⟨te, [], .ok false⟩
    else
      let once := executeTaskOnce E node input (rounds te.attempt) te
      match once.result with
      | .error _ => once
      | .ok true => once
      | .ok false =>
          if once.row.maxAttempts ≤ once.row.attempt then once
          else match strategy.getDelay once.row.attempt (rounds te.attempt).sample with
            | .error e => once.failing e
            | .ok delay =>
                (retryLoop strategy rounds once.row.again).after
                  (once.events ++ [.slept node.taskId delay])
  else ⟨te, [], .ok false⟩
termination_by te.maxAttempts + 1 - te.attempt
decreasing_by
  simp only [TaskExecution.again, executeTaskOnce_attempt, executeTaskOnce_maxAttempts]
  omega

/-- `_execute_task_with_retries`; each round ends as its awaited `wait_for` does, and the store refuses no row. -/
def executeTaskWithRetries (rounds : Nat → Round) (te : TaskExecution) : Call :=
  match getRetryStrategy node.retryConfig with
  | .error e => ⟨te, [], .error e⟩
  | .ok strategy => retryLoop E node input strategy rounds te

end Source

/-! ### The loop and the steps of its coroutine -/

section Steps
variable {E : Engine} {node : DAGNode} {s s' : RunState} {te : Nat} {row : TaskExecution}

theorem Step.of_node {t : TaskId} (hnode : E.dag.getTask t = .ok node) (now : Time) (sample : Rat)
    (outcome : Outcome) (h : nodeStep E node now sample outcome s = some s') :
    Step E anyAnswer s s' := by
  refine step_of_possible E (c := .node t now sample outcome) (fun _ _ _ => trivial) s s' ?_
  simpa [step, hnode] using h

structure Leaves (s : RunState) (node : DAGNode) (te : Nat) (row : TaskExecution)
    (events : List HandlerEvent) (pc : NodePc) (s' : RunState) : Prop where
  execution : s'.mem.execution = s.mem.execution
  row : s'.mem.tasks[te]? = some row
  trace : s'.trace = s.trace ++ events
  pc : s'.pc node.taskId = pc

def Call.afterOnce (call : Call) (te : Nat) (input : PyDict) : NodePc :=
  match call.result with
  | .ok true => .finishing te true
  | .ok false => .attemptFailed te input
  | .error e => .raised e

def Call.afterLoop (call : Call) (te : Nat) : NodePc :=
  match call.result with
  | .ok ok => .finishing te ok
  | .error e => .raised e

variable {input : PyDict}

/-- After a success and after an exception there is no other attempt. -/
private theorem Call.afterLoop_of_success {call : Call} (h : call.result = .ok true) :
    call.afterOnce te input = call.afterLoop te := by
  simp [afterOnce, afterLoop, h]

private theorem Call.afterLoop_of_error {call : Call} {e : PyError} (h : call.result = .error e) :
    call.afterOnce te input = call.afterLoop te := by
  simp [afterOnce, afterLoop, h]

private theorem Call.afterOnce_of_failure {call : Call} (h : call.result = .ok false) :
    call.afterOnce te input = .attemptFailed te input := by
  simp [afterOnce, h]

/-- The coroutine's steps from the check of the status make one attempt. -/
theorem executeTaskOnce_steps (hnode : E.dag.getTask node.taskId = .ok node) (round : Round)
    (hpc : s.pc node.taskId = .looping te input) (hrow : s.mem.tasks[te]? = some row)
    (hle : row.attempt ≤ row.maxAttempts) (hstatus : round.status = s.mem.execution.status)
    (hround : round.status ≠ .cancelled) :
    ∃ s', Run (Step E anyAnswer) s s' ∧
      Leaves s node te (executeTaskOnce E node input round row).row
        (executeTaskOnce E node input round row).events
        ((executeTaskOnce E node input round row).afterOnce te input) s' := by
  have hlive : s.mem.execution.status ≠ .cancelled := hstatus ▸ hround
  cases hclass : getTaskClass node.taskType with
  | error e =>
    have hstep : nodeStep E node round.started round.sample round.outcome s =
        some (s.throw node.taskId e) := by
      simp [nodeStep, hpc, hrow, hle, hlive, hclass]
    refine ⟨_, .single (Step.of_node hnode _ _ _ hstep), ?_⟩
    constructor <;> simp [executeTaskOnce, hclass, hrow, Call.afterOnce]
  | ok taskClass =>
    let begun := (s.saveTask te (·.begin round.started)).goto node.taskId (.running te input)
    have hbegin : nodeStep E node round.started round.sample round.outcome s = some begun := by
      simp [nodeStep, hpc, hrow, hle, hlive, hclass, begun]
    have hbegun : begun.mem.tasks[te]? = some (row.begin round.started) := by
      simp [begun, hrow]
    let called := (begun.emit (.started node.taskId row.attempt input)).goto node.taskId
      (.handling te input)
    have hcall : nodeStep E node round.started round.sample round.outcome begun = some called := by
      simp [nodeStep, begun, hrow, called, TaskExecution.begin]
    have hcalled : called.mem.tasks[te]? = some (row.begin round.started) := hbegun
    have hrun : Run (Step E anyAnswer) s called :=
      (Relation.ReflTransGen.single (Step.of_node hnode _ _ _ hbegin)).tail
        (Step.of_node hnode _ _ _ hcall)
    by_cases hraises : ∃ e, round.outcome = .raises e
    · obtain ⟨e, he⟩ := hraises
      have hthrow : nodeStep E node round.ended round.sample round.outcome called =
          some (called.throw node.taskId e) := by
        simp [nodeStep, called, begun, hrow, he]
      refine ⟨_, hrun.tail (Step.of_node hnode _ _ _ hthrow), ?_⟩
      constructor <;>
        simp [executeTaskOnce, hclass, he, hrow, Call.afterOnce, called, begun, TaskExecution.begin]
    · have hcaught (e : PyError) : round.outcome ≠ .raises e := fun he => hraises ⟨e, he⟩
      have hanswer : nodeStep E node round.ended round.sample round.outcome called =
          some (((called.emit (.returned node.taskId row.attempt round.outcome)).saveTask te
            (·.answered E.strOf round.ended (taskTimeout E.settings node) round.outcome)).goto
              node.taskId (if round.outcome.ok then .finishing te true else .attemptFailed te input)) := by
        simp only [nodeStep, RunState.goto_pc, Function.update_self, hcalled, called,
          Option.bind_eq_bind, Option.bind_some]
        cases houtcome : round.outcome with
        | result r => rfl
        | timeout => rfl
        | raises e => exact absurd houtcome (hcaught e)
      refine ⟨_, hrun.tail (Step.of_node hnode _ _ _ hanswer), ?_⟩
      rw [executeTaskOnce_answered E node input hclass hcaught]
      constructor
      · rfl
      · simp [hcalled]
      · simp [called, begun]
      · cases hok : round.outcome.ok <;> simp [Call.afterOnce]

/-- An attempt that fails leaves the coroutine where the loop decides about another one. -/
theorem failedAttempt_steps (hnode : E.dag.getTask node.taskId = .ok node) (round : Round)
    (hpc : s.pc node.taskId = .looping te input) (hrow : s.mem.tasks[te]? = some row)
    (hle : row.attempt ≤ row.maxAttempts) (hstatus : round.status = s.mem.execution.status)
    (hround : round.status ≠ .cancelled)
    (hresult : (executeTaskOnce E node input round row).result = .ok false) :
    ∃ s', Run (Step E anyAnswer) s s' ∧
      Leaves s node te (executeTaskOnce E node input round row).row
        (executeTaskOnce E node input round row).events (.attemptFailed te input) s' := by
  obtain ⟨s', hrun, hleaves⟩ := executeTaskOnce_steps hnode round hpc hrow hle hstatus hround
  exact ⟨s', hrun, hleaves.execution, hleaves.row, hleaves.trace,
    hleaves.pc.trans (Call.afterOnce_of_failure hresult)⟩

/-- Alone, the coroutine does what the loop does, from the same row and under one status. -/
theorem retryLoop_steps (hnode : E.dag.getTask node.taskId = .ok node) {strategy : RetryStrategy}
    (hstrategy : getRetryStrategy node.retryConfig = .ok strategy) {rounds : Nat → Round}
    (hstatus : ∀ n, (rounds n).status = s.mem.execution.status)
    (hpc : s.pc node.taskId = .looping te input) (hrow : s.mem.tasks[te]? = some row) :
    ∃ s', Run (Step E anyAnswer) s s' ∧
      Leaves s node te (retryLoop E node input strategy rounds row).row
        (retryLoop E node input strategy rounds row).events
        ((retryLoop E node input strategy rounds row).afterLoop te) s' := by
  fun_induction retryLoop E node input strategy rounds row generalizing s
  case case1 row hle hcancelled =>
    have hs : s.mem.execution.status = .cancelled := (hstatus row.attempt).symm.trans hcancelled
    have hstop : nodeStep E node 0 0 .timeout s = some (s.goto node.taskId (.finishing te false)) := by
      simp [nodeStep, hpc, hrow, hs]
    refine ⟨_, .single (Step.of_node hnode _ _ _ hstop), ?_⟩
    constructor <;> simp [hrow, Call.afterLoop]
  case case2 row hle hlive once e hresult =>
    obtain ⟨s', hrun, hleaves⟩ :=
      executeTaskOnce_steps hnode (rounds row.attempt) hpc hrow hle (hstatus _) hlive
    exact ⟨s', hrun, hleaves.execution, hleaves.row, hleaves.trace,
      hleaves.pc.trans (Call.afterLoop_of_error hresult)⟩
  case case3 row hle hlive once hresult =>
    obtain ⟨s', hrun, hleaves⟩ :=
      executeTaskOnce_steps hnode (rounds row.attempt) hpc hrow hle (hstatus _) hlive
    exact ⟨s', hrun, hleaves.execution, hleaves.row, hleaves.trace,
      hleaves.pc.trans (Call.afterLoop_of_success hresult)⟩
  case case4 row hle hlive once hresult hlast =>
    obtain ⟨s₁, hrun, hleaves⟩ :=
      failedAttempt_steps hnode (rounds row.attempt) hpc hrow hle (hstatus _) hlive hresult
    have hexhausted : nodeStep E node 0 0 .timeout s₁ =
        some (s₁.goto node.taskId (.finishing te false)) := by
      simp only [nodeStep, hleaves.pc, hleaves.row, Option.bind_eq_bind, Option.bind_some]
      exact if_pos hlast
    refine ⟨_, hrun.tail (Step.of_node hnode _ _ _ hexhausted), hleaves.execution, hleaves.row,
      hleaves.trace, ?_⟩
    simp [Call.afterLoop, hresult]
  case case5 row hle hlive once hresult hmore e hdelay =>
    obtain ⟨s₁, hrun, hleaves⟩ :=
      failedAttempt_steps hnode (rounds row.attempt) hpc hrow hle (hstatus _) hlive hresult
    have hthrow : nodeStep E node 0 (rounds row.attempt).sample .timeout s₁ =
        some (s₁.throw node.taskId e) := by
      simp only [nodeStep, hleaves.pc, hleaves.row, hstrategy, Option.bind_eq_bind, Option.bind_some]
      rw [if_neg hmore]
      simp only [Except.bind]
      rw [hdelay]
    refine ⟨_, hrun.tail (Step.of_node hnode _ _ _ hthrow), hleaves.execution, hleaves.row,
      hleaves.trace, ?_⟩
    simp [Call.afterLoop, Call.failing]
  case case6 row hle hlive once hresult hmore delay hdelay ih =>
    obtain ⟨s₁, hrun, hleaves⟩ :=
      failedAttempt_steps hnode (rounds row.attempt) hpc hrow hle (hstatus _) hlive hresult
    have hbackOff : nodeStep E node 0 (rounds row.attempt).sample .timeout s₁ =
        some ((s₁.emit (.slept node.taskId delay)).goto node.taskId (.sleeping te input)) := by
      simp only [nodeStep, hleaves.pc, hleaves.row, hstrategy, Option.bind_eq_bind, Option.bind_some]
      rw [if_neg hmore]
      simp only [Except.bind]
      rw [hdelay]
    let slept := (s₁.emit (.slept node.taskId delay)).goto node.taskId (.sleeping te input)
    let s₂ := (slept.saveTask te (·.again)).goto node.taskId (.looping te input)
    have hagain : nodeStep E node 0 0 .timeout slept = some s₂ := by
      simp [nodeStep, slept, s₂]
    have hrow₂ : s₂.mem.tasks[te]? = some once.row.again := by
      simp [s₂, slept, hleaves.row, once]
    have hstatus₂ (n : Nat) : (rounds n).status = s₂.mem.execution.status :=
      (hstatus n).trans (congrArg WorkflowExecution.status hleaves.execution.symm)
    obtain ⟨s', hrun', hleaves'⟩ := ih hstatus₂ (Function.update_self ..) hrow₂
    refine ⟨s', ((hrun.tail (Step.of_node hnode _ _ _ hbackOff)).tail
      (Step.of_node hnode _ _ _ hagain)).trans hrun', hleaves'.execution.trans hleaves.execution,
      hleaves'.row, ?_, hleaves'.pc⟩
    have htrace : s₂.trace = s.trace ++ (once.events ++ [.slept node.taskId delay]) := by
      simp [s₂, slept, hleaves.trace, once]
    rw [hleaves'.trace, htrace, List.append_assoc]
    rfl
  case case7 row hle =>
    have hstop : nodeStep E node 0 0 .timeout s = some (s.goto node.taskId (.finishing te false)) := by
      simp [nodeStep, hpc, hrow, hle]
    refine ⟨_, .single (Step.of_node hnode _ _ _ hstop), ?_⟩
    constructor <;> simp [hrow, Call.afterLoop]

end Steps

/-! ### What the loop comes to -/

/-- No round sees a cancellation, and every handler answers. -/
def Undisturbed (rounds : Nat → Round) : Prop :=
  ∀ n, (rounds n).status ≠ .cancelled ∧ ∀ e, (rounds n).outcome ≠ .raises e

def SucceedsAfter (rounds : Nat → Round) (a failures : Nat) : Prop :=
  (rounds (a + failures)).outcome.ok = true ∧ ∀ i < failures, (rounds (a + i)).outcome.ok = false

/-- `n` calls of the handler from attempt `a` on, with one sleep between any two of them. -/
def callEvents (t : TaskId) (input : PyDict) (rounds : Nat → Round) (delay : Nat → Rat) (a : Nat) :
    Nat → List HandlerEvent
  | 0 => []
  | n + 1 =>
      [.started t a input, .returned t a (rounds a).outcome] ++
        if n = 0 then [] else .slept t (delay a) :: callEvents t input rounds delay (a + 1) n

/-- What `n` calls of the handler leave behind, the last of which succeeds or not; the others
have failed, and the delay after each is the one of its attempt. -/
structure Accounted (node : DAGNode) (input : PyDict) (strategy : RetryStrategy) (rounds : Nat → Round)
    (a n : Nat) (ok : Bool) (call : Call) : Prop where
  calls : call.events.countP (HandlerEvent.starts node.taskId) = n
  result : call.result = .ok ok
  status : call.row.status = if ok then .completed else .failed
  error : ok = true → call.row.error = none
  attempt : call.row.attempt + 1 = a + n
  events : ∃ delay : Nat → Rat,
    (∀ i, i + 1 < n → strategy.getDelay (a + i) (rounds (a + i)).sample = .ok (delay (a + i))) ∧
    call.events = callEvents node.taskId input rounds delay a n

/-- The delays that are not slept do not matter. -/
theorem callEvents_congr {t : TaskId} {input : PyDict} {rounds : Nat → Round} {delay delay' : Nat → Rat}
    {a n : Nat} (h : ∀ b, a ≤ b → delay b = delay' b) :
    callEvents t input rounds delay a n = callEvents t input rounds delay' a n := by
  induction n generalizing a with
  | zero => rfl
  | succ n ih => rw [callEvents, callEvents, h a le_rfl, ih (fun b hb => h b (by omega))]

section Accounting
variable {E : Engine} {node : DAGNode} {input : PyDict} {strategy : RetryStrategy}
  {rounds : Nat → Round} {te : TaskExecution} {taskClass : TaskClass}

def Round.leaves (E : Engine) (node : DAGNode) (round : Round) (te : TaskExecution) : TaskExecution :=
  (te.begin round.started).answered E.strOf round.ended (taskTimeout E.settings node) round.outcome

def Round.calls (node : DAGNode) (input : PyDict) (round : Round) (attempt : Nat) : List HandlerEvent :=
  [.started node.taskId attempt input, .returned node.taskId attempt round.outcome]

private theorem Round.leaves_attempt (E : Engine) (node : DAGNode) (round : Round) (te : TaskExecution) :
    (round.leaves E node te).attempt = te.attempt := by
  simp [leaves, TaskExecution.begin]

private theorem Round.next_attempt (E : Engine) (node : DAGNode) (round : Round) (te : TaskExecution) :
    (round.leaves E node te).again.attempt = te.attempt + 1 :=
  congrArg (· + 1) (round.leaves_attempt E node te)

private theorem Round.next_maxAttempts (E : Engine) (node : DAGNode) (round : Round) (te : TaskExecution) :
    (round.leaves E node te).again.maxAttempts = te.maxAttempts := by
  simp [leaves, TaskExecution.begin, TaskExecution.again]

/-- One round of an undisturbed loop. -/
theorem retryLoop_undisturbed (hclass : getTaskClass node.taskType = .ok taskClass)
    (quiet : Undisturbed rounds) (hle : te.attempt ≤ te.maxAttempts) :
    retryLoop E node input strategy rounds te =
      if (rounds te.attempt).outcome.ok then
        ⟨(rounds te.attempt).leaves E node te, (rounds te.attempt).calls node input te.attempt, .ok true⟩
      else if te.maxAttempts ≤ te.attempt then
        ⟨(rounds te.attempt).leaves E node te, (rounds te.attempt).calls node input te.attempt, .ok false⟩
      else match strategy.getDelay te.attempt (rounds te.attempt).sample with
        | .error e =>
            ⟨(rounds te.attempt).leaves E node te, (rounds te.attempt).calls node input te.attempt,
              .error e⟩
        | .ok delay =>
            (retryLoop E node input strategy rounds ((rounds te.attempt).leaves E node te).again).after
              ((rounds te.attempt).calls node input te.attempt ++ [.slept node.taskId delay]) := by
  rw [retryLoop, if_pos hle, if_neg (quiet te.attempt).1]
  rw [executeTaskOnce_answered E node input hclass (quiet te.attempt).2]
  cases hok : (rounds te.attempt).outcome.ok with
  | true => simp [Round.leaves, Round.calls]
  | false =>
    by_cases hlast : te.maxAttempts ≤ te.attempt
    · simp [hlast, Round.leaves, Round.calls, TaskExecution.begin]
    · simp [hlast, Round.leaves, Round.calls, TaskExecution.begin, Call.failing]

private theorem Round.leaves_status {round : Round} (h : ∀ e, round.outcome ≠ .raises e) :
    (round.leaves E node te).status = if round.outcome.ok then .completed else .failed := by
  unfold leaves
  cases houtcome : round.outcome with
  | result r => cases hr : r.success <;> simp [TaskExecution.answered, TaskExecution.record, Outcome.ok, hr]
  | timeout => rfl
  | raises e => exact absurd houtcome (h e)

private theorem Round.leaves_error {round : Round} (h : round.outcome.ok = true) :
    (round.leaves E node te).error = none := by
  unfold leaves
  cases houtcome : round.outcome with
  | result r =>
    have hr : r.success = true := by
      rw [houtcome] at h
      exact h
    simp [TaskExecution.answered, TaskExecution.record, hr]
  | timeout => simp [houtcome, Outcome.ok] at h
  | raises e => simp [houtcome, Outcome.ok] at h

/-- The last attempt of a loop. -/
theorem accounted_last (quiet : Undisturbed rounds) {ok : Bool}
    (hok : (rounds te.attempt).outcome.ok = ok) :
    Accounted node input strategy rounds te.attempt 1 ok
      ⟨(rounds te.attempt).leaves E node te, (rounds te.attempt).calls node input te.attempt, .ok ok⟩ where
  calls := by simp [Round.calls, HandlerEvent.starts]
  result := rfl
  status := by rw [Round.leaves_status (quiet te.attempt).2, hok]
  error h := Round.leaves_error (hok.trans h)
  attempt := congrArg (· + 1) (Round.leaves_attempt ..)
  events := ⟨fun _ => 0, fun i hi => absurd hi (by omega), rfl⟩

/-- An attempt that fails and is made again adds one call and one sleep. -/
private theorem Accounted.retried {a n : Nat} {ok : Bool} {call : Call} {delay : Rat}
    (h : Accounted node input strategy rounds (a + 1) n ok call) (hn : n ≠ 0)
    (hdelay : strategy.getDelay a (rounds a).sample = .ok delay) :
    Accounted node input strategy rounds a (n + 1) ok
      (call.after ((rounds a).calls node input a ++ [.slept node.taskId delay])) where
  calls := by simp [Call.after, Round.calls, HandlerEvent.starts, h.calls]
  result := h.result
  status := h.status
  error := h.error
  attempt := h.attempt.trans (by omega)
  events := by
    obtain ⟨later, hlater, hevents⟩ := h.events
    have hsame (b : Nat) (hb : a + 1 ≤ b) : later b = Function.update later a delay b :=
      (Function.update_of_ne (by omega) ..).symm
    refine ⟨Function.update later a delay, fun i hi => ?_, ?_⟩
    · cases i with
      | zero => simpa using hdelay
      | succ i =>
        have hi' := hlater i (by omega)
        rw [hsame (a + 1 + i) (by omega)] at hi'
        rwa [show a + (i + 1) = a + 1 + i by omega]
    · rw [callEvents, if_neg hn, ← callEvents_congr hsame, ← hevents, Function.update_self]
      simp [Call.after, Round.calls]

/-- The loop goes on after a failure that is not the last one. -/
theorem retryLoop_backOff (hclass : getTaskClass node.taskType = .ok taskClass)
    (quiet : Undisturbed rounds) (hlt : te.attempt < te.maxAttempts)
    (hfail : (rounds te.attempt).outcome.ok = false) {delay : Rat}
    (hdelay : strategy.getDelay te.attempt (rounds te.attempt).sample = .ok delay) :
    retryLoop E node input strategy rounds te =
      (retryLoop E node input strategy rounds ((rounds te.attempt).leaves E node te).again).after
        ((rounds te.attempt).calls node input te.attempt ++ [.slept node.taskId delay]) := by
  rw [retryLoop_undisturbed hclass quiet hlt.le]
  simp [hfail, hlt.not_ge, hdelay]

/-- The accounts of a call that begins with such a failure, from those of the loop after it. -/
theorem accounted_after_failure (hclass : getTaskClass node.taskType = .ok taskClass)
    (quiet : Undisturbed rounds) (hlt : te.attempt < te.maxAttempts)
    (hfail : (rounds te.attempt).outcome.ok = false)
    (hbackoff : (strategy.backoff te.attempt).toBool = true) {n : Nat} {ok : Bool} (hn : n ≠ 0)
    (h : Accounted node input strategy rounds ((rounds te.attempt).leaves E node te).again.attempt n ok
      (retryLoop E node input strategy rounds ((rounds te.attempt).leaves E node te).again)) :
    Accounted node input strategy rounds te.attempt (n + 1) ok
      (retryLoop E node input strategy rounds te) := by
  obtain ⟨delay, hdelay⟩ := strategy.exists_getDelay hbackoff (rounds te.attempt).sample
  rw [retryLoop_backOff hclass quiet hlt hfail hdelay]
  rw [Round.next_attempt] at h
  exact h.retried hn hdelay

/-- A success is found after as many failures as come before it. -/
theorem accounted_success (hclass : getTaskClass node.taskType = .ok taskClass)
    (quiet : Undisturbed rounds) {failures : Nat} (h : SucceedsAfter rounds te.attempt failures)
    (hle : te.attempt + failures ≤ te.maxAttempts)
    (hdelays : ∀ b, te.attempt ≤ b → b < te.attempt + failures → (strategy.backoff b).toBool = true) :
    Accounted node input strategy rounds te.attempt (failures + 1) true
      (retryLoop E node input strategy rounds te) := by
  induction failures generalizing te with
  | zero =>
    have hok : (rounds te.attempt).outcome.ok = true := h.1
    rw [retryLoop_undisturbed hclass quiet (by omega), if_pos hok]
    exact accounted_last quiet hok
  | succ failures ih =>
    have hfail : (rounds te.attempt).outcome.ok = false := h.2 0 (Nat.succ_pos _)
    have hbackoff := hdelays te.attempt le_rfl (by omega)
    have hnext := (rounds te.attempt).next_attempt E node te
    have hmax := (rounds te.attempt).next_maxAttempts E node te
    refine accounted_after_failure hclass quiet (by omega) hfail hbackoff (Nat.succ_ne_zero _) ?_
    refine ih ⟨?_, fun i hi => ?_⟩ (by omega) (fun b hb hlt => hdelays b (by omega) (by omega))
    · rw [hnext, Nat.add_right_comm]
      exact h.1
    · rw [hnext, Nat.add_right_comm]
      exact h.2 (i + 1) (by omega)

/-- Without a success the loop makes all attempts that are left. -/
theorem accounted_failure (hclass : getTaskClass node.taskType = .ok taskClass)
    (quiet : Undisturbed rounds) {n : Nat} (hn : te.attempt + n = te.maxAttempts)
    (h : ∀ i ≤ n, (rounds (te.attempt + i)).outcome.ok = false)
    (hdelays : ∀ b, te.attempt ≤ b → b < te.maxAttempts → (strategy.backoff b).toBool = true) :
    Accounted node input strategy rounds te.attempt (n + 1) false
      (retryLoop E node input strategy rounds te) := by
  induction n generalizing te with
  | zero =>
    have hfail : (rounds te.attempt).outcome.ok = false := h 0 le_rfl
    rw [retryLoop_undisturbed hclass quiet (by omega), if_neg (by simp [hfail]), if_pos (by omega)]
    exact accounted_last quiet hfail
  | succ n ih =>
    have hfail : (rounds te.attempt).outcome.ok = false := h 0 (Nat.zero_le _)
    have hbackoff := hdelays te.attempt le_rfl (by omega)
    have hnext := (rounds te.attempt).next_attempt E node te
    have hmax := (rounds te.attempt).next_maxAttempts E node te
    refine accounted_after_failure hclass quiet (by omega) hfail hbackoff (Nat.succ_ne_zero _) ?_
    refine ih (by omega) (fun i hi => ?_) (fun b hb hlt => hdelays b (by omega) (by omega))
    rw [hnext, Nat.add_right_comm]
    exact h (i + 1) (by omega)

/-- An attempt that is to be made again and has no delay takes the call down. -/
theorem retryLoop_raises (hclass : getTaskClass node.taskType = .ok taskClass)
    (quiet : Undisturbed rounds) {i : Nat} (hlt : te.attempt + i < te.maxAttempts)
    (h : ∀ j ≤ i, (rounds (te.attempt + j)).outcome.ok = false)
    (hdelay : (strategy.backoff (te.attempt + i)).toBool = false) :
    ∃ e, (retryLoop E node input strategy rounds te).result = .error e := by
  induction i generalizing te with
  | zero =>
    have hfail : (rounds te.attempt).outcome.ok = false := h 0 le_rfl
    rw [retryLoop_undisturbed hclass quiet (by omega), if_neg (by simp [hfail]), if_neg (by omega)]
    cases hd : strategy.getDelay te.attempt (rounds te.attempt).sample with
    | error e => exact ⟨e, rfl⟩
    | ok delay =>
      rw [Nat.add_zero, ← strategy.getDelay_isOk te.attempt (rounds te.attempt).sample, hd] at hdelay
      cases hdelay
  | succ i ih =>
    have hfail : (rounds te.attempt).outcome.ok = false := h 0 (Nat.zero_le _)
    cases hd : strategy.getDelay te.attempt (rounds te.attempt).sample with
    | error e =>
      rw [retryLoop_undisturbed hclass quiet (by omega), if_neg (by simp [hfail]), if_neg (by omega), hd]
      exact ⟨e, rfl⟩
    | ok delay =>
      rw [retryLoop_backOff hclass quiet (by omega) hfail hd]
      have hnext := (rounds te.attempt).next_attempt E node te
      have hmax := (rounds te.attempt).next_maxAttempts E node te
      have hlt' : ((rounds te.attempt).leaves E node te).again.attempt + i <
          ((rounds te.attempt).leaves E node te).again.maxAttempts := by omega
      refine ih hlt' (fun j hj => ?_) ?_
      · rw [hnext, Nat.add_right_comm]
        exact h (j + 1) (by omega)
      · rw [hnext, Nat.add_right_comm]
        exact hdelay

/-- The accounts of a call: the handler is called up to its first success or until the attempts
are used up, and the row says which. -/
def AccountsForAttempts (node : DAGNode) (input : PyDict) (rounds : Nat → Round) (te : TaskExecution)
    (call : Call) : Prop :=
  ∃ strategy, getRetryStrategy node.retryConfig = .ok strategy ∧
    (∀ failures, SucceedsAfter rounds te.attempt failures → te.attempt + failures ≤ te.maxAttempts →
      Accounted node input strategy rounds te.attempt (failures + 1) true call) ∧
    ((∀ failures, SucceedsAfter rounds te.attempt failures → te.maxAttempts < te.attempt + failures) →
      Accounted node input strategy rounds te.attempt (te.maxAttempts - te.attempt + 1) false call)

def Retried (rounds : Nat → Round) (te : TaskExecution) (b : Nat) : Prop :=
  te.attempt ≤ b ∧ b < te.maxAttempts ∧ ∀ c, te.attempt ≤ c → c ≤ b → (rounds c).outcome.ok = false

private theorem AccountsForAttempts.result {call : Call} (h : AccountsForAttempts node input rounds te call) :
    ∃ ok, call.result = .ok ok := by
  obtain ⟨strategy, _, hsuccess, hfailure⟩ := h
  by_cases hfirst : ∃ failures, SucceedsAfter rounds te.attempt failures ∧
      te.attempt + failures ≤ te.maxAttempts
  · obtain ⟨failures, hfirst, hle⟩ := hfirst
    exact ⟨true, (hsuccess failures hfirst hle).result⟩
  · exact ⟨false, (hfailure fun failures h => not_le.mp fun hle => hfirst ⟨failures, h, hle⟩).result⟩

/-- Where no attempt up to `n` is the first success, all of them fail. -/
theorem not_ok_of_no_first {a n : Nat}
    (h : ∀ failures, SucceedsAfter rounds a failures → n < failures) :
    ∀ i ≤ n, (rounds (a + i)).outcome.ok = false := by
  intro i
  induction i using Nat.strong_induction_on with
  | _ i ih =>
    intro hi
    by_contra hok
    have hfirst : SucceedsAfter rounds a i :=
      ⟨Bool.of_not_eq_false hok, fun j hj => ih j hj (hj.le.trans hi)⟩
    exact absurd (h i hfirst) (not_lt.mpr hi)

end Accounting

section Claim
variable (E : Engine) (node : DAGNode) (input : PyDict) {rounds : Nat → Round} {te : TaskExecution}

/-- A task whose type nobody has registered is not even called. -/
theorem retryLoop_unregistered (strategy : RetryStrategy) (quiet : Undisturbed rounds)
    (hle : te.attempt ≤ te.maxAttempts) {e : PyError} (hclass : getTaskClass node.taskType = .error e) :
    (retryLoop E node input strategy rounds te).result = .error e := by
  rw [retryLoop, if_pos hle, if_neg (quiet te.attempt).1]
  simp [executeTaskOnce, hclass]

/-- Where the accounts are kept, no attempt that was made again has gone without a delay. -/
theorem factorFits_of_accounts (quiet : Undisturbed rounds)
    (h : AccountsForAttempts node input rounds te (executeTaskWithRetries E node input rounds te))
    {taskClass : TaskClass} (hclass : getTaskClass node.taskType = .ok taskClass) {b : Nat}
    (hb : Retried rounds te b) : FactorFits node.retryConfig b := by
  obtain ⟨ok, hresult⟩ := h.result
  obtain ⟨strategy, hstrategy, -⟩ := h
  obtain ⟨hab, hbm, hfail⟩ := hb
  obtain ⟨i, rfl⟩ := Nat.exists_eq_add_of_le hab
  rw [← RetryStrategy.backoff_isOk hstrategy]
  by_contra hdelay
  have hraises : ∃ e, (retryLoop E node input strategy rounds te).result = .error e :=
    retryLoop_raises hclass quiet hbm
      (fun j hj => hfail _ (Nat.le_add_right ..) (Nat.add_le_add_left hj _)) (Bool.of_not_eq_true hdelay)
  obtain ⟨e, he⟩ := hraises
  rw [executeTaskWithRetries, hstrategy] at hresult
  cases hresult.symm.trans he

/-- An undisturbed call keeps its accounts if and only if the type of the task is registered and
the delays after the attempts that it makes again are defined. -/
theorem executeTaskWithRetries_accounts_iff (hle : te.attempt ≤ te.maxAttempts)
    (quiet : Undisturbed rounds) :
    AccountsForAttempts node input rounds te (executeTaskWithRetries E node input rounds te) ↔
      (getTaskClass node.taskType).toBool = true ∧ SettingsFit node.retryConfig ∧
        ∀ b, Retried rounds te b → FactorFits node.retryConfig b := by
  constructor
  · intro h
    obtain ⟨ok, hresult⟩ := h.result
    obtain ⟨strategy, hstrategy, -⟩ := id h
    have hfit : SettingsFit node.retryConfig := getRetryStrategy_isOk.mp (by rw [hstrategy]; rfl)
    cases hclass : getTaskClass node.taskType with
    | error e =>
      have hraise := retryLoop_unregistered E node input strategy quiet hle hclass
      rw [executeTaskWithRetries, hstrategy] at hresult
      cases hresult.symm.trans hraise
    | ok taskClass =>
      exact ⟨rfl, hfit, fun b hb => factorFits_of_accounts E node input quiet h hclass hb⟩
  · rintro ⟨hregistered, hfit, hfactors⟩
    cases hclass : getTaskClass node.taskType with
    | error e =>
      rw [hclass] at hregistered
      cases hregistered
    | ok taskClass =>
      cases hstrategy : getRetryStrategy node.retryConfig with
      | error e =>
        rw [← getRetryStrategy_isOk, hstrategy] at hfit
        cases hfit
      | ok strategy =>
        have hdelays {b : Nat} (hb : Retried rounds te b) : (strategy.backoff b).toBool = true :=
          (RetryStrategy.backoff_isOk hstrategy b).mpr (hfactors b hb)
        rw [executeTaskWithRetries, hstrategy]
        refine ⟨strategy, hstrategy, fun failures hfirst hmax => ?_, fun hnone => ?_⟩
        · refine accounted_success hclass quiet hfirst hmax (fun b hab hb => hdelays ⟨hab, by omega, ?_⟩)
          intro c hac hcb
          obtain ⟨i, rfl⟩ := Nat.exists_eq_add_of_le hac
          exact hfirst.2 i (by omega)
        · have hfail := not_ok_of_no_first (n := te.maxAttempts - te.attempt)
            (fun failures hfirst => by have := hnone failures hfirst; omega)
          refine accounted_failure hclass quiet (by omega) hfail (fun b hab hb => hdelays ⟨hab, hb, ?_⟩)
          intro c hac hcb
          obtain ⟨i, rfl⟩ := Nat.exists_eq_add_of_le hac
          exact hfail i (by omega)

end Claim

def failingRounds : Nat → Round := fun _ => ⟨.running, 0, .timeout, 0, 0⟩

private theorem failingRounds_undisturbed : Undisturbed failingRounds := by
  intro n
  constructor
  · intro h
    cases h
  · intro e h
    cases h

def plainNode : DAGNode where
  taskId := "a"
  taskType := "python"
  taskName := "A"
  config := []

def patientNode : DAGNode :=
  { plainNode with retryConfig := some { maxAttempts := 1026, strategy := "exponential" } }

theorem executeTaskWithRetries_accounts_iff_plain :
    AccountsForAttempts plainNode [] failingRounds (.new settings plainNode)
      (executeTaskWithRetries (chainEngine .written) plainNode [] failingRounds
        (.new settings plainNode)) := by
  refine (executeTaskWithRetries_accounts_iff (chainEngine .written) plainNode [] (by decide)
    failingRounds_undisturbed).mpr ⟨by decide, ?_, ?_⟩
  · exact fun config h => nomatch h
  · exact fun b _ config h => nomatch h

/-- From a new row on, the attempt number 1025 fails and its delay overflows. -/
theorem backOff_overflows :
    Undisturbed failingRounds ∧ (TaskExecution.new settings patientNode).attempt = 1 ∧
      (TaskExecution.new settings patientNode).maxAttempts = 1026 ∧
      ¬ AccountsForAttempts patientNode [] failingRounds (.new settings patientNode)
        (executeTaskWithRetries (chainEngine .written) patientNode [] failingRounds
          (.new settings patientNode)) := by
  refine ⟨failingRounds_undisturbed, by decide, by decide, fun h => ?_⟩
  have hretried : Retried failingRounds (.new settings patientNode) 1025 :=
    ⟨by decide, by decide, fun _ _ _ => rfl⟩
  have hclass : getTaskClass patientNode.taskType = .ok .python := rfl
  have hfits := factorFits_of_accounts (chainEngine .written) patientNode [] failingRounds_undisturbed
    h hclass hretried
  exact absurd ((hfits _ rfl).1 rfl) (by decide)

end BackendProjects.Workflow
