import BackendProjects.Workflow.Executor

/-! What a step of a run can do: one constructor for each way from one await to the next. -/
namespace BackendProjects.Workflow
open Library
variable (E : Engine) (answers : Answers)

inductive Throws (node : DAGNode) (s : RunState) : PyError → Prop
  | strategy {te : Nat} {e : PyError} (hpc : s.pc node.taskId = .prepared te)
      (h : getRetryStrategy node.retryConfig = .error e) : Throws node s e
  | taskClass {te : Nat} {input : PyDict} {row : TaskExecution} {e : PyError}
      (hpc : s.pc node.taskId = .looping te input) (hrow : s.mem.tasks[te]? = some row)
      (hle : row.attempt ≤ row.maxAttempts) (hlive : s.mem.execution.status ≠ .cancelled)
      (h : getTaskClass node.taskType = .error e) : Throws node s e
  | handler {te : Nat} {input : PyDict} {row : TaskExecution} {e : PyError}
      (hpc : s.pc node.taskId = .handling te input) (hrow : s.mem.tasks[te]? = some row)
      (h : answers node row.attempt input (.raises e)) : Throws node s e
  | delay {te : Nat} {input : PyDict} {row : TaskExecution} {e : PyError} (sample : Rat)
      (hpc : s.pc node.taskId = .attemptFailed te input) (hrow : s.mem.tasks[te]? = some row)
      (hlt : row.attempt < row.maxAttempts)
      (h : (getRetryStrategy node.retryConfig).bind (·.getDelay row.attempt sample) = .error e) :
      Throws node s e
  | target {sid : TaskId} {toSkip : List TaskId} {e : PyError}
      (hpc : s.pc node.taskId = .branchCreating sid toSkip) (h : E.dag.getTask sid = .error e) :
      Throws node s e

/-- The exceptions between the publication of a condition's output and its branch skips. -/
inductive BranchThrows (node : DAGNode) (row : TaskExecution) : PyError → Prop
  | arity (h : E.reading.branchLock = false) : BranchThrows node row branchArity
  | output {e : PyError} (h : branchSkips E.strOf E.dag node row.outputData = .error e) :
      BranchThrows node row e

/-- What the coroutine of one node can do. -/
inductive NodeMove (node : DAGNode) (s : RunState) : RunState → Prop
  | acquire (hpc : s.pc node.taskId = .waiting) (hsem : 0 < s.sem) :
      NodeMove node s (({ s with sem := s.sem - 1 }).refreshed.goto node.taskId .checking)
  | cancelled (hpc : s.pc node.taskId = .checking) (h : s.mem.execution.status = .cancelled) :
      NodeMove node s (s.leave node.taskId)
  | enter (hpc : s.pc node.taskId = .checking) (h : s.mem.execution.status ≠ .cancelled) :
      NodeMove node s (s.goto node.taskId .entering)
  | settled (hpc : s.pc node.taskId = .entering)
      (h : node.taskId ∈ s.completed ∨ node.taskId ∈ s.skipped) :
      NodeMove node s (s.leave node.taskId)
  | found {te : Nat} (hpc : s.pc node.taskId = .entering) (hc : node.taskId ∉ s.completed)
      (hs : node.taskId ∉ s.skipped) (h : findTask s.mem.tasks node.taskId = some te) :
      NodeMove node s (s.goto node.taskId (.prepared te))
  | missing (hpc : s.pc node.taskId = .entering) (hc : node.taskId ∉ s.completed)
      (hs : node.taskId ∉ s.skipped) (h : findTask s.mem.tasks node.taskId = none) :
      NodeMove node s (s.goto node.taskId .creating)
  | create (hpc : s.pc node.taskId = .creating) :
      NodeMove node s ((s.flush (.new E.settings node)).goto node.taskId
        (.prepared s.mem.tasks.length))
  | prepare {te : Nat} {strategy : RetryStrategy} (hpc : s.pc node.taskId = .prepared te)
      (h : getRetryStrategy node.retryConfig = .ok strategy) :
      NodeMove node s (s.goto node.taskId (.looping te
        (mergedInput s.mem.execution.inputData (predOutputs E.dag node.taskId s.taskOutputs))))
  | begin (now : Time) {te : Nat} {input : PyDict} {row : TaskExecution} {taskClass : TaskClass}
      (hpc : s.pc node.taskId = .looping te input) (hrow : s.mem.tasks[te]? = some row)
      (hle : row.attempt ≤ row.maxAttempts) (hlive : s.mem.execution.status ≠ .cancelled)
      (h : getTaskClass node.taskType = .ok taskClass) :
      NodeMove node s ((s.saveTask te (·.begin now)).goto node.taskId (.running te input))
  | stop {te : Nat} {input : PyDict} {row : TaskExecution}
      (hpc : s.pc node.taskId = .looping te input) (hrow : s.mem.tasks[te]? = some row)
      (h : row.maxAttempts < row.attempt ∨ s.mem.execution.status = .cancelled) :
      NodeMove node s (s.goto node.taskId (.finishing te false))
  | call {te : Nat} {input : PyDict} {row : TaskExecution}
      (hpc : s.pc node.taskId = .running te input) (hrow : s.mem.tasks[te]? = some row) :
      NodeMove node s ((s.emit (.started node.taskId row.attempt input)).goto node.taskId
        (.handling te input))
  | answer (now : Time) {te : Nat} {input : PyDict} {row : TaskExecution} {outcome : Outcome}
      (hpc : s.pc node.taskId = .handling te input) (hrow : s.mem.tasks[te]? = some row)
      (hlegal : answers node row.attempt input outcome) (hcaught : ∀ e, outcome ≠ .raises e) :
      NodeMove node s (((s.emit (.returned node.taskId row.attempt outcome)).saveTask te
        (·.answered E.strOf now (taskTimeout E.settings node) outcome)).goto node.taskId
        (if outcome.ok then .finishing te true else .attemptFailed te input))
  | exhausted {te : Nat} {input : PyDict} {row : TaskExecution}
      (hpc : s.pc node.taskId = .attemptFailed te input) (hrow : s.mem.tasks[te]? = some row)
      (h : row.maxAttempts ≤ row.attempt) :
      NodeMove node s (s.goto node.taskId (.finishing te false))
  | backOff (sample : Rat) {te : Nat} {input : PyDict} {row : TaskExecution} {delay : Rat}
      (hpc : s.pc node.taskId = .attemptFailed te input) (hrow : s.mem.tasks[te]? = some row)
      (hlt : row.attempt < row.maxAttempts)
      (h : (getRetryStrategy node.retryConfig).bind (·.getDelay row.attempt sample) = .ok delay) :
      NodeMove node s ((s.emit (.slept node.taskId delay)).goto node.taskId (.sleeping te input))
  | again {te : Nat} {input : PyDict} (hpc : s.pc node.taskId = .sleeping te input) :
      NodeMove node s ((s.saveTask te (·.again)).goto node.taskId (.looping te input))
  | fail {te : Nat} (hpc : s.pc node.taskId = .finishing te false) :
      NodeMove node s (({ s with failed := true }).leave node.taskId)
  | finish {te : Nat} {row : TaskExecution} (hpc : s.pc node.taskId = .finishing te true)
      (hrow : s.mem.tasks[te]? = some row) (htype : node.taskType ≠ "condition") :
      NodeMove node s ((s.publish node.taskId row.outputData).leave node.taskId)
  | branch {te : Nat} {row : TaskExecution} {toSkip : List TaskId}
      (hpc : s.pc node.taskId = .finishing te true) (hrow : s.mem.tasks[te]? = some row)
      (htype : node.taskType = "condition") (hlock : E.reading.branchLock = true)
      (h : branchSkips E.strOf E.dag node row.outputData = .ok toSkip) :
      NodeMove node s ((s.publish node.taskId row.outputData).goto node.taskId (.branching toSkip))
  | branchThrow {te : Nat} {row : TaskExecution} {e : PyError}
      (hpc : s.pc node.taskId = .finishing te true) (hrow : s.mem.tasks[te]? = some row)
      (htype : node.taskType = "condition") (h : BranchThrows E node row e) :
      NodeMove node s ((s.publish node.taskId row.outputData).throw node.taskId e)
  | branchDone (hpc : s.pc node.taskId = .branching []) : NodeMove node s (s.leave node.taskId)
  | branchFound (now : Time) {sid : TaskId} {toSkip : List TaskId} {te : Nat}
      (hpc : s.pc node.taskId = .branching (sid :: toSkip)) (h : findTask s.mem.tasks sid = some te) :
      NodeMove node s ((({ s with skipped := insert sid s.skipped }).saveTask te (·.skip now)).goto
        node.taskId (.branching toSkip))
  | branchMissing {sid : TaskId} {toSkip : List TaskId}
      (hpc : s.pc node.taskId = .branching (sid :: toSkip)) (h : findTask s.mem.tasks sid = none) :
      NodeMove node s (({ s with skipped := insert sid s.skipped }).goto node.taskId
        (.branchCreating sid toSkip))
  | branchCreate (now : Time) {sid : TaskId} {toSkip : List TaskId} {target : DAGNode}
      (hpc : s.pc node.taskId = .branchCreating sid toSkip) (h : E.dag.getTask sid = .ok target) :
      NodeMove node s (((s.flush (.new E.settings target)).saveTask s.mem.tasks.length
        (·.skip now)).goto node.taskId (.branching toSkip))
  | throw {e : PyError} (h : Throws E answers node s e) : NodeMove node s (s.throw node.taskId e)

/-- What the body of `execute_workflow` can do. -/
inductive MainMove (s : RunState) : RunState → Prop
  | lookup (hmain : s.main = .lookup) : MainMove s { s with mem := s.db, main := .loaded }
  | start (now : Time) (hmain : s.main = .loaded)
      (h : s.mem.execution.status.canTransitionTo .running) :
      MainMove s { s.saveExecution (s.mem.execution.start now) with main := .starting }
  | noStart (hmain : s.main = .loaded) (h : ¬ s.mem.execution.status.canTransitionTo .running) :
      MainMove s { s with main := .starting }
  | load (hmain : s.main = .starting) :
      MainMove s { s.mem.tasks.foldl loadRow s with main := .loop }
  | iterate (hmain : s.main = .loop) (h : s.completed.card + s.skipped.card < E.dag.nodes.length) :
      MainMove s { s.refreshed with main := .checking }
  | exit (hmain : s.main = .loop) (h : E.dag.nodes.length ≤ s.completed.card + s.skipped.card) :
      MainMove s { s.refreshed with main := .final }
  | cancelled (hmain : s.main = .checking) (h : s.mem.execution.status = .cancelled) :
      MainMove s { s with main := .returned }
  | recordFailure (now : Time) (hmain : s.main = .checking)
      (hlive : s.mem.execution.status ≠ .cancelled) (hfailed : s.failed = true) :
      MainMove s { s.saveExecution (s.mem.execution.fail now) with main := .returned }
  | noLock (hmain : s.main = .checking) (hlive : s.mem.execution.status ≠ .cancelled)
      (hfailed : s.failed = false) (h : E.reading.lock = false) :
      MainMove s { s with main := .raised lockUnbound }
  | noMethod (hmain : s.main = .checking) (hlive : s.mem.execution.status ≠ .cancelled)
      (hfailed : s.failed = false) (h : E.reading.allSkipped = false) :
      MainMove s { s with main := .raised methodMissing }
  | propagateSkips (hmain : s.main = .checking) (hlive : s.mem.execution.status ≠ .cancelled)
      (hfailed : s.failed = false) (hlock : E.reading.lock = true)
      (hall : E.reading.allSkipped = true) :
      MainMove s { s with
        main := .skipping (E.dag.tasksWithAllPredecessorsSkipped s.completed s.skipped) }
  | skipFound (now : Time) {sid : TaskId} {sids : List TaskId} {te : Nat}
      (hmain : s.main = .skipping (sid :: sids)) (h : findTask s.mem.tasks sid = some te) :
      MainMove s { s.saveTask te (·.skip now) with
        skipped := insert sid s.skipped
        main := .skipping sids }
  | skipMissing {sid : TaskId} {sids : List TaskId} (hmain : s.main = .skipping (sid :: sids))
      (h : findTask s.mem.tasks sid = none) :
      MainMove s { s with skipped := insert sid s.skipped, main := .skipCreating sid sids }
  | skipCreate (now : Time) {sid : TaskId} {sids : List TaskId} {node : DAGNode}
      (hmain : s.main = .skipCreating sid sids) (h : E.dag.getTask sid = .ok node) :
      MainMove s { (s.flush (.new E.settings node)).saveTask s.mem.tasks.length (·.skip now) with
        main := .skipping sids }
  | skipThrow {sid : TaskId} {sids : List TaskId} {e : PyError}
      (hmain : s.main = .skipCreating sid sids) (h : E.dag.getTask sid = .error e) :
      MainMove s { s with main := .raised e }
  | settled (hmain : s.main = .skipping []) (hready : E.dag.readyIds s.completed s.skipped = [])
      (h : E.dag.nodes.length ≤ s.completed.card + s.skipped.card) :
      MainMove s { s.refreshed with main := .final }
  | sleep (hmain : s.main = .skipping []) (hready : E.dag.readyIds s.completed s.skipped = [])
      (h : s.completed.card + s.skipped.card < E.dag.nodes.length) :
      MainMove s { s with main := .sleeping }
  | gather (hmain : s.main = .skipping []) (hready : E.dag.readyIds s.completed s.skipped ≠ []) :
      MainMove s { s with
        main := .gathering
        wave := E.dag.readyIds s.completed s.skipped
        pc := fun t => if t ∈ E.dag.readyIds s.completed s.skipped then .waiting else .done }
  | wake (hmain : s.main = .sleeping) : MainMove s { s with main := .loop }
  | gathered (hmain : s.main = .gathering) (hdone : ∀ t ∈ s.wave, s.pc t = .done)
      (hfailed : s.failed = false) : MainMove s { s with main := .loop }
  | gatheredFailed (hmain : s.main = .gathering) (hdone : ∀ t ∈ s.wave, s.pc t = .done)
      (hfailed : s.failed = true) : MainMove s { s.refreshed with main := .final }
  | finalCancelled (hmain : s.main = .final) (h : s.mem.execution.status = .cancelled) :
      MainMove s { s with main := .returned }
  | finalFailed (hmain : s.main = .final) (hlive : s.mem.execution.status ≠ .cancelled)
      (hfailed : s.failed = true) : MainMove s { s with main := .returned }
  | complete (now : Time) {ex : WorkflowExecution} (hmain : s.main = .final)
      (hlive : s.mem.execution.status ≠ .cancelled) (hfailed : s.failed = false)
      (h : s.mem.execution.complete now s.taskOutputs = .ok ex) :
      MainMove s { s.saveExecution ex with main := .returned }
  | completeThrow (now : Time) {e : PyError} (hmain : s.main = .final)
      (hlive : s.mem.execution.status ≠ .cancelled) (hfailed : s.failed = false)
      (h : s.mem.execution.complete now s.taskOutputs = .error e) :
      MainMove s { s with main := .raised e }
  | propagate {t : TaskId} {e : PyError} (hmain : s.main = .gathering) (hwave : t ∈ s.wave)
      (hpc : s.pc t = .raised e) : MainMove s { s with main := .raised e }

variable {E answers}

theorem mainStep_move {now : Time} {s s' : RunState} (h : mainStep E now s = some s') :
    MainMove E s s' := by
  cases hmain : s.main with
  | lookup =>
    simp only [mainStep, hmain] at h
    cases h
    exact .lookup hmain
  | loaded =>
    simp only [mainStep, hmain] at h
    split at h
    · next hstart => cases h; exact .start now hmain hstart
    · next hstart => cases h; exact .noStart hmain hstart
  | starting =>
    simp only [mainStep, hmain] at h
    cases h
    exact .load hmain
  | loop =>
    simp only [mainStep, hmain] at h
    split at h
    · next hlt => cases h; exact .iterate hmain hlt
    · next hlt => cases h; exact .exit hmain (by omega)
  | checking =>
    simp only [mainStep, hmain] at h
    split at h
    · next hc => cases h; exact .cancelled hmain hc
    next hlive =>
    split at h
    · next hf => cases h; exact .recordFailure now hmain hlive hf
    next hf =>
    rw [Bool.not_eq_true] at hf
    split at h
    · next hl => cases h; exact .noLock hmain hlive hf hl
    next hl =>
    split at h
    · next ha => cases h; exact .noMethod hmain hlive hf ha
    · next ha =>
      cases h
      exact .propagateSkips hmain hlive hf (by simpa using hl) (by simpa using ha)
  | skipping sids =>
    cases sids with
    | cons sid sids =>
      simp only [mainStep, hmain] at h
      split at h
      · next te hte => cases h; exact .skipFound now hmain hte
      · next hte => cases h; exact .skipMissing hmain hte
    | nil =>
      simp only [mainStep, hmain] at h
      split at h
      · next hready =>
        split at h
        · next hle => cases h; exact .settled hmain hready hle
        · next hle => cases h; exact .sleep hmain hready (by omega)
      · next hready => cases h; exact .gather hmain hready
  | skipCreating sid sids =>
    simp only [mainStep, hmain] at h
    split at h
    · next node hnode => cases h; exact .skipCreate now hmain hnode
    · next e he => cases h; exact .skipThrow hmain he
  | sleeping =>
    simp only [mainStep, hmain] at h
    cases h
    exact .wake hmain
  | gathering =>
    simp only [mainStep, hmain] at h
    split at h
    · next hdone =>
      have hdone' : ∀ t ∈ s.wave, s.pc t = .done := by
        intro t ht
        have := hdone t ht
        split at this
        · next hpc => exact hpc
        · cases this
      split at h
      · next hf => cases h; exact .gatheredFailed hmain hdone' hf
      · next hf => cases h; exact .gathered hmain hdone' (by simpa using hf)
    · cases h
  | final =>
    simp only [mainStep, hmain] at h
    split at h
    · next hc => cases h; exact .finalCancelled hmain hc
    next hlive =>
    split at h
    · next hf => cases h; exact .finalFailed hmain hlive hf
    next hf =>
    rw [Bool.not_eq_true] at hf
    split at h
    · next ex hex => cases h; exact .complete now hmain hlive hf hex
    · next e he => cases h; exact .completeThrow now hmain hlive hf he
  | returned => simp [mainStep, hmain] at h
  | raised e => simp [mainStep, hmain] at h

/-- Before its end, the body waits for nothing but its coroutines. -/
theorem mainStep_enabled (E : Engine) {s : RunState} (hg : s.main ≠ .gathering) (he : ¬ s.Ended)
    (now : Time) : ∃ s', mainStep E now s = some s' := by
  rw [← Option.isSome_iff_exists]
  unfold mainStep
  split
  case h_10 hmain => exact absurd hmain hg
  case h_12 hmain => exact absurd (Or.inl hmain) he
  case h_13 e hmain => exact absurd (Or.inr ⟨e, hmain⟩) he
  case h_8 =>
    dsimp only
    split
    · split <;> rfl
    · rfl
  all_goals repeat' split
  all_goals rfl

theorem nodeStep_move {node : DAGNode} {now : Time} {sample : Rat} {outcome : Outcome}
    {s s' : RunState} (h : nodeStep E node now sample outcome s = some s')
    (legal : ∀ te input row, s.pc node.taskId = .handling te input → s.mem.tasks[te]? = some row →
      answers node row.attempt input outcome) : NodeMove E answers node s s' := by
  cases hpc : s.pc node.taskId with
  | waiting =>
    simp only [nodeStep, hpc] at h
    split at h
    · next hsem => cases h; exact .acquire hpc hsem
    · cases h
  | checking =>
    simp only [nodeStep, hpc] at h
    split at h
    · next hc => cases h; exact .cancelled hpc hc
    · next hc => cases h; exact .enter hpc hc
  | entering =>
    simp only [nodeStep, hpc] at h
    split at h
    · next hs => cases h; exact .settled hpc hs
    next hs =>
    rw [not_or] at hs
    split at h
    · next te hte => cases h; exact .found hpc hs.1 hs.2 hte
    · next hte => cases h; exact .missing hpc hs.1 hs.2 hte
  | creating =>
    simp only [nodeStep, hpc] at h
    cases h
    exact .create hpc
  | prepared te =>
    simp only [nodeStep, hpc] at h
    split at h
    · next hok => cases h; exact .prepare hpc hok
    · next e he => cases h; exact .throw (.strategy hpc he)
  | looping te input =>
    simp only [nodeStep, hpc] at h
    obtain ⟨row, hrow, h⟩ := Option.bind_eq_some_iff.mp h
    split at h
    · next hle =>
      split at h
      · next hc => cases h; exact .stop hpc hrow (Or.inr hc)
      next hlive =>
      split at h
      · next hok => cases h; exact .begin now hpc hrow hle hlive hok
      · next e he => cases h; exact .throw (.taskClass hpc hrow hle hlive he)
    · next hle => cases h; exact .stop hpc hrow (Or.inl (by omega))
  | running te input =>
    simp only [nodeStep, hpc] at h
    obtain ⟨row, hrow, h⟩ := Option.bind_eq_some_iff.mp h
    cases h
    exact .call hpc hrow
  | handling te input =>
    simp only [nodeStep, hpc] at h
    obtain ⟨row, hrow, h⟩ := Option.bind_eq_some_iff.mp h
    have hlegal := legal te input row hpc hrow
    split at h
    · next e => cases h; exact .throw (.handler hpc hrow hlegal)
    · next hcaught => cases h; exact .answer now hpc hrow hlegal hcaught
  | attemptFailed te input =>
    simp only [nodeStep, hpc] at h
    obtain ⟨row, hrow, h⟩ := Option.bind_eq_some_iff.mp h
    split at h
    · next hle => cases h; exact .exhausted hpc hrow hle
    next hle =>
    split at h
    · next delay hok => cases h; exact .backOff sample hpc hrow (by omega) hok
    · next e he => cases h; exact .throw (.delay sample hpc hrow (by omega) he)
  | sleeping te input =>
    simp only [nodeStep, hpc] at h
    cases h
    exact .again hpc
  | finishing te ok =>
    cases ok with
    | false =>
      simp only [nodeStep, hpc] at h
      cases h
      exact .fail hpc
    | true =>
      simp only [nodeStep, hpc] at h
      obtain ⟨row, hrow, h⟩ := Option.bind_eq_some_iff.mp h
      split at h
      · next htype =>
        split at h
        · next hl => cases h; exact .branchThrow hpc hrow htype (.arity hl)
        next hl =>
        split at h
        · next toSkip hok => cases h; exact .branch hpc hrow htype (by simpa using hl) hok
        · next e he => cases h; exact .branchThrow hpc hrow htype (.output he)
      · next htype => cases h; exact .finish hpc hrow htype
  | branching toSkip =>
    cases toSkip with
    | nil =>
      simp only [nodeStep, hpc] at h
      cases h
      exact .branchDone hpc
    | cons sid toSkip =>
      simp only [nodeStep, hpc] at h
      split at h
      · next te hte => cases h; exact .branchFound now hpc hte
      · next hte => cases h; exact .branchMissing hpc hte
  | branchCreating sid toSkip =>
    simp only [nodeStep, hpc] at h
    split at h
    · next target hok => cases h; exact .branchCreate now hpc hok
    · next e he => cases h; exact .throw (.target hpc he)
  | done => simp [nodeStep, hpc] at h
  | raised e => simp [nodeStep, hpc] at h

/-- Every step is a move of the body or of one node's coroutine. -/
theorem step_cases {s s' : RunState} (h : Step E answers s s') :
    MainMove E s s' ∨
      ∃ node, E.dag.getTask node.taskId = .ok node ∧ NodeMove E answers node s s' := by
  obtain ⟨c, legal, h⟩ := h
  cases c with
  | main now => exact Or.inl (mainStep_move h)
  | propagate t =>
    simp only [step] at h
    split at h
    · next e hmain hpc =>
      split at h
      · next hwave => cases h; exact Or.inl (.propagate hmain hwave hpc)
      · cases h
    · cases h
  | node t now sample outcome =>
    simp only [step] at h
    split at h
    · next node hnode =>
      obtain rfl := (E.dag.getTask_ok hnode).2
      exact Or.inr ⟨node, hnode, nodeStep_move h (fun te input row hpc hrow =>
        legal te input node row hpc hnode hrow)⟩
    · cases h

end BackendProjects.Workflow
