import BackendProjects.Workflow.Reference
import BackendProjects.Workflow.Works

/-! One coroutine against the evaluation of its task: every move keeps what its place and its row
say about the verdict, and no move of another coroutine changes it. -/
namespace BackendProjects.Workflow
open Library

def HandlerEvent.starts (t : TaskId) : HandlerEvent → Bool
  | .started u _ _ => u = t
  | _ => false

namespace RunState
variable (s : RunState) (t : TaskId)

def calls : Nat := s.trace.countP (HandlerEvent.starts t)

def ids : List TaskId := s.mem.tasks.map (·.taskDefinitionId)

theorem calls_emit (event : HandlerEvent) :
    (s.emit event).calls t = s.calls t + if event.starts t then 1 else 0 := by
  simp [calls]

@[simp] theorem calls_goto (u : TaskId) (q : NodePc) : (s.goto u q).calls t = s.calls t := rfl

@[simp] theorem calls_flush (row : TaskExecution) : (s.flush row).calls t = s.calls t := rfl

@[simp] theorem calls_saveTask (te : Nat) (f : TaskExecution → TaskExecution) :
    (s.saveTask te f).calls t = s.calls t := rfl

theorem ids_saveTask (te : Nat) {f : TaskExecution → TaskExecution}
    (hf : ∀ row : TaskExecution, (f row).taskDefinitionId = row.taskDefinitionId) :
    (s.saveTask te f).ids = s.ids := by
  apply List.ext_getElem?
  intro i
  simp only [ids, saveTask_mem_tasks, List.getElem?_map, List.getElem?_modify]
  cases s.mem.tasks[i]? with
  | none => rfl
  | some row => by_cases hi : te = i <;> simp [hi, hf]

theorem ids_works : s.works.map (·.taskDefinitionId) = s.ids := by
  simp [works, ids, TaskExecution.work]

theorem ids_refreshed {s : RunState} (h : Agrees s) : s.refreshed.ids = s.ids := by
  rw [← ids_works, works_refreshed h, ids_works]

end RunState

section Outlook
variable (E : Engine) (handler : Handler) (node : DAGNode) (data : PyDict) (w : Work)

def outlook : NodePc → Verdict
  | .prepared _ =>
      match getRetryStrategy node.retryConfig with
      | .error _ => .raises (w.attempt - 1)
      | .ok _ => attempts E.strOf handler node data w.attempt (w.maxAttempts + 1 - w.attempt)
  | .looping _ data => attempts E.strOf handler node data w.attempt (w.maxAttempts + 1 - w.attempt)
  | .running _ data | .handling _ data =>
      called E.strOf handler node data w.attempt (w.maxAttempts - w.attempt)
  | .attemptFailed _ data =>
      retried E.strOf handler node data w.attempt (w.maxAttempts - w.attempt)
  | .sleeping _ data => attempts E.strOf handler node data (w.attempt + 1) (w.maxAttempts - w.attempt)
  | .finishing _ true => .succeeded w.attempt w.outputData
  | .finishing _ false => .failed w.attempt
  | _ => .raises 0

end Outlook

def NodePc.callsMade (w : Work) : NodePc → Nat
  | .handling _ _ | .attemptFailed _ _ | .sleeping _ _ | .finishing _ _ => w.attempt
  | _ => w.attempt - 1

def NodePc.Untried : NodePc → Prop
  | .waiting | .checking | .entering | .creating => True
  | _ => False

structure Trying (E : Engine) (handler : Handler) (data : PyDict) (v : Verdict) (s : RunState)
    (node : DAGNode) (te : Nat) (w : Work) : Prop where
  row : s.works[te]? = some w
  max : w.maxAttempts = E.maxAttempts node
  pos : 1 ≤ w.attempt
  le : w.attempt ≤ w.maxAttempts
  again : ∀ input, s.pc node.taskId = .sleeping te input → w.attempt < w.maxAttempts
  view : outlook E handler node data w (s.pc node.taskId) = v
  calls : s.calls node.taskId = (s.pc node.taskId).callsMade w
  incomplete : node.taskId ∉ s.completed
  silent : s.taskOutputs.get? (.str node.taskId) = none

inductive Local (E : Engine) (handler : Handler) (data : PyDict) (v : Verdict) (s : RunState)
    (node : DAGNode) : Prop
  | untried (hpc : (s.pc node.taskId).Untried) (hrow : node.taskId ∉ s.ids)
      (hcalls : s.calls node.taskId = 0) (hc : node.taskId ∉ s.completed)
      (ho : s.taskOutputs.get? (.str node.taskId) = none)
  | trying {te : Nat} {w : Work} (hpc : (s.pc node.taskId).row? = some te)
      (h : Trying E handler data v s node te w)
  | succeeded (hpc : s.pc node.taskId = .done) (hv : v.succeeds = true)
      (hcalls : s.calls node.taskId = v.calls) (hc : node.taskId ∈ s.completed)
      (ho : s.taskOutputs.get? (.str node.taskId) = v.output?)
  | failed {calls : Nat} (hpc : s.pc node.taskId = .done) (hv : v = .failed calls)
      (hcalls : s.calls node.taskId = calls) (hf : s.failed = true) (hc : node.taskId ∉ s.completed)
      (ho : s.taskOutputs.get? (.str node.taskId) = none)
  | raised {e : PyError} {calls : Nat} (hpc : s.pc node.taskId = .raised e) (hv : v = .raises calls)
      (hcalls : s.calls node.taskId = calls)
      (hc : node.taskId ∉ s.completed) (ho : s.taskOutputs.get? (.str node.taskId) = none)

variable {E : Engine} {handler : Handler} {data : PyDict} {v : Verdict} {s s' : RunState}
  {node other : DAGNode} {t : TaskId} {te : Nat} {w : Work}

theorem Local.of_row (h : Local E handler data v s node) (hpc : (s.pc node.taskId).row? = some te) :
    ∃ w, Trying E handler data v s node te w := by
  cases h with
  | untried hpc' =>
    cases hs : s.pc node.taskId <;> rw [hs] at hpc hpc' <;> first | exact hpc'.elim | cases hpc
  | trying hpc' h =>
    rw [hpc] at hpc'
    cases hpc'
    exact ⟨_, h⟩
  | succeeded hpc' => rw [hpc'] at hpc; cases hpc
  | failed hpc' => rw [hpc'] at hpc; cases hpc
  | raised hpc' => rw [hpc'] at hpc; cases hpc

private theorem Local.of_untried (h : Local E handler data v s node) (hpc : (s.pc node.taskId).Untried) :
    node.taskId ∉ s.ids ∧ s.calls node.taskId = 0 ∧ node.taskId ∉ s.completed ∧
      s.taskOutputs.get? (.str node.taskId) = none := by
  cases h with
  | untried hpc' hrow hcalls hc ho => exact ⟨hrow, hcalls, hc, ho⟩
  | trying hpc' =>
    cases hs : s.pc node.taskId <;> rw [hs] at hpc hpc' <;> first | exact hpc.elim | cases hpc'
  | succeeded hpc' => rw [hpc'] at hpc; exact hpc.elim
  | failed hpc' => rw [hpc'] at hpc; exact hpc.elim
  | raised hpc' => rw [hpc'] at hpc; exact hpc.elim

/-- What a coroutine that has ended has come to. -/
theorem Local.of_done (h : Local E handler data v s node) (hpc : s.pc node.taskId = .done) :
    v.isRaise = false ∧ (v.succeeds = true ↔ node.taskId ∈ s.completed) ∧
    (v.succeeds = false → s.failed = true) ∧ s.calls node.taskId = v.calls ∧
    s.taskOutputs.get? (.str node.taskId) = v.output? := by
  cases h with
  | untried hpc' => rw [hpc] at hpc'; exact hpc'.elim
  | trying hpc' => rw [hpc] at hpc'; cases hpc'
  | succeeded _ hv hcalls hc ho =>
    refine ⟨?_, by simp [hv, hc], by simp [hv], hcalls, ho⟩
    cases v with
    | raises calls => cases hv
    | succeeded calls output => rfl
    | failed calls => rfl
  | failed _ hv hcalls hf hc ho =>
    rw [hv]
    exact ⟨rfl, by simp [Verdict.succeeds, hc], fun _ => hf, hcalls, ho⟩
  | raised hpc' => rw [hpc] at hpc'; cases hpc'

theorem Local.of_raised (h : Local E handler data v s node) {e : PyError}
    (hpc : s.pc node.taskId = .raised e) : v.isRaise = true := by
  cases h with
  | raised _ hv => rw [hv]; rfl
  | untried hpc' => rw [hpc] at hpc'; exact hpc'.elim
  | trying hpc' => rw [hpc] at hpc'; cases hpc'
  | succeeded hpc' => rw [hpc] at hpc'; cases hpc'
  | failed hpc' => rw [hpc] at hpc'; cases hpc'

/-- A coroutine in the wave of a run without conditions marks no branch. -/
theorem Local.not_branching (h : Local E handler data v s node) :
    (∀ toSkip, s.pc node.taskId ≠ .branching toSkip) ∧
      ∀ sid toSkip, s.pc node.taskId ≠ .branchCreating sid toSkip := by
  cases h with
  | untried hpc' => constructor <;> intros <;> intro hs <;> rw [hs] at hpc' <;> exact hpc'
  | trying hpc' => constructor <;> intros <;> intro hs <;> rw [hs] at hpc' <;> cases hpc'
  | succeeded hpc' => simp [hpc']
  | failed hpc' => simp [hpc']
  | raised hpc' => simp [hpc']

/-! ### The coroutine's own moves -/

def Starts (E : Engine) (handler : Handler) (data : PyDict) (v : Verdict) (node : DAGNode) : Prop :=
  ∀ te, outlook E handler node data (TaskExecution.new E.settings node).work (.prepared te) = v

/-- What is known of a coroutine at a place with a row. -/
private theorem Local.inspect (hl : Local E handler data v s node) {pc : NodePc}
    (hpc : s.pc node.taskId = pc) (hrow? : pc.row? = some te) : ∃ w,
      Trying E handler data v s node te w ∧ outlook E handler node data w pc = v ∧
      s.calls node.taskId = pc.callsMade w ∧
      ∀ row, s.mem.tasks[te]? = some row → row.work = w := by
  subst hpc
  obtain ⟨w, h⟩ := hl.of_row hrow?
  refine ⟨w, h, h.view, h.calls, fun row hrow => ?_⟩
  have hw := h.row
  rw [s.getElem?_works hrow] at hw
  exact Option.some.inj hw

private theorem Trying.left (h : Trying E handler data v s node te w) :
    w.maxAttempts + 1 - w.attempt = w.maxAttempts - w.attempt + 1 := by
  have := h.le
  omega

/-- The rest of a coroutine's way, from the place that its move leads to. -/
private theorem Trying.goes (h : Trying E handler data v s node te w) (pc : NodePc)
    (hpc : s'.pc node.taskId = pc) (hpc? : pc.row? = some te) (hrow : s'.works[te]? = some w)
    (hagain : ∀ input, pc = .sleeping te input → w.attempt < w.maxAttempts)
    (hview : outlook E handler node data w pc = v) (hcalls : s'.calls node.taskId = pc.callsMade w)
    (hc : s'.completed = s.completed) (ho : s'.taskOutputs = s.taskOutputs) :
    Local E handler data v s' node := by
  subst hpc
  exact .trying hpc? ⟨hrow, h.max, h.pos, h.le, hagain, hview, hcalls, hc ▸ h.incomplete, ho ▸ h.silent⟩

/-- The answer of the handler decides, or leaves the rest to the retries. -/
private theorem Trying.answer {row : TaskExecution} {input : PyDict}
    (h : Trying E handler data v s node te row.work) (now : Time)
    (hrow : s.mem.tasks[te]? = some row)
    (hview : outlook E handler node data row.work (.handling te input) = v)
    (hcalls : s.calls node.taskId = NodePc.callsMade row.work (.handling te input)) :
    Local E handler data v (((s.emit (.returned node.taskId row.attempt
      (.result (handler node row.attempt input)))).saveTask te (·.answered E.strOf now
        (taskTimeout E.settings node) (.result (handler node row.attempt input)))).goto node.taskId
      (if (Outcome.result (handler node row.attempt input)).ok then .finishing te true
        else .attemptFailed te input)) node := by
  generalize hr : handler node row.attempt input = r
  generalize hnew : row.answered E.strOf now (taskTimeout E.settings node) (.result r) = new
  have hattempt : new.attempt = row.attempt := by rw [← hnew, TaskExecution.answered_attempt]
  have hmax : new.maxAttempts = row.maxAttempts := by rw [← hnew, TaskExecution.answered_maxAttempts]
  have hw : ((s.emit (.returned node.taskId row.attempt (.result r))).saveTask te
      (·.answered E.strOf now (taskTimeout E.settings node) (.result r))).works[te]? = some new.work :=
    hnew ▸ RunState.works_saveTask_self _ te _ hrow
  have hpos : 1 ≤ new.work.attempt := h.pos.trans_eq hattempt.symm
  have hle : new.work.attempt ≤ new.work.maxAttempts := by
    change new.attempt ≤ new.maxAttempts
    rw [hattempt, hmax]
    exact h.le
  have hmade : ((s.emit (.returned node.taskId row.attempt (.result r))).saveTask te
      (·.answered E.strOf now (taskTimeout E.settings node) (.result r))).calls node.taskId =
        new.attempt := by
    rw [RunState.calls_saveTask, RunState.calls_emit, hcalls, hattempt]
    rfl
  by_cases hok : r.success = true
  · have hout : new.outputData = normalizeOutput E.strOf r.output := by
      rw [← hnew, TaskExecution.answered_outputData _ _ _ _ hok]
    have hverdict : v = .succeeded new.attempt new.outputData := by
      rw [← hview, hattempt, hout, ← hr]
      exact if_pos (hr ▸ hok)
    refine .trying (by simp [Outcome.ok, hok, NodePc.row?]) ⟨hw, hmax.trans h.max, hpos, hle, ?_, ?_, ?_,
      h.incomplete, h.silent⟩
    · simp [Outcome.ok, hok]
    · simp [Outcome.ok, hok, outlook, hverdict, TaskExecution.work]
    · simpa [Outcome.ok, hok, NodePc.callsMade, TaskExecution.work] using hmade
  · have hverdict : v = retried E.strOf handler node input new.attempt (new.maxAttempts - new.attempt) := by
      rw [← hview, hattempt, hmax]
      exact if_neg (hr ▸ hok)
    refine .trying (by simp [Outcome.ok, hok, NodePc.row?]) ⟨hw, hmax.trans h.max, hpos, hle, ?_, ?_, ?_,
      h.incomplete, h.silent⟩
    · simp [Outcome.ok, hok]
    · simp [Outcome.ok, hok, outlook, hverdict, TaskExecution.work]
    · simpa [Outcome.ok, hok, NodePc.callsMade, TaskExecution.work] using hmade

/-- An exception comes where the verdict has it. -/
private theorem Local.throw {e : PyError} (hl : Local E handler data v s node)
    (h : Throws E handler.answers node s e) : Local E handler data v (s.throw node.taskId e) node := by
  have hraised {te : Nat} {w : Work} {calls : Nat} (h : Trying E handler data v s node te w)
      (hv : v = .raises calls) (hcalls : s.calls node.taskId = calls) :
      Local E handler data v (s.throw node.taskId e) node :=
    .raised (RunState.throw_pc .. ▸ Function.update_self ..) hv hcalls h.incomplete h.silent
  cases h with
  | strategy hpc hstrategy =>
    obtain ⟨w, h, hview, hcalls, _⟩ := hl.inspect hpc rfl
    simp only [outlook, hstrategy] at hview
    exact hraised h hview.symm hcalls
  | taskClass hpc hrow hle _ hclass =>
    obtain ⟨w, h, hview, hcalls, _⟩ := hl.inspect hpc rfl
    simp only [outlook, h.left, attempts_error _ _ _ _ hclass] at hview
    exact hraised h hview.symm hcalls
  | handler hpc hrow hlegal => cases hlegal
  | @delay te input row e sample hpc hrow hlt hdelay =>
    obtain ⟨w, h, hview, hcalls, hwork⟩ := hl.inspect hpc rfl
    obtain rfl := hwork row hrow
    have hsome : row.work.maxAttempts - row.work.attempt ≠ 0 := Nat.sub_ne_zero_of_lt hlt
    have hnext := (retried_error E.strOf handler node input hsome hdelay).symm.trans hview
    exact hraised h hnext.symm hcalls
  | target hpc _ => exact absurd hpc (hl.not_branching.2 _ _)

/-- Every move of a coroutine keeps it heading for its verdict, up to the branches of a condition. -/
theorem Local.own_before_branches (hl : Local E handler data v s node)
    (h : NodeMove E handler.answers node s s') (hstarts : Starts E handler data v node)
    (hdata : mergedInput s.mem.execution.inputData (predOutputs E.dag node.taskId s.taskOutputs) = data)
    (hlive : s.mem.execution.status ≠ .cancelled) (hskipped : node.taskId ∉ s.skipped)
    (hbefore : node.taskType = "condition" → node.taskId ∉ s'.completed) (agrees : Agrees s) :
    Local E handler data v s' node := by
  cases h with
  | acquire hpc hsem =>
    obtain ⟨hrow, hcalls, hc, ho⟩ := hl.of_untried (by rw [hpc]; trivial)
    refine .untried (by simp [NodePc.Untried]) ?_ hcalls hc ho
    have hids := RunState.ids_refreshed (show Agrees { s with sem := s.sem - 1 } from agrees)
    exact fun hin => hrow (hids ▸ hin)
  | cancelled hpc h => exact absurd h hlive
  | enter hpc h =>
    obtain ⟨hrow, hcalls, hc, ho⟩ := hl.of_untried (by rw [hpc]; trivial)
    exact .untried (by simp [NodePc.Untried]) hrow hcalls hc ho
  | settled hpc h =>
    obtain ⟨_, _, hc, _⟩ := hl.of_untried (by rw [hpc]; trivial)
    exact absurd (h.resolve_right hskipped) hc
  | found hpc _ _ h =>
    obtain ⟨hrow, _⟩ := hl.of_untried (by rw [hpc]; trivial)
    obtain ⟨row, hget, hid⟩ := findTask_some h
    exact absurd (List.mem_map.mpr ⟨row, List.mem_of_getElem? hget, hid⟩) hrow
  | missing hpc _ _ h =>
    obtain ⟨hrow, hcalls, hc, ho⟩ := hl.of_untried (by rw [hpc]; trivial)
    exact .untried (by simp [NodePc.Untried]) hrow hcalls hc ho
  | create hpc =>
    obtain ⟨_, hcalls, hc, ho⟩ := hl.of_untried (by rw [hpc]; trivial)
    have hnew : (RunState.goto (s.flush (.new E.settings node)) node.taskId
        (.prepared s.mem.tasks.length)).works[s.mem.tasks.length]? =
          some (TaskExecution.new E.settings node).work := by
      simp [RunState.works]
    refine .trying (by simp [NodePc.row?])
      ⟨hnew, rfl, le_rfl, E.maxAttempts_pos node, by simp, ?_, ?_, hc, ho⟩
    · rw [RunState.goto_pc, Function.update_self]
      exact hstarts _
    · simpa [NodePc.callsMade, TaskExecution.new, TaskExecution.work] using hcalls
  | @prepare te strategy hpc hok =>
    obtain ⟨w, h, hview, hcalls, _⟩ := hl.inspect hpc rfl
    simp only [outlook, hok] at hview
    rw [hdata]
    exact h.goes (.looping te data) (by simp) rfl h.row (by simp) hview hcalls rfl rfl
  | @begin now te input row taskClass hpc hrow hle _ hclass =>
    obtain ⟨w, h, hview, hcalls, _⟩ := hl.inspect hpc rfl
    simp only [outlook, h.left, attempts_ok _ _ _ _ hclass] at hview
    refine h.goes (.running te input) (by simp) rfl ?_ (by simp) hview hcalls rfl rfl
    rw [RunState.works_goto, RunState.works_begin]
    exact h.row
  | @stop te input row hpc hrow hstop =>
    obtain ⟨w, h, _, _, hwork⟩ := hl.inspect hpc rfl
    obtain rfl := hwork row hrow
    exact absurd (hstop.resolve_right hlive) (not_lt.mpr h.le)
  | @call te input row hpc hrow =>
    obtain ⟨w, h, hview, hcalls, _⟩ := hl.inspect hpc rfl
    refine h.goes (.handling te input) (by simp) rfl h.row (by simp) hview ?_ rfl rfl
    rw [RunState.calls_goto, RunState.calls_emit, hcalls]
    have := h.pos
    simp [HandlerEvent.starts, NodePc.callsMade, this]
  | @answer now te input row outcome hpc hrow hlegal hcaught =>
    obtain ⟨w, h, hview, hcalls, hwork⟩ := hl.inspect hpc rfl
    obtain rfl := hwork row hrow
    obtain rfl : outcome = .result (handler node row.attempt input) := hlegal
    exact h.answer now hrow hview hcalls
  | @exhausted te input row hpc hrow hle =>
    obtain ⟨w, h, hview, hcalls, hwork⟩ := hl.inspect hpc rfl
    obtain rfl := hwork row hrow
    have hnone : row.work.maxAttempts - row.work.attempt = 0 := Nat.sub_eq_zero_of_le hle
    simp only [outlook, hnone, retried, if_pos] at hview
    exact h.goes (.finishing te false) (by simp) rfl h.row (by simp) hview hcalls rfl rfl
  | @backOff sample te input row delay hpc hrow hlt hdelay =>
    obtain ⟨w, h, hview, hcalls, hwork⟩ := hl.inspect hpc rfl
    obtain rfl := hwork row hrow
    have hsome : row.work.maxAttempts - row.work.attempt ≠ 0 := Nat.sub_ne_zero_of_lt hlt
    have hnext := (retried_ok E.strOf handler node input hsome hdelay).symm.trans hview
    refine h.goes (.sleeping te input) (by simp) rfl h.row (fun _ _ => hlt) hnext ?_ rfl rfl
    rw [RunState.calls_goto, RunState.calls_emit, hcalls]
    rfl
  | @again te input hpc =>
    obtain ⟨w, h, hview, hcalls, hwork⟩ := hl.inspect hpc rfl
    obtain ⟨row, hrow, rfl⟩ := RunState.row_of_works h.row
    have hlt := h.again input hpc
    refine .trying (by simp [NodePc.row?]) ⟨RunState.works_saveTask_self s te _ hrow, h.max,
      Nat.succ_pos _, hlt, by simp, ?_, ?_, h.incomplete, h.silent⟩
    · rw [RunState.goto_pc, Function.update_self]
      simp only [outlook, TaskExecution.again, TaskExecution.work, Nat.add_sub_add_right]
      exact hview
    · rw [RunState.goto_pc, Function.update_self]
      exact hcalls
  | @fail te hpc =>
    obtain ⟨w, h, hview, hcalls, _⟩ := hl.inspect hpc rfl
    exact .failed (by simp) hview.symm hcalls rfl h.incomplete h.silent
  | @finish te row hpc hrow _ =>
    obtain ⟨w, h, hview, hcalls, hwork⟩ := hl.inspect hpc rfl
    obtain rfl := hwork row hrow
    obtain rfl : v = .succeeded row.attempt row.outputData := hview.symm
    refine .succeeded (by simp) rfl hcalls (Finset.mem_insert_self _ _) ?_
    simp only [RunState.leave_taskOutputs, RunState.publish_taskOutputs, Verdict.output?]
    split
    · exact PyDict.get?_set _ _ _
    · exact h.silent
  | branch _ _ htype _ _ => exact absurd (Finset.mem_insert_self _ _) (hbefore htype)
  | branchThrow _ _ htype _ => exact absurd (Finset.mem_insert_self _ _) (hbefore htype)
  | branchDone hpc => exact absurd hpc (hl.not_branching.1 _)
  | branchFound now hpc _ => exact absurd hpc (hl.not_branching.1 _)
  | branchMissing hpc _ => exact absurd hpc (hl.not_branching.1 _)
  | branchCreate now hpc _ => exact absurd hpc (hl.not_branching.2 _ _)
  | throw h => exact hl.throw h

/-- Every move of a coroutine keeps it heading for its verdict. -/
theorem Local.own (hl : Local E handler data v s node) (h : NodeMove E handler.answers node s s')
    (hstarts : Starts E handler data v node)
    (hdata : mergedInput s.mem.execution.inputData (predOutputs E.dag node.taskId s.taskOutputs) = data)
    (hlive : s.mem.execution.status ≠ .cancelled) (hskipped : s.skipped = ∅)
    (htype : node.taskType ≠ "condition") (agrees : Agrees s) : Local E handler data v s' node :=
  hl.own_before_branches h hstarts hdata hlive (hskipped ▸ Finset.notMem_empty _)
    (fun hcondition => absurd hcondition htype) agrees

/-! ### The moves of others -/

/-- What a coroutine's standing depends on. -/
theorem Local.congr (h : Local E handler data v s node) (hpc : s'.pc node.taskId = s.pc node.taskId)
    (hworks : ∀ te w, (s.pc node.taskId).row? = some te → s.works[te]? = some w →
      s'.works[te]? = some w)
    (hids : node.taskId ∈ s'.ids → node.taskId ∈ s.ids)
    (hcalls : s'.calls node.taskId = s.calls node.taskId)
    (hc : node.taskId ∈ s'.completed ↔ node.taskId ∈ s.completed)
    (ho : s'.taskOutputs.get? (.str node.taskId) = s.taskOutputs.get? (.str node.taskId))
    (hf : s.failed = true → s'.failed = true) : Local E handler data v s' node := by
  cases h with
  | untried h1 h2 h3 h4 h5 =>
    exact .untried (hpc ▸ h1) (fun h => h2 (hids h)) (hcalls.trans h3) (fun h => h4 (hc.mp h))
      (ho.trans h5)
  | @trying te w h1 h2 =>
    exact .trying (hpc ▸ h1) ⟨hworks te w h1 h2.row, h2.max, h2.pos, h2.le, hpc ▸ h2.again,
      hpc ▸ h2.view, by rw [hcalls, hpc, h2.calls], fun h => h2.incomplete (hc.mp h), ho.trans h2.silent⟩
  | succeeded h1 h2 h3 h4 h5 =>
    exact .succeeded (hpc.trans h1) h2 (hcalls.trans h3) (hc.mpr h4) (ho.trans h5)
  | failed h1 h2 h3 h4 h5 h6 =>
    exact .failed (hpc.trans h1) h2 (hcalls.trans h3) (hf h4) (fun h => h5 (hc.mp h)) (ho.trans h6)
  | raised h1 h2 h3 h4 h5 =>
    exact .raised (hpc.trans h1) h2 (hcalls.trans h3) (fun h => h4 (hc.mp h)) (ho.trans h5)

theorem NodeMove.calls_of_ne {answers : Answers} (h : NodeMove E answers other s s')
    (ht : t ≠ other.taskId) : s'.calls t = s.calls t := by
  cases h
  case call => simp [RunState.calls_emit, HandlerEvent.starts, Ne.symm ht]
  case answer => simp [RunState.calls_emit, HandlerEvent.starts]
  case backOff => simp [RunState.calls_emit, HandlerEvent.starts]
  all_goals rfl

/-- A coroutine creates the row of its own task, or that of a task that it marks. -/
theorem NodeMove.ids_cases {answers : Answers} (h : NodeMove E answers other s s') (agrees : Agrees s)
    (ht : t ∈ s'.ids) : t ∈ s.ids ∨ t = other.taskId ∧ s'.pc other.taskId ≠ .done ∨
      ∃ toSkip, s.pc other.taskId = .branchCreating t toSkip := by
  have hsave {te : Nat} (s : RunState) (f : TaskExecution → TaskExecution)
      (hf : ∀ row : TaskExecution, (f row).taskDefinitionId = row.taskDefinitionId)
      (h : t ∈ (s.saveTask te f).ids) : t ∈ s.ids := s.ids_saveTask te hf ▸ h
  cases h
  case acquire =>
    have hids := RunState.ids_refreshed (show Agrees { s with sem := s.sem - 1 } from agrees)
    exact Or.inl (hids ▸ ht)
  case create =>
    have hcases : t ∈ s.ids ∨ t = other.taskId := by simpa [RunState.ids, TaskExecution.new] using ht
    exact hcases.imp_right fun h => Or.inl ⟨h, by simp⟩
  case begin now _ _ _ _ _ _ _ _ _ => exact Or.inl (hsave s (·.begin now) (fun _ => rfl) ht)
  case answer now te _ row outcome _ _ _ _ =>
    exact Or.inl (hsave (s.emit _) (·.answered E.strOf now (taskTimeout E.settings other) outcome)
      (fun _ => TaskExecution.answered_taskDefinitionId ..) ht)
  case again => exact Or.inl (hsave s (·.again) (fun _ => rfl) ht)
  case branchFound now _ _ _ _ _ =>
    exact Or.inl (hsave { s with skipped := _ } (·.skip now) (fun _ => rfl) ht)
  case branchCreate now sid toSkip target hpc htarget =>
    have hin : t ∈ (s.flush (.new E.settings target)).ids := hsave _ (·.skip now) (fun _ => rfl) ht
    have hid : (TaskExecution.new E.settings target).taskDefinitionId = sid := (E.dag.getTask_ok htarget).2
    have hcases : t ∈ s.ids ∨ t = sid := by simpa [RunState.ids, hid] using hin
    refine hcases.imp_right fun h => Or.inr ⟨toSkip, ?_⟩
    rw [h]
    exact hpc
  all_goals exact Or.inl ht

/-- A coroutine that marks no branch creates the row of its own task only. -/
theorem NodeMove.mem_ids {answers : Answers} (h : NodeMove E answers other s s') (agrees : Agrees s)
    (hbranch : (∀ toSkip, s.pc other.taskId ≠ .branching toSkip) ∧
      ∀ sid toSkip, s.pc other.taskId ≠ .branchCreating sid toSkip)
    (ht : t ∈ s'.ids) : t ∈ s.ids ∨ t = other.taskId := by
  rcases h.ids_cases agrees ht with hin | ⟨hown, _⟩ | ⟨toSkip, hpc⟩
  · exact Or.inl hin
  · exact Or.inr hown
  · exact absurd hpc (hbranch.2 _ _)

/-- No move of another coroutine changes where a task is heading. -/
theorem Local.frame (hl : Local E handler data v s node) (located : Located s)
    (h : NodeMove E handler.answers other s s') (hne : node.taskId ≠ other.taskId)
    (hbranch : (∀ toSkip, s.pc other.taskId ≠ .branching toSkip) ∧
      ∀ sid toSkip, s.pc other.taskId ≠ .branchCreating sid toSkip) :
    Local E handler data v s' node := by
  refine hl.congr (h.pc_of_ne hne) ?_ ?_ (h.calls_of_ne hne) (h.completed_of_ne hne)
    (h.taskOutputs_of_ne hne) h.failed_mono
  · intro te w hpc hw
    obtain ⟨w', hw', hid⟩ := located.own _ _ hpc
    rw [hw] at hw'
    cases hw'
    exact h.works_of_ne located hw (by rw [hid]; exact hne)
  · exact fun hin => (h.mem_ids located.agrees hbranch hin).resolve_right hne

end BackendProjects.Workflow
