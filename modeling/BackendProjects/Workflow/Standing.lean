import BackendProjects.Workflow.Checkpoints

/-! What has become of the tasks of a run over the rows of an earlier one, wherever their coroutines are:
each that was not completed before is called once, and publishes what follows from its predecessors. -/
namespace BackendProjects.Workflow
open Library

structure Accepted (node : DAGNode) : Prop where
  strategy : (getRetryStrategy node.retryConfig).toBool = true
  taskClass : (getTaskClass node.taskType).toBool = true

namespace RunState
variable (s : RunState)

structure Uncalled (t : TaskId) : Prop where
  incomplete : t ∉ s.completed
  calls : s.calls t = 0

structure CalledOnce (node : DAGNode) : Prop where
  incomplete : node.taskId ∉ s.completed
  calls : s.calls node.taskId = 1
  accepted : Accepted node

def Fits (te : Nat) : Prop := ∃ w, s.works[te]? = some w ∧ w.attempt ≤ w.maxAttempts

def AllFit (done : Finset TaskId) : Prop :=
  ∀ (i : Nat) (w : Work), s.works[i]? = some w → w.taskDefinitionId ∉ done → w.attempt ≤ w.maxAttempts

end RunState

section Standing
variable (E : Engine) (respond : Respond) (input : Option PyDict) (done : Finset TaskId) (s : RunState)
  (node : DAGNode)

/-- What has become of a task, with its coroutine at a place, when some tasks were done before. -/
def Standing : NodePc → Prop
  | .waiting | .checking | .entering | .creating => s.Uncalled node.taskId
  | .prepared te => s.Uncalled node.taskId ∧ s.Fits te
  | .looping te data =>
      s.Uncalled node.taskId ∧ s.Fits te ∧ data = taskInput E input s.taskOutputs node.taskId ∧
        (getRetryStrategy node.retryConfig).toBool = true
  | .running te data =>
      s.Uncalled node.taskId ∧ s.Fits te ∧ data = taskInput E input s.taskOutputs node.taskId ∧ Accepted node
  | .handling te data =>
      s.CalledOnce node ∧ s.Fits te ∧ data = taskInput E input s.taskOutputs node.taskId
  | .finishing te true =>
      s.CalledOnce node ∧ ∃ w, s.works[te]? = some w ∧
        w.outputData = outputOf E respond input s.taskOutputs node
  | .done =>
      node.taskId ∈ s.completed ∧ (if node.taskId ∈ done then s.calls node.taskId = 0
        else s.calls node.taskId = 1 ∧ Accepted node) ∨
      s.Uncalled node.taskId ∧ node.taskId ∉ s.wave
  | .raised _ => s.Uncalled node.taskId ∧ ¬ Accepted node
  | _ => False

end Standing

variable {E : Engine} {respond : Respond} {input : Option PyDict} {done : Finset TaskId} {s s' : RunState}
  {node : DAGNode} {t : TaskId} {pc : NodePc}

/-- What the standing of a task depends on. -/
theorem Standing.congr (h : Standing E respond input done s node pc)
    (hc : node.taskId ∈ s'.completed ↔ node.taskId ∈ s.completed)
    (hcalls : s'.calls node.taskId = s.calls node.taskId)
    (hworks : ∀ te w, pc.row? = some te → s.works[te]? = some w → s'.works[te]? = some w)
    (hpreds : pc ≠ .done → ∀ p ∈ E.dag.predecessors node.taskId,
      s'.taskOutputs.get? (.str p) = s.taskOutputs.get? (.str p))
    (hwave : node.taskId ∉ s.completed → pc = .done → node.taskId ∉ s.wave → node.taskId ∉ s'.wave) :
    Standing E respond input done s' node pc := by
  have huncalled (h : s.Uncalled node.taskId) : s'.Uncalled node.taskId :=
    ⟨fun hin => h.incomplete (hc.mp hin), hcalls.trans h.calls⟩
  have honce (h : s.CalledOnce node) : s'.CalledOnce node :=
    ⟨fun hin => h.incomplete (hc.mp hin), hcalls.trans h.calls, h.accepted⟩
  have hfits {te : Nat} (hrow : pc.row? = some te) (h : s.Fits te) : s'.Fits te := by
    obtain ⟨w, hw, hle⟩ := h
    exact ⟨w, hworks te w hrow hw, hle⟩
  have hinput (hpc : pc ≠ .done) : taskInput E input s'.taskOutputs node.taskId =
      taskInput E input s.taskOutputs node.taskId := taskInput_congr (hpreds hpc)
  cases pc with
  | waiting | checking | entering | creating => exact huncalled h
  | prepared te => exact ⟨huncalled h.1, hfits rfl h.2⟩
  | looping te data => exact ⟨huncalled h.1, hfits rfl h.2.1, hinput nofun ▸ h.2.2.1, h.2.2.2⟩
  | running te data => exact ⟨huncalled h.1, hfits rfl h.2.1, hinput nofun ▸ h.2.2.1, h.2.2.2⟩
  | handling te data => exact ⟨honce h.1, hfits rfl h.2.1, hinput nofun ▸ h.2.2⟩
  | finishing te ok =>
    cases ok with
    | false => exact h
    | true =>
      obtain ⟨hcalled, w, hw, hout⟩ := h
      exact ⟨honce hcalled, w, hworks te w rfl hw, hout.trans (outputOf_congr (hpreds nofun)).symm⟩
  | done =>
    rcases h with ⟨hin, hcalled⟩ | ⟨huntried, hout⟩
    · refine Or.inl ⟨hc.mpr hin, ?_⟩
      rwa [hcalls]
    · exact Or.inr ⟨huncalled huntried, hwave huntried.incomplete rfl hout⟩
  | raised e => exact ⟨huncalled h.1, h.2⟩
  | attemptFailed | sleeping | branching | branchCreating => exact h

/-! ### The coroutines -/

structure Resumed (E : Engine) (respond : Respond) (input : Option PyDict) (done : Finset TaskId)
    (s : RunState) : Prop where
  fits : s.AllFit done
  evaluates : Evaluates E respond input s.completed s.taskOutputs
  wave : ∀ t ∈ s.wave, t ∈ E.dag.graph.nodes ∧ ∀ p ∈ E.dag.predecessors t, p ∈ s.completed
  standing : ∀ node, E.dag.getTask node.taskId = .ok node →
    Standing E respond input done s node (s.pc node.taskId)

/-- What the coroutines of a wave can rely on. -/
structure Open (input : Option PyDict) (done : Finset TaskId) (s : RunState) : Prop where
  idle : Idle s
  located : Located s
  live : s.mem.execution.status ≠ .cancelled
  data : s.mem.execution.inputData = input
  skipped : s.skipped = ∅
  done : done ⊆ s.completed

private theorem Standing.own (hs : Standing E respond input done s node (s.pc node.taskId))
    (ho : Open input done s)
    (hfits : s.AllFit done) (succeeds : ∀ node data, (respond node data).success = true)
    (htype : node.taskType ≠ "condition") (h : NodeMove E respond.handler.answers node s s') :
    Standing E respond input done s' node (s'.pc node.taskId) := by
  have hnotDone (h : node.taskId ∉ s.completed) : node.taskId ∉ done := fun hin => h (ho.done hin)
  cases h with
  | acquire hpc hsem =>
    rw [hpc] at hs
    rw [RunState.goto_pc, Function.update_self]
    exact ⟨hs.incomplete, hs.calls⟩
  | cancelled hpc h => exact absurd h ho.live
  | enter hpc h =>
    rw [hpc] at hs
    rw [RunState.goto_pc, Function.update_self]
    exact ⟨hs.incomplete, hs.calls⟩
  | settled hpc h =>
    rw [hpc] at hs
    rw [ho.skipped] at h
    exact absurd (h.resolve_right (Finset.notMem_empty _)) hs.incomplete
  | found hpc _ _ h =>
    rw [hpc] at hs
    rw [RunState.goto_pc, Function.update_self]
    obtain ⟨row, hrow, hid⟩ := findTask_some h
    have hwork := s.getElem?_works hrow
    refine ⟨⟨hs.incomplete, hs.calls⟩, row.work, hwork, hfits _ _ hwork ?_⟩
    rw [show row.work.taskDefinitionId = node.taskId from hid]
    exact hnotDone hs.incomplete
  | missing hpc _ _ h =>
    rw [hpc] at hs
    rw [RunState.goto_pc, Function.update_self]
    exact ⟨hs.incomplete, hs.calls⟩
  | create hpc =>
    rw [hpc] at hs
    rw [RunState.goto_pc, Function.update_self]
    refine ⟨⟨hs.incomplete, hs.calls⟩, (TaskExecution.new E.settings node).work, ?_, E.maxAttempts_pos node⟩
    simp [RunState.works]
  | prepare hpc hok =>
    rw [hpc] at hs
    rw [RunState.goto_pc, Function.update_self, ho.data]
    exact ⟨⟨hs.1.incomplete, hs.1.calls⟩, hs.2, rfl, by rw [hok]; rfl⟩
  | @begin now te input' row taskClass hpc hrow hle _ hclass =>
    rw [hpc] at hs
    obtain ⟨huncalled, hrowFits, hdata, hstrategy⟩ := hs
    rw [RunState.goto_pc, Function.update_self]
    refine ⟨⟨huncalled.incomplete, huncalled.calls⟩, ?_, hdata, hstrategy, by rw [hclass]; rfl⟩
    rw [RunState.Fits, RunState.works_goto, RunState.works_begin]
    exact hrowFits
  | @stop te input' row hpc hrow h =>
    rw [hpc] at hs
    obtain ⟨_, ⟨w, hw, hle⟩, _⟩ := hs
    rw [s.getElem?_works hrow] at hw
    cases hw
    exact absurd (h.resolve_right ho.live) (not_lt.mpr hle)
  | @call te input' row hpc hrow =>
    rw [hpc] at hs
    obtain ⟨huncalled, hrowFits, hdata, haccepted⟩ := hs
    rw [RunState.goto_pc, Function.update_self]
    refine ⟨⟨huncalled.incomplete, ?_, haccepted⟩, hrowFits, hdata⟩
    rw [RunState.calls_goto, RunState.calls_emit, huncalled.calls]
    simp [HandlerEvent.starts]
  | @answer now te input' row outcome hpc hrow hlegal hcaught =>
    rw [hpc] at hs
    obtain ⟨hcalled, _, rfl⟩ := hs
    obtain rfl : outcome = .result (respond node (taskInput E input s.taskOutputs node.taskId)) := hlegal
    have hok := succeeds node (taskInput E input s.taskOutputs node.taskId)
    rw [RunState.goto_pc, Function.update_self, Outcome.ok, if_pos hok]
    refine ⟨⟨hcalled.incomplete, ?_, hcalled.accepted⟩, _, RunState.works_saveTask_self _ te _ hrow, ?_⟩
    · rw [RunState.calls_goto, RunState.calls_saveTask, RunState.calls_emit, hcalled.calls]
      simp [HandlerEvent.starts]
    · exact TaskExecution.answered_outputData _ _ _ _ hok
  | exhausted hpc _ _ =>
    rw [hpc] at hs
    exact hs.elim
  | backOff sample hpc _ _ _ =>
    rw [hpc] at hs
    exact hs.elim
  | again hpc =>
    rw [hpc] at hs
    exact hs.elim
  | fail hpc =>
    rw [hpc] at hs
    exact hs.elim
  | finish hpc hrow _ =>
    rw [hpc] at hs
    obtain ⟨hcalled, _⟩ := hs
    rw [RunState.leave_pc, Function.update_self]
    refine Or.inl ⟨Finset.mem_insert_self _ _, ?_⟩
    rw [if_neg (hnotDone hcalled.incomplete)]
    exact ⟨hcalled.calls, hcalled.accepted⟩
  | branch hpc _ htype' _ _ => exact absurd htype' htype
  | branchThrow hpc _ htype' _ => exact absurd htype' htype
  | branchDone hpc | branchFound now hpc _ | branchMissing hpc _ | branchCreate now hpc _ =>
    rw [hpc] at hs
    exact hs.elim
  | throw h =>
    rw [RunState.throw_pc, Function.update_self]
    cases h with
    | strategy hpc hstrategy =>
      rw [hpc] at hs
      refine ⟨⟨hs.1.incomplete, hs.1.calls⟩, fun haccepted => ?_⟩
      have hok := haccepted.strategy
      rw [hstrategy] at hok
      cases hok
    | taskClass hpc _ _ _ hclass =>
      rw [hpc] at hs
      refine ⟨⟨hs.1.incomplete, hs.1.calls⟩, fun haccepted => ?_⟩
      have hok := haccepted.taskClass
      rw [hclass] at hok
      cases hok
    | handler hpc _ hlegal => cases hlegal
    | delay sample hpc _ _ _ =>
      rw [hpc] at hs
      exact hs.elim
    | target hpc _ =>
      rw [hpc] at hs
      exact hs.elim

/-- No move of a coroutine uses up an attempt. -/
private theorem RunState.AllFit.nodeMove (hfits : s.AllFit done)
    (hs : Standing E respond input done s node (s.pc node.taskId)) (located : Located s)
    (h : NodeMove E respond.handler.answers node s s') : s'.AllFit done := by
  intro i w hw hid
  cases h with
  | acquire =>
    rw [RunState.works_goto,
      RunState.works_refreshed (show Agrees { s with sem := s.sem - 1 } from located.agrees)] at hw
    exact hfits i w hw hid
  | create hpc =>
    rw [RunState.works_goto, RunState.works_flush, List.getElem?_append] at hw
    split at hw
    · exact hfits i w hw hid
    · rw [List.getElem?_singleton] at hw
      split at hw
      · cases hw
        exact E.maxAttempts_pos node
      · cases hw
  | begin =>
    rw [RunState.works_goto, RunState.works_begin] at hw
    exact hfits i w hw hid
  | @answer now te input' row outcome hpc hrow hlegal hcaught =>
    rw [RunState.works_goto] at hw
    by_cases hi : i = te
    · subst hi
      have hself := RunState.works_saveTask_self (s.emit (.returned node.taskId row.attempt outcome)) i
        (·.answered E.strOf now (taskTimeout E.settings node) outcome) hrow
      rw [hself] at hw
      cases hw
      simp only [TaskExecution.work, TaskExecution.answered_taskDefinitionId, TaskExecution.answered_attempt,
        TaskExecution.answered_maxAttempts] at hid ⊢
      exact hfits i row.work (s.getElem?_works hrow) hid
    · rw [RunState.works_saveTask_of_ne _ _ _ hi] at hw
      exact hfits i w hw hid
  | again hpc | branchFound _ hpc _ | branchCreate _ hpc _ =>
    rw [hpc] at hs
    exact hs.elim
  | _ => exact hfits i w hw hid

namespace Resumed
variable (r : Resumed E respond input done s)
include r

/-- A coroutine publishes what follows from the outputs of the predecessors. -/
private theorem evaluates_nodeMove (ho : Open input done s) (hnode : E.dag.getTask node.taskId = .ok node)
    (h : NodeMove E respond.handler.answers node s s') :
    Evaluates E respond input s'.completed s'.taskOutputs := by
  have hs := r.standing node hnode
  rcases h.published with ⟨hc, hout, _⟩ | ⟨te, row, hpc, hrow, hc, hout⟩
  · rw [hc, hout]
    exact r.evaluates
  · rw [hpc] at hs
    obtain ⟨hcalled, w, hw, hvalue⟩ := hs
    rw [s.getElem?_works hrow] at hw
    cases hw
    have hwave := ho.idle.mem_wave h.pc_ne_done
    rw [hc]
    refine r.evaluates.publish hnode (r.wave _ hwave).2 hcalled.incomplete
      (fun key hkey => h.taskOutputs_of_key hkey) ?_
    rw [hout, RunState.publish_taskOutputs, ← hvalue, show row.work.outputData = row.outputData from rfl,
      published]
    by_cases hsome : row.outputData ≠ .none
    · rw [if_pos hsome, if_pos hsome, PyDict.get?_set]
    · rw [if_neg hsome, if_neg hsome]
      refine r.evaluates.absent _ (fun t ht heq => hcalled.incomplete ?_)
      cases heq
      exact ht

/-- What a coroutine publishes is none of the inputs of its wave. -/
private theorem pred_outputs (ho : Open input done s) (hnode : E.dag.getTask node.taskId = .ok node)
    (h : NodeMove E respond.handler.answers node s s') (hactive : s.pc t ≠ .done) :
    ∀ p ∈ E.dag.predecessors t, s'.taskOutputs.get? (.str p) = s.taskOutputs.get? (.str p) := by
  intro p hp
  rcases h.published with ⟨_, hout, _⟩ | ⟨te, row, hpc, _⟩
  · rw [hout]
  · refine h.taskOutputs_of_ne ?_
    rintro rfl
    have hs := r.standing node hnode
    rw [hpc] at hs
    exact hs.1.incomplete ((r.wave t (ho.idle.mem_wave hactive)).2 _ hp)

theorem nodeMove (ho : Open input done s) (hnode : E.dag.getTask node.taskId = .ok node)
    (succeeds : ∀ node data, (respond node data).success = true) (htype : node.taskType ≠ "condition")
    (h : NodeMove E respond.handler.answers node s s') : Resumed E respond input done s' := by
  have hs := r.standing node hnode
  refine ⟨r.fits.nodeMove hs ho.located h, r.evaluates_nodeMove ho hnode h, ?_, fun other hother => ?_⟩
  · rw [h.wave]
    exact fun t ht => ⟨(r.wave t ht).1, fun p hp => h.completed_mono ((r.wave t ht).2 p hp)⟩
  · by_cases heq : other.taskId = node.taskId
    · rw [heq, hnode] at hother
      cases hother
      exact hs.own ho r.fits succeeds htype h
    · rw [h.pc_of_ne heq]
      refine (r.standing other hother).congr (h.completed_of_ne heq) (h.calls_of_ne heq) ?_
        (r.pred_outputs ho hnode h) (fun _ _ hout => h.wave ▸ hout)
      intro te w hrow hw
      obtain ⟨w', hw', hid⟩ := ho.located.own _ _ hrow
      rw [hw] at hw'
      cases hw'
      exact h.works_of_ne ho.located hw (by rw [hid]; exact heq)

end Resumed

end BackendProjects.Workflow
