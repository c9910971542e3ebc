import BackendProjects.Workflow.Coverage
import BackendProjects.Workflow.DependencyOrder
import BackendProjects.Workflow.Generations
import BackendProjects.Workflow.StreamReplay

/-! Runs of workflows with branches against what these mean: every step of the coroutines and of the body keeps
what a run has come to, and what it is about to do, within the meaning of the workflow. -/
namespace BackendProjects.Workflow
open Library

def NodePc.Branches : NodePc → Prop
  | .branching _ | .branchCreating _ _ => True
  | _ => False

variable {E : Engine} {answers : Answers} {handler : Handler} {input : Option PyDict} {s s' : RunState}
  {node : DAGNode} {t : TaskId}

/-! ### The moves of a condition's coroutine -/

private theorem NodeMove.branches_after (h : NodeMove E answers node s s') (hb : (s'.pc node.taskId).Branches) :
    (s.pc node.taskId).Branches ∨ node.taskId ∈ s'.completed := by
  cases h
  case branch => exact Or.inr (Finset.mem_insert_self _ _)
  case branchFound hpc _ => exact Or.inl (by rw [hpc]; trivial)
  case branchMissing hpc _ => exact Or.inl (by rw [hpc]; trivial)
  case branchCreate hpc _ => exact Or.inl (by rw [hpc]; trivial)
  case answer outcome _ _ _ _ => cases hok : outcome.ok <;> simp [hok, NodePc.Branches] at hb
  all_goals simp [NodePc.Branches] at hb

/-- A coroutine whose execution is not cancelled ends with its task settled, or with the flag up. -/
theorem NodeMove.settles (h : NodeMove E answers node s s') (hdone : s'.pc node.taskId = .done)
    (hlive : s.mem.execution.status ≠ .cancelled) (hb : (s.pc node.taskId).Branches → node.taskId ∈ s.completed) :
    node.taskId ∈ s'.completed ∨ node.taskId ∈ s'.skipped ∨ s'.failed = true := by
  cases h
  case cancelled h => exact absurd h hlive
  case settled h => exact h.imp_right Or.inl
  case fail => exact Or.inr (Or.inr rfl)
  case finish => exact Or.inl (Finset.mem_insert_self _ _)
  case branchDone hpc => exact Or.inl (hb (by rw [hpc]; trivial))
  case answer outcome _ _ _ _ => cases hok : outcome.ok <;> simp [hok] at hdone
  all_goals simp at hdone

/-- What is left to mark is marked next, or later, or left to an exception. -/
private theorem NodeMove.marks (h : NodeMove E answers node s s') (ht : t ∈ (s.pc node.taskId).marks) :
    t ∈ s'.skipped ∨ t ∈ (s'.pc node.taskId).marks ∨ ∃ e, s'.pc node.taskId = .raised e := by
  cases h
  case branchDone hpc => rw [hpc] at ht; cases ht
  case branchFound now sid toSkip te hpc hfound =>
    rw [hpc] at ht
    rcases List.mem_cons.mp ht with rfl | ht
    · exact Or.inl (Finset.mem_insert_self _ _)
    · exact Or.inr (Or.inl (by simpa [NodePc.marks] using ht))
  case branchMissing sid toSkip hpc hfound =>
    rw [hpc] at ht
    rcases List.mem_cons.mp ht with rfl | ht
    · exact Or.inl (Finset.mem_insert_self _ _)
    · exact Or.inr (Or.inl (by simpa [NodePc.marks] using ht))
  case branchCreate hpc _ =>
    rw [hpc] at ht
    exact Or.inr (Or.inl (by simpa [NodePc.marks] using ht))
  case throw => exact Or.inr (Or.inr ⟨_, Function.update_self ..⟩)
  case branchThrow => exact Or.inr (Or.inr ⟨_, Function.update_self ..⟩)
  all_goals simp_all [NodePc.marks]

private theorem NodeMove.marked_before_row (h : NodeMove E answers node s s') {toSkip : List TaskId}
    (hpc : s'.pc node.taskId = .branchCreating t toSkip) : t ∈ s'.skipped := by
  cases h
  case branchMissing sid toSkip' _ _ =>
    simp only [RunState.goto_pc, Function.update_self, NodePc.branchCreating.injEq] at hpc
    rw [hpc.1]
    exact Finset.mem_insert_self _ _
  case answer outcome _ _ _ _ => cases hok : outcome.ok <;> simp [hok] at hpc
  all_goals simp at hpc

/-- The condition decides as it publishes its output, or an exception comes of it. -/
private theorem NodeMove.publishes_condition (h : NodeMove E answers node s s')
    (htype : node.taskType = "condition")
    (hbefore : node.taskId ∉ s.completed) (hafter : node.taskId ∈ s'.completed) :
    (∃ e, s'.pc node.taskId = .raised e) ∨ ∃ te row toSkip, s.pc node.taskId = .finishing te true ∧
      s.mem.tasks[te]? = some row ∧ branchSkips E.strOf E.dag node row.outputData = .ok toSkip ∧
        s'.pc node.taskId = .branching toSkip := by
  cases h
  case finish hne => exact absurd htype hne
  case branch te row toSkip hpc hrow _ hlock hskips =>
    exact Or.inr ⟨te, row, toSkip, hpc, hrow, hskips, by simp⟩
  case branchThrow => exact Or.inl ⟨_, Function.update_self ..⟩
  all_goals exact absurd hafter hbefore

/-- Only a coroutine that works on its row calls the handler. -/
private theorem NodeMove.called (h : NodeMove E answers node s s') :
    (∀ t, s'.calls t = s.calls t) ∨ ∃ te, (s.pc node.taskId).row? = some te := by
  cases h
  case call te input row hpc hrow => exact Or.inr ⟨te, by rw [hpc]; rfl⟩
  case answer te input row outcome hpc hrow _ _ => exact Or.inr ⟨te, by rw [hpc]; rfl⟩
  case backOff te input row delay hpc hrow _ _ => exact Or.inr ⟨te, by rw [hpc]; rfl⟩
  all_goals exact Or.inl fun _ => rfl

theorem NodeMove.not_raised (h : NodeMove E answers node s s') (e : PyError) :
    s.pc node.taskId ≠ .raised e := by
  cases h
  case throw h => cases h <;> simp [*]
  all_goals simp [*]

private theorem NodeMove.active_before (h : NodeMove E answers node s s') (hpc : s'.pc t ≠ .done) :
    s.pc t ≠ .done := by
  by_cases hn : t = node.taskId
  · exact hn ▸ h.pc_ne_done
  · rwa [h.pc_of_ne hn] at hpc

/-! ### The invariant -/

section Invariant
variable (E handler input)

abbrev Heading (s : RunState) (node : DAGNode) : Prop :=
  Local E handler (taskInput E input s.taskOutputs node.taskId)
    (verdict E handler input s.taskOutputs node.taskId) s node

/-- A task that fails, or a condition whose output does not tell its branches. -/
def Breaks (t : TaskId) : Prop := Fails E handler input t ∨ ∃ c ∈ E.dag.nodes, c.taskId = t ∧
  c.taskType = "condition" ∧ ∃ o e, Means E handler input t (.completed o) ∧ branchSkips E.strOf E.dag c o = .error e

/-- The marks of a condition that has completed are in place, or under way, or given up by an exception. -/
def Decided (s : RunState) (c : DAGNode) : Prop :=
  (∃ e, s.pc c.taskId = .raised e) ∨ ∃ o toSkip, Means E handler input c.taskId (.completed o) ∧
    branchSkips E.strOf E.dag c o = .ok toSkip ∧
      ∀ t ∈ toSkip, t ∈ s.skipped ∨ t ∈ (s.pc c.taskId).marks

/-- What a run has come to is what the workflow means, and so is what it is about to do. -/
structure Meant (s : RunState) : Prop where
  ordered : Ordered E [] s
  unrecorded : Unrecorded s
  settled : Settled E s
  agrees : AgreesOn id s
  data : s.mem.execution.inputData = input ∧ s.db.execution.inputData = input
  values : ∀ t ∈ s.completed, ∃ o, Means E handler input t (.completed o) ∧
    s.taskOutputs.get? (.str t) = published o
  skips : ∀ t ∈ s.skipped, Means E handler input t .skipped
  fails : s.failed = true → ∃ t, Fails E handler input t
  decided : ∀ c ∈ E.dag.nodes, c.taskType = "condition" → c.taskId ∈ s.completed →
    Decided E handler input s c
  targets : ∀ c, ∀ t ∈ (s.pc c).targets, c ∈ E.dag.predecessors t ∧ Means E handler input t .skipped
  marking : ∀ c sid toSkip, s.pc c = .branchCreating sid toSkip → sid ∈ s.skipped
  branches : ∀ c, (s.pc c).Branches → c ∈ s.completed
  raised : ∀ t e, s.pc t = .raised e → E.reading.branchLock = false ∨ Breaks E handler input t
  behind : ∀ t ∈ s.main.marks, Means E handler input t .skipped
  creating : ∀ sid sids, s.main = .skipCreating sid sids → sid ∈ s.skipped
  ids : ∀ t ∈ s.ids, t ∈ s.completed ∨ t ∈ s.skipped ∨ s.pc t ≠ .done ∨ s.failed = true
  called : ∀ t, s.calls t ≠ 0 → t ∈ s.ids
  apart : ∀ t, s.pc t ≠ .done → t ∉ s.skipped ∧ ∀ c ∈ E.dag.predecessors t, s.pc c = .done
  heading : ∀ node, E.dag.getTask node.taskId = .ok node → s.pc node.taskId ≠ .done →
    node.taskId ∉ s.completed → Heading E handler input s node

end Invariant

private theorem Decided.congr {c : DAGNode} (h : Decided E handler input s c)
    (hpc : s'.pc c.taskId = s.pc c.taskId)
    (hskipped : s.skipped ⊆ s'.skipped) : Decided E handler input s' c := by
  rcases h with ⟨e, h⟩ | ⟨o, toSkip, hmeans, hskips, hall⟩
  · exact Or.inl ⟨e, hpc.trans h⟩
  · exact Or.inr ⟨o, toSkip, hmeans, hskips, fun t ht => hpc ▸ (hall t ht).imp_left fun h => hskipped h⟩

theorem Meant.start (E : Engine) (handler : Handler) (input : Option PyDict) :
    Meant E handler input (.start E (freshRows input)) where
  ordered := .start E (freshRows input)
  unrecorded := .start E rfl rfl
  settled := .start E _
  agrees := List.prefix_refl _
  data := ⟨rfl, rfl⟩
  values := fun _ h => absurd h (Finset.notMem_empty _)
  skips := fun _ h => absurd h (Finset.notMem_empty _)
  fails := fun h => by cases h
  decided := fun _ _ _ h => absurd h (Finset.notMem_empty _)
  targets := fun _ _ h => absurd h List.not_mem_nil
  marking := fun _ _ _ h => by cases h
  branches := fun _ h => h.elim
  raised := fun _ _ h => by cases h
  behind := fun _ h => absurd h List.not_mem_nil
  creating := fun _ _ h => by cases h
  ids := fun _ h => absurd h List.not_mem_nil
  called := fun _ h => absurd rfl h
  apart := fun _ h => absurd rfl h
  heading := fun _ _ h => absurd rfl h

namespace Meant
variable (inv : Meant E handler input s)
include inv

/-- While coroutines are under way, the session sees the execution running. -/
theorem live (hg : s.main.gathers = true) : s.mem.execution.status ≠ .cancelled := by
  have hmain : s.main ≠ .lookup ∧ s.main ≠ .loaded ∧ s.main ≠ .returned := by
    refine ⟨?_, ?_, ?_⟩ <;> rintro h <;> rw [h] at hg <;> cases hg
  rw [inv.unrecorded.current hmain.1]
  rcases inv.unrecorded.unended hmain.1 hmain.2.1 with h | ⟨h, _⟩
  · rw [h.1]
    simp
  · exact absurd h hmain.2.2

/-- A task under way is fed with what its predecessors mean. -/
theorem fed (hmarked : ∀ t, MarkedByPredecessors E t) (hpc : s.pc t ≠ .done) :
    ∃ output, (∀ p ∈ E.dag.predecessors t, Means E handler input p (.completed (output p))) ∧
      Fed E t output s.taskOutputs := by
  have hvalues (p : TaskId) : ∃ o, p ∈ E.dag.predecessors t →
      Means E handler input p (.completed o) ∧ s.taskOutputs.get? (.str p) = published o := by
    by_cases hp : p ∈ E.dag.predecessors t
    · obtain ⟨o, h⟩ := inv.values p (inv.ordered.preds t hpc p hp)
      exact ⟨o, fun _ => h⟩
    · exact ⟨.none, fun h => absurd h hp⟩
  choose output hvalues using hvalues
  refine ⟨output, fun p hp => (hvalues p hp).1, fun p hp => (hvalues p hp).2, ?_⟩
  intro c hc htype hpred toSkip hskips ht
  obtain ⟨hunmarked, hdone⟩ := inv.apart t hpc
  rcases inv.decided c hc htype (inv.ordered.preds t hpc _ hpred) with ⟨e, h⟩ | ⟨o, toSkip', hmeans, hskips', hall⟩
  · rw [hdone _ hpred] at h
    cases h
  · have hsame := (hvalues _ hpred).1.unique hmarked hmeans
    rw [Fate.completed.injEq] at hsame
    rw [← hsame, hskips', Except.ok.injEq] at hskips
    rcases hall t (hskips ▸ ht) with h | h
    · exact hunmarked h
    · rw [hdone _ hpred] at h
      cases h

/-- What a condition marks has no other fate, and is not under way. -/
theorem settlesOnce (hmarked : ∀ t, MarkedByPredecessors E t) (s' : RunState) : SettlesOnce E s s' := by
  refine ⟨fun hmain => ?_, fun c sid toSkip hpc _ => ?_⟩
  · simp [LoadsCurrent, inv.ordered.loaded (Or.inr hmain)]
  · obtain ⟨hpred, hskip⟩ := inv.targets c sid (by rw [hpc]; exact List.mem_cons_self)
    refine ⟨fun hc => ?_, fun ha => ?_⟩
    · obtain ⟨o, hmeans, _⟩ := inv.values sid hc
      cases hmeans.unique hmarked hskip
    · have hactive : s.pc sid ≠ .done := by
        intro hdone
        rw [hdone] at ha
        exact ha
      have hdone := (inv.apart sid hactive).2 c hpred
      rw [hpc] at hdone
      cases hdone

/-! ### What a coroutine leaves alone -/

section Move
variable (h : NodeMove E handler.answers node s s')
include h

private theorem nodeMove_apart {t : TaskId} (hpc : s'.pc t ≠ .done) :
    t ∉ s'.skipped ∧ ∀ c ∈ E.dag.predecessors t, s'.pc c = .done := by
  obtain ⟨hunmarked, hdone⟩ := inv.apart t (h.active_before hpc)
  have hne : node.taskId ∉ E.dag.predecessors t := fun hpred => h.pc_ne_done (hdone _ hpred)
  refine ⟨fun ht => ?_, fun c hc => ?_⟩
  · rcases h.skipped with hs | ⟨sid, toSkip, hbranching, _, hs⟩
    · exact hunmarked (hs ▸ ht)
    · rw [hs] at ht
      rcases Finset.mem_insert.mp ht with rfl | ht
      · exact hne (inv.targets _ _ (by rw [hbranching]; exact List.mem_cons_self)).1
      · exact hunmarked ht
  · rw [h.pc_of_ne (fun heq => hne (heq ▸ hc))]
    exact hdone c hc

private theorem nodeMove_ids {t : TaskId} (ht : t ∈ s'.ids) :
    t ∈ s'.completed ∨ t ∈ s'.skipped ∨ s'.pc t ≠ .done ∨ s'.failed = true := by
  rcases h.ids_cases inv.ordered.located.agrees ht with ht | ⟨rfl, hpc⟩ | ⟨toSkip, hpc⟩
  · rcases inv.ids t ht with hc | hs | hpc | hf
    · exact Or.inl (h.completed_mono hc)
    · exact Or.inr (Or.inl (h.skipped_mono hs))
    · by_cases hn : t = node.taskId
      · subst hn
        by_cases hdone : s'.pc node.taskId = .done
        · have hlive := inv.live (inv.ordered.idle.gathers hpc)
          exact (h.settles hdone hlive (inv.branches _)).imp_right fun h => h.imp_right Or.inr
        · exact Or.inr (Or.inr (Or.inl hdone))
      · exact Or.inr (Or.inr (Or.inl (h.pc_of_ne hn ▸ hpc)))
    · exact Or.inr (Or.inr (Or.inr (h.failed_mono hf)))
  · exact Or.inr (Or.inr (Or.inl hpc))
  · exact Or.inr (Or.inl (h.skipped_mono (inv.marking _ _ _ hpc)))

private theorem nodeMove_called {t : TaskId} (ht : s'.calls t ≠ 0) : t ∈ s'.ids := by
  obtain ⟨rest, hids⟩ := h.ids_extended inv.agrees
  have hmono {u : TaskId} (hu : u ∈ s.ids) : u ∈ s'.ids := by
    rw [RunState.ids, ← hids]
    exact List.mem_append_left _ hu
  rcases h.called with hsame | ⟨te, hrow⟩
  · exact hmono (inv.called t (hsame t ▸ ht))
  · by_cases hn : t = node.taskId
    · subst hn
      obtain ⟨w, hw, hid⟩ := inv.ordered.located.own _ te hrow
      apply hmono
      rw [← RunState.ids_works]
      exact List.mem_map.mpr ⟨w, List.mem_of_getElem? hw, hid⟩
    · exact hmono (inv.called t (h.calls_of_ne hn ▸ ht))

end Move

/-! ### What a coroutine comes to -/

section Coroutine
variable (hmarked : ∀ t, MarkedByPredecessors E t) (hnode : E.dag.getTask node.taskId = .ok node)
  {te : Nat} {row : TaskExecution}
include hmarked hnode

private theorem finished (hpc : s.pc node.taskId = .finishing te true) (hrow : s.mem.tasks[te]? = some row) :
    Means E handler input node.taskId (.completed row.outputData) := by
  have hactive : s.pc node.taskId ≠ .done := by simp [hpc]
  obtain ⟨output, hpreds, hfed⟩ := inv.fed hmarked hactive
  have hl := inv.heading node hnode hactive (inv.ordered.unpublished _ (by rw [hpc]; trivial))
  obtain ⟨w, h⟩ := hl.of_row (show (s.pc node.taskId).row? = some te by rw [hpc]; rfl)
  have hw := h.row
  rw [s.getElem?_works hrow, Option.some.injEq] at hw
  subst hw
  have hview := h.view
  rw [hpc] at hview
  exact .completes hpreds hfed hview.symm

private theorem given_up (hpc : s.pc node.taskId = .finishing te false) : Fails E handler input node.taskId := by
  have hactive : s.pc node.taskId ≠ .done := by simp [hpc]
  obtain ⟨output, hpreds, hfed⟩ := inv.fed hmarked hactive
  have hl := inv.heading node hnode hactive (inv.ordered.unpublished _ (by rw [hpc]; trivial))
  obtain ⟨w, h⟩ := hl.of_row (show (s.pc node.taskId).row? = some te by rw [hpc]; rfl)
  have hview := h.view
  rw [hpc] at hview
  refine ⟨E.dag.mem_allTaskIds.mpr (E.dag.mem_nodes_of_getTask hnode), output, _, hpreds, hfed, ?_⟩
  rw [← hview]
  rfl

variable (h : NodeMove E handler.answers node s s')
include h

private theorem nodeMove_values {t : TaskId} (ht : t ∈ s'.completed) : ∃ o, Means E handler input t
    (.completed o) ∧
    s'.taskOutputs.get? (.str t) = published o := by
  rcases h.published with ⟨hc, ho, _⟩ | ⟨te, row, hpc, hrow, hc, ho⟩
  · rw [hc] at ht
    rw [ho]
    exact inv.values t ht
  by_cases hn : t = node.taskId
  · subst hn
    have hsilent := inv.ordered.absent _ (inv.ordered.unpublished node.taskId (by rw [hpc]; trivial))
    refine ⟨row.outputData, inv.finished hmarked hnode hpc hrow, ?_⟩
    rw [ho, RunState.publish_taskOutputs, published]
    split
    · exact PyDict.get?_set _ _ _
    · exact hsilent
  · rw [h.taskOutputs_of_ne hn]
    exact inv.values t ((h.completed_of_ne hn).mp ht)

private theorem nodeMove_targets {c : TaskId} {t : TaskId} (ht : t ∈ (s'.pc c).targets) :
    c ∈ E.dag.predecessors t ∧ Means E handler input t .skipped := by
  by_cases hn : c = node.taskId
  · subst hn
    rcases h.targets ht with ht | ⟨te, row, toSkip, hpc, hrow, htype, hskips, ht⟩
    · exact inv.targets _ t ht
    · have hmem := (E.dag.getTask_ok hnode).1
      exact ⟨hmarked t node hmem htype _ toSkip hskips ht,
        .marked hmem htype (inv.finished hmarked hnode hpc hrow) hskips ht⟩
  · rw [h.pc_of_ne hn] at ht
    exact inv.targets c t ht

private theorem nodeMove_decided {c : DAGNode} (hc : c ∈ E.dag.nodes) (htype : c.taskType = "condition")
    (hin : c.taskId ∈ s'.completed) : Decided E handler input s' c := by
  by_cases hn : c.taskId = node.taskId
  · obtain rfl : node = c := by
      have hself := E.dag.getTask_of_mem hc
      rw [hn, hnode, Except.ok.injEq] at hself
      exact hself
    by_cases hbefore : node.taskId ∈ s.completed
    · rcases inv.decided node hc htype hbefore with ⟨e, he⟩ | ⟨o, toSkip, hmeans, hskips, hall⟩
      · exact absurd he (h.not_raised e)
      · by_cases hraised : ∃ e, s'.pc node.taskId = .raised e
        · exact Or.inl hraised
        · refine Or.inr ⟨o, toSkip, hmeans, hskips, fun t ht => ?_⟩
          rcases hall t ht with h' | h'
          · exact Or.inl (h.skipped_mono h')
          · exact (h.marks h').imp_right fun h' => h'.resolve_right hraised
    · rcases h.publishes_condition htype hbefore hin with he | ⟨te, row, toSkip, hpc, hrow, hskips, hpc'⟩
      · exact Or.inl he
      · refine Or.inr ⟨_, toSkip, inv.finished hmarked hnode hpc hrow, hskips, fun t ht => Or.inr ?_⟩
        rw [hpc']
        exact ht
  · exact (inv.decided c hc htype ((h.completed_of_ne hn).mp hin)).congr (h.pc_of_ne hn) h.skipped_mono

omit hmarked in
/-- Every move keeps the coroutines heading for the verdicts from what is published. -/
theorem nodeMove_heading {other : DAGNode} (hother : E.dag.getTask other.taskId = .ok other)
    (hpc : s'.pc other.taskId ≠ .done) (hc : other.taskId ∉ s'.completed) : Heading E handler input s' other := by
  have hactive := h.active_before hpc
  have hbefore : other.taskId ∉ s.completed := fun hin => hc (h.completed_mono hin)
  have hl := inv.heading other hother hactive hbefore
  obtain ⟨hunmarked, hdone⟩ := inv.apart _ hactive
  have hpreds : ∀ p ∈ E.dag.predecessors other.taskId,
      s'.taskOutputs.get? (.str p) = s.taskOutputs.get? (.str p) := fun p hp =>
    h.taskOutputs_of_ne fun heq => h.pc_ne_done (heq ▸ hdone p hp)
  have hg := inv.ordered.idle.gathers h.pc_ne_done
  rw [Heading, taskInput_congr hpreds, verdict_congr hpreds]
  by_cases hn : other.taskId = node.taskId
  · obtain rfl : node = other := by
      rw [hn, hnode, Except.ok.injEq] at hother
      exact hother
    refine hl.own_before_branches h (starts_verdict hnode _) ?_ (inv.live hg) hunmarked (fun _ => hc)
      inv.ordered.located.agrees
    rw [inv.data.1]
    rfl
  · refine hl.congr (h.pc_of_ne hn) ?_ ?_ (h.calls_of_ne hn) (h.completed_of_ne hn) (h.taskOutputs_of_ne hn)
      h.failed_mono
    · intro te w hrow hw
      obtain ⟨w', hw', hid⟩ := inv.ordered.located.own _ _ hrow
      rw [hw] at hw'
      cases hw'
      exact h.works_of_ne inv.ordered.located hw (by rw [hid]; exact hn)
    · intro hin
      rcases h.ids_cases inv.ordered.located.agrees hin with hin | ⟨heq, _⟩ | ⟨toSkip, hbranching⟩
      · exact hin
      · exact absurd heq hn
      · exact absurd (inv.marking _ _ _ hbranching) hunmarked

/-- An exception comes of a task that fails, or of an output that does not tell the branches. -/
theorem nodeMove_raised {e : PyError} (hpc : s'.pc node.taskId = .raised e) :
    E.reading.branchLock = false ∨ Breaks E handler input node.taskId := by
  have hactive := h.pc_ne_done
  have heading := fun hc => inv.nodeMove_heading hnode h hnode (by simp [hpc]) hc
  cases h
  case branchThrow te row e hfinishing hrow htype h =>
    cases h with
    | arity h => exact Or.inl h
    | output h =>
      exact Or.inr (Or.inr ⟨node, (E.dag.getTask_ok hnode).1, rfl, htype, _, _,
        inv.finished hmarked hnode hfinishing hrow, h⟩)
  case throw e' h =>
    by_cases hb : (s.pc node.taskId).Branches
    · cases h with
      | target hcreating h =>
        have hknown := inv.settled.skipped (inv.marking _ _ _ hcreating)
        obtain ⟨target, htarget⟩ := E.dag.exists_getTask (E.dag.mem_allTaskIds.mp hknown)
        rw [h] at htarget
        cases htarget
      | _ => simp_all [NodePc.Branches]
    · have hopen : (s.pc node.taskId).Open := by
        cases h with
        | target hcreating h => exact absurd (by rw [hcreating]; trivial) hb
        | _ => simp_all [NodePc.Open]
      have hl := heading (inv.ordered.unpublished _ hopen)
      obtain ⟨output, hpreds, hfed⟩ := inv.fed hmarked hactive
      exact Or.inr (Or.inl ⟨E.dag.mem_allTaskIds.mpr (E.dag.mem_nodes_of_getTask hnode), output, _, hpreds, hfed,
        Verdict.succeeds_of_isRaise (hl.of_raised hpc)⟩)
  case answer outcome _ _ _ _ => cases hok : outcome.ok <;> simp [hok] at hpc
  all_goals simp at hpc

private theorem nodeMove : Meant E handler input s' where
  ordered := inv.ordered.nodeMove h
  unrecorded := inv.unrecorded.nodeMove h
  settled := inv.settled.nodeMove (List.mem_toFinset.mpr (List.mem_map_of_mem (E.dag.getTask_ok hnode).1))
    (inv.settlesOnce hmarked s') h
  agrees := h.agreesOn TaskExecution.id_writable inv.agrees
  data := by
    refine ⟨?_, h.execution ▸ inv.data.2⟩
    rcases h.mem_execution with hm | hm
    · exact hm ▸ inv.data.1
    · exact hm ▸ inv.data.2
  values := fun t => inv.nodeMove_values hmarked hnode h
  skips := by
    intro t ht
    rcases h.skipped with hs | ⟨sid, toSkip, hpc, _, hs⟩
    · exact inv.skips t (hs ▸ ht)
    · rw [hs] at ht
      rcases Finset.mem_insert.mp ht with rfl | ht
      · exact (inv.targets node.taskId t (by rw [hpc]; exact List.mem_cons_self)).2
      · exact inv.skips t ht
  fails := by
    intro hf
    rcases h.failed_iff.mp hf with hf | ⟨te, hpc⟩
    · exact inv.fails hf
    · exact ⟨_, inv.given_up hmarked hnode hpc⟩
  decided := fun c => inv.nodeMove_decided hmarked hnode h
  targets := fun c t => inv.nodeMove_targets hmarked hnode h
  marking := by
    intro c sid toSkip hpc
    by_cases hn : c = node.taskId
    · subst hn
      exact h.marked_before_row hpc
    · rw [h.pc_of_ne hn] at hpc
      exact h.skipped_mono (inv.marking c sid toSkip hpc)
  branches := by
    intro c hb
    by_cases hn : c = node.taskId
    · subst hn
      exact (h.branches_after hb).elim (fun hb => h.completed_mono (inv.branches _ hb)) id
    · rw [h.pc_of_ne hn] at hb
      exact h.completed_mono (inv.branches c hb)
  raised := by
    intro c e hpc
    by_cases hn : c = node.taskId
    · subst hn
      exact inv.nodeMove_raised hmarked hnode h hpc
    · rw [h.pc_of_ne hn] at hpc
      exact inv.raised c e hpc
  behind := h.main ▸ inv.behind
  creating := fun sid sids hmain => h.skipped_mono (inv.creating sid sids (h.main ▸ hmain))
  ids := fun t => inv.nodeMove_ids h
  called := fun t => inv.nodeMove_called h
  apart := fun t => inv.nodeMove_apart h
  heading := fun other => inv.nodeMove_heading hnode h

end Coroutine

/-! ### The body -/

private theorem mainMove_data (h : MainMove E s s') :
    s'.mem.execution.inputData = input ∧ s'.db.execution.inputData = input := by
  obtain ⟨hmem, hdb⟩ := inv.data
  have hsaved {ex : WorkflowExecution} (hex : ex.inputData = input) :
      (s.saveExecution ex).mem.execution.inputData = input ∧
        (s.saveExecution ex).db.execution.inputData = input := by
    simp [WorkflowExecution.writeBack, hmem, hdb, hex]
  cases h
  case start => exact hsaved hmem
  case recordFailure => exact hsaved hmem
  case load =>
    obtain ⟨_, _, _, h⟩ := foldl_loadRow s.mem.tasks s
    rw [h]
    exact ⟨hmem, hdb⟩
  case complete now ex _ _ _ h =>
    cases htransition : s.mem.execution.status.transitionTo .completed with
    | error e =>
      rw [WorkflowExecution.complete, htransition] at h
      cases h
    | ok status =>
      rw [WorkflowExecution.complete, htransition] at h
      cases h
      exact hsaved hmem
  all_goals simp [hmem, hdb]

/-- A move of the body that hands out no wave and loads nothing. -/
private theorem pass (hmarked : ∀ t, MarkedByPredecessors E t) (h : MainMove E s s')
    (hcompleted : s'.completed = s.completed ∧ s'.taskOutputs = s.taskOutputs) (hpc : s'.pc = s.pc)
    (hskipped : s.skipped ⊆ s'.skipped)
    (hskips : ∀ t ∈ s'.skipped, t ∈ s.skipped ∨ s.main.gathers = false ∧ Means E handler input t .skipped)
    (hbehind : ∀ t ∈ s'.main.marks, Means E handler input t .skipped)
    (hcreating : ∀ sid sids, s'.main = .skipCreating sid sids → sid ∈ s'.skipped)
    (hids : ∀ t ∈ s'.ids, t ∈ s.ids ∨ t ∈ s'.skipped)
    (hcalled : ∀ t, s.calls t ≠ 0 → t ∈ s'.ids) : Meant E handler input s' := by
  obtain ⟨hc, ho⟩ := hcompleted
  have hcalls (t : TaskId) : s'.calls t = s.calls t := by rw [RunState.calls, h.trace]; rfl
  have hunmarked {t : TaskId} (ht : s'.pc t ≠ .done) : t ∉ s'.skipped := by
    rw [hpc] at ht
    intro hin
    rcases hskips t hin with hin | ⟨hg, _⟩
    · exact (inv.apart t ht).1 hin
    · exact ht (inv.ordered.idle.between hg t)
  refine ⟨inv.ordered.mainMove h, inv.unrecorded.mainMove h,
    inv.settled.mainMove (inv.settlesOnce hmarked s') h, h.agreesOn TaskExecution.id_writable inv.agrees,
    inv.mainMove_data h, ?_, ?_, ?_, ?_, ?_, ?_, ?_, ?_, hbehind, hcreating, ?_, ?_, ?_, ?_⟩
  · rw [hc, ho]
    exact inv.values
  · exact fun t ht => (hskips t ht).elim (inv.skips t) And.right
  · rw [h.failed]
    exact inv.fails
  · intro c hin htype hdone
    exact (inv.decided c hin htype (hc ▸ hdone)).congr (congrFun hpc _) hskipped
  · rw [hpc]
    exact inv.targets
  · rw [hpc]
    exact fun c sid toSkip hcreate => hskipped (inv.marking c sid toSkip hcreate)
  · rw [hpc, hc]
    exact inv.branches
  · rw [hpc]
    exact inv.raised
  · intro t ht
    rw [hc, hpc, h.failed]
    rcases hids t ht with ht | ht
    · exact (inv.ids t ht).imp_right fun h => h.imp_left fun h => hskipped h
    · exact Or.inr (Or.inl ht)
  · exact fun t ht => hcalled t (hcalls t ▸ ht)
  · intro t ht
    refine ⟨hunmarked ht, ?_⟩
    rw [hpc] at ht ⊢
    exact (inv.apart t ht).2
  · intro node hnode ht hnew
    have hactive : s.pc node.taskId ≠ .done := hpc ▸ ht
    have hg := inv.ordered.idle.gathers hactive
    have hl := inv.heading node hnode hactive (hc ▸ hnew)
    rw [Heading, ho]
    refine hl.congr (congrFun hpc _) (fun te w _ hw => h.works inv.ordered.located.agrees ?_ hw) ?_ (hcalls _)
      (by rw [hc]) (by rw [ho]) (by rw [h.failed]; exact id)
    · intro hlookup
      rw [hlookup] at hg
      cases hg
    · exact fun hin => (hids _ hin).resolve_right (hunmarked ht)

/-- A new wave: nothing has been tried for its tasks. -/
private theorem gather (hmarked : ∀ t, MarkedByPredecessors E t) (h : MainMove E s s')
    (hmain : s.main = .skipping []) (hgathering : s'.main = .gathering)
    (hpc : s'.pc = fun t => if t ∈ E.dag.readyIds s.completed s.skipped then .waiting else .done)
    (hskipped : s'.skipped = s.skipped) (hmem : s'.mem = s.mem) : Meant E handler input s' := by
  obtain ⟨hc, ho⟩ := h.completed (by simp [hmain])
  have hcalls (t : TaskId) : s'.calls t = s.calls t := by rw [RunState.calls, h.trace]; rfl
  have hidle (t : TaskId) : s.pc t = .done := inv.ordered.idle.between (by rw [hmain]; rfl) t
  have hwaiting (t : TaskId) : s'.pc t = .waiting ∧ t ∈ E.dag.readyIds s.completed s.skipped ∨ s'.pc t = .done := by
    rw [hpc]
    by_cases ht : t ∈ E.dag.readyIds s.completed s.skipped
    · exact Or.inl ⟨if_pos ht, ht⟩
    · exact Or.inr (if_neg ht)
  have hunfailed : s.failed = false := by
    by_contra hf
    rcases inv.unrecorded.flag (by simpa using hf) with h | h | h | ⟨e, h⟩ <;> rw [hmain] at h <;> cases h
  refine ⟨inv.ordered.mainMove h, inv.unrecorded.mainMove h,
    inv.settled.mainMove (inv.settlesOnce hmarked s') h, h.agreesOn TaskExecution.id_writable inv.agrees,
    inv.mainMove_data h, ?_, ?_, ?_, ?_, ?_, ?_, ?_, ?_, ?_, ?_, ?_, ?_, ?_, ?_⟩
  · rw [hc, ho]
    exact inv.values
  · rw [hskipped]
    exact inv.skips
  · rw [h.failed]
    exact inv.fails
  · intro c hin htype hdone
    rcases inv.decided c hin htype (hc ▸ hdone) with ⟨e, he⟩ | ⟨o, toSkip, hmeans, hskips, hall⟩
    · rw [hidle] at he
      cases he
    · refine Or.inr ⟨o, toSkip, hmeans, hskips, fun t ht => Or.inl ?_⟩
      have hmark := hall t ht
      rw [hidle] at hmark
      rw [hskipped]
      exact hmark.resolve_right List.not_mem_nil
  · intro c t ht
    rcases hwaiting c with ⟨h, _⟩ | h <;> rw [h] at ht <;> cases ht
  · intro c sid toSkip hcreate
    rcases hwaiting c with ⟨h, _⟩ | h <;> rw [h] at hcreate <;> cases hcreate
  · intro c hb
    rcases hwaiting c with ⟨h, _⟩ | h <;> rw [h] at hb <;> exact hb.elim
  · intro c e hraised
    rcases hwaiting c with ⟨h, _⟩ | h <;> rw [h] at hraised <;> cases hraised
  · rw [hgathering]
    exact fun t ht => absurd ht List.not_mem_nil
  · intro sid sids hcreate
    rw [hgathering] at hcreate
    cases hcreate
  · intro t ht
    rw [RunState.ids, hmem] at ht
    rw [hc, hskipped]
    rcases inv.ids t ht with h | h | h | h
    · exact Or.inl h
    · exact Or.inr (Or.inl h)
    · exact absurd (hidle t) h
    · rw [hunfailed] at h
      cases h
  · intro t ht
    rw [RunState.ids, hmem]
    exact inv.called t (hcalls t ▸ ht)
  · intro t ht
    rcases hwaiting t with ⟨_, hready⟩ | hdone
    · obtain ⟨_, _, hnew, _, hpreds⟩ := E.dag.mem_readyIds.mp hready
      refine ⟨hskipped ▸ hnew, fun c hpred => ?_⟩
      refine (hwaiting c).resolve_left fun hwait => ?_
      exact (E.dag.mem_readyIds.mp hwait.2).2.1 (hpreds c hpred)
    · exact absurd hdone ht
  · intro node _ ht _
    rcases hwaiting node.taskId with ⟨hwait, hready⟩ | hdone
    · obtain ⟨_, hnew, hunmarked, _⟩ := E.dag.mem_readyIds.mp hready
      have hrow : node.taskId ∉ s.ids := by
        intro hin
        rcases inv.ids _ hin with h | h | h | h
        · exact hnew h
        · exact hunmarked h
        · exact h (hidle _)
        · rw [hunfailed] at h
          cases h
      refine .untried (by rw [hwait]; trivial) ?_ ?_ (hc ▸ hnew) (ho ▸ inv.ordered.absent _ hnew)
      · rw [RunState.ids, hmem]
        exact hrow
      · rw [hcalls]
        by_contra hcalled
        exact hrow (inv.called _ hcalled)
    · exact absurd hdone ht

private theorem mainMove (hmarked : ∀ t, MarkedByPredecessors E t) (h : MainMove E s s') :
    Meant E handler input s' := by
  have hmove := h
  have hnone : ∀ t ∈ ([] : List TaskId), Means E handler input t .skipped := fun t ht => absurd ht List.not_mem_nil
  have hrefreshed : s.refreshed.ids = s.ids := RunState.ids_refreshed inv.ordered.located.agrees
  have hmark {sid : TaskId} {sids : List TaskId} (hmain : s.main = .skipping (sid :: sids)) :
      ∀ t ∈ insert sid s.skipped, t ∈ s.skipped ∨ s.main.gathers = false ∧ Means E handler input t .skipped := by
    intro t ht
    rcases Finset.mem_insert.mp ht with rfl | ht
    · exact Or.inr ⟨by rw [hmain]; rfl, inv.behind t (by rw [hmain]; exact List.mem_cons_self)⟩
    · exact Or.inl ht
  cases h
  case lookup hmain =>
    obtain ⟨_, _, htrace⟩ := inv.ordered.fresh (Or.inl hmain)
    refine inv.pass hmarked hmove ⟨rfl, rfl⟩ rfl subset_rfl (fun _ => Or.inl) hnone (by simp) ?_ ?_
    · intro t ht
      rw [RunState.ids, inv.ordered.stored hmain] at ht
      cases ht
    · intro t ht
      simp [RunState.calls, htrace] at ht
  case load hmain =>
    have hload : s.mem.tasks.foldl loadRow s = s := by rw [inv.ordered.loaded (Or.inr hmain)]; rfl
    rw [hload] at hmove ⊢
    exact inv.pass hmarked hmove ⟨rfl, rfl⟩ rfl subset_rfl (fun _ => Or.inl) hnone (by simp) (fun _ => Or.inl)
      inv.called
  case iterate | exit | settled | gatheredFailed =>
    exact inv.pass hmarked hmove ⟨rfl, rfl⟩ rfl subset_rfl (fun _ => Or.inl) hnone (by simp)
      (fun t ht => Or.inl (hrefreshed ▸ ht)) (fun t ht => hrefreshed.symm ▸ inv.called t ht)
  case propagateSkips =>
    refine inv.pass hmarked hmove ⟨rfl, rfl⟩ rfl subset_rfl (fun _ => Or.inl) (fun t ht => ?_) (by simp)
      (fun _ => Or.inl) inv.called
    obtain ⟨_, _, _, hne, hall⟩ := E.dag.mem_tasksWithAllPredecessorsSkipped.mp ht
    exact .behind hne fun p hp => inv.skips p (hall p hp)
  case skipFound now sid sids te hmain _ =>
    have hids := s.ids_saveTask te (f := (·.skip now)) (fun _ => rfl)
    exact inv.pass hmarked hmove ⟨rfl, rfl⟩ rfl (Finset.subset_insert _ _) (hmark hmain)
      (fun t ht => inv.behind t (by rw [hmain]; exact List.mem_cons_of_mem _ ht)) (by simp)
      (fun t ht => Or.inl (hids ▸ ht)) (fun t ht => hids.symm ▸ inv.called t ht)
  case skipMissing sid sids hmain _ =>
    refine inv.pass hmarked hmove ⟨rfl, rfl⟩ rfl (Finset.subset_insert _ _) (hmark hmain)
      (fun t ht => inv.behind t (by rw [hmain]; exact List.mem_cons_of_mem _ ht)) ?_ (fun _ => Or.inl) inv.called
    rintro sid' sids' ⟨⟩
    exact Finset.mem_insert_self _ _
  case skipCreate now sid sids target hmain htarget =>
    have hids : ((s.flush (.new E.settings target)).saveTask s.mem.tasks.length (·.skip now)).ids =
        s.ids ++ [sid] := by
      rw [RunState.ids_saveTask _ _ (f := (·.skip now)) (fun _ => rfl), ← (E.dag.getTask_ok htarget).2]
      simp [RunState.ids, TaskExecution.new]
    refine inv.pass hmarked hmove ⟨rfl, rfl⟩ rfl subset_rfl (fun _ => Or.inl)
      (fun t ht => inv.behind t (by rw [hmain]; exact ht)) (by simp) (fun t ht => ?_) (fun t ht => ?_)
    · have ht : t ∈ s.ids ++ [sid] := hids ▸ ht
      rcases List.mem_append.mp ht with ht | ht
      · exact Or.inl ht
      · rw [List.mem_singleton.mp ht]
        exact Or.inr (inv.creating sid sids hmain)
    · exact (hids.symm ▸ List.mem_append_left _ (inv.called t ht) :
        t ∈ ((s.flush (.new E.settings target)).saveTask s.mem.tasks.length (·.skip now)).ids)
  case gather hmain _ => exact inv.gather hmarked hmove hmain rfl rfl rfl rfl
  all_goals
    exact inv.pass hmarked hmove ⟨rfl, rfl⟩ rfl subset_rfl (fun _ => Or.inl) hnone (by simp) (fun _ => Or.inl)
      inv.called

theorem step (hmarked : ∀ t, MarkedByPredecessors E t) (h : Step E handler.answers s s') :
    Meant E handler input s' := by
  rcases step_cases h with h | ⟨node, hnode, h⟩
  · exact inv.mainMove hmarked h
  · exact inv.nodeMove hmarked hnode h

/-- Up to its end, the execution is running as far as the session can see. -/
theorem running (hmain : s.main = .checking ∨ s.main = .final) : s.mem.execution.status = .running := by
  have hplace : s.main ≠ .lookup ∧ s.main ≠ .loaded ∧ s.main ≠ .returned := by
    rcases hmain with h | h <;> simp [h]
  rw [inv.unrecorded.current hplace.1]
  rcases inv.unrecorded.unended hplace.1 hplace.2.1 with h | ⟨h, _⟩
  · exact h.1
  · exact absurd h hplace.2.2

/-- The tasks that are marked are tasks of the DAG. -/
theorem known (ht : t ∈ s.skipped) : ∃ target, E.dag.getTask t = .ok target :=
  E.dag.exists_getTask (E.dag.mem_allTaskIds.mp (inv.settled.skipped ht))

/-- Between two waves, the marks of every condition that has completed are in place. -/
theorem decided_between (hidle : ∀ t, s.pc t = .done) {c : DAGNode} (hc : c ∈ E.dag.nodes)
    (htype : c.taskType = "condition") (hin : c.taskId ∈ s.completed) :
    ∃ o toSkip, Means E handler input c.taskId (.completed o) ∧
      branchSkips E.strOf E.dag c o = .ok toSkip ∧ ∀ t ∈ toSkip, t ∈ s.skipped := by
  rcases inv.decided c hc htype hin with ⟨e, h⟩ | ⟨o, toSkip, hmeans, hskips, hall⟩
  · rw [hidle] at h
    cases h
  · refine ⟨o, toSkip, hmeans, hskips, fun t ht => (hall t ht).resolve_right ?_⟩
    rw [hidle]
    exact List.not_mem_nil

end Meant

end BackendProjects.Workflow
