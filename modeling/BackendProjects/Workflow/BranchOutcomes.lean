import BackendProjects.Workflow.BranchProgress
import BackendProjects.Workflow.BranchRuns

/-! What runs of workflows with branches come to: whatever the interleaving, a task comes to nothing but its
fate, and one run that completes decides all of them. -/
namespace BackendProjects.Workflow
open Library
variable {E : Engine} {handler : Handler} {input : Option PyDict} {s s' : RunState} {node : DAGNode} {t : TaskId}

/-! ### The end of a run -/

/-- A running execution is completed with the outputs of its tasks. -/
private theorem WorkflowExecution.complete_of_running {ex : WorkflowExecution}
    (h : ex.status = .running) (now : Time)
    (taskOutputs : PyDict) : ∃ new, ex.complete now taskOutputs = .ok new ∧ new.status = .completed ∧
      new.outputData = .dict [(.str "tasks", .dict taskOutputs)] := by
  have hnext : ex.status.transitionTo .completed = .ok .completed := by
    rw [h]
    rfl
  rw [WorkflowExecution.complete, hnext]
  exact ⟨_, rfl, rfl, rfl⟩

structure Concluded (E : Engine) (s : RunState) : Prop where
  crash : ∀ e, s.main = .raised e →
    (∃ t e, s.pc t = .raised e) ∨ E.reading.lock = false ∨ E.reading.allSkipped = false
  returned : s.main = .returned → s.failed = true ∨ s.db.execution.status = .completed
  stored : s.db.execution.status = .completed → s.main = .returned ∧
    E.dag.nodes.length ≤ s.completed.card + s.skipped.card ∧
      s.db.execution.outputData = .dict [(.str "tasks", .dict s.taskOutputs)]

namespace Concluded
variable (con : Concluded E s) (inv : Meant E handler input s)
include con inv

private theorem nodeMove (h : NodeMove E handler.answers node s s') : Concluded E s' := by
  have hg := inv.ordered.idle.gathers h.pc_ne_done
  have hreturned : s.main ≠ .returned := by
    intro hmain
    rw [hmain] at hg
    cases hg
  refine ⟨fun e hmain => ?_, fun hmain => absurd (h.main ▸ hmain) hreturned, fun hstored => ?_⟩
  · refine (con.crash e (h.main ▸ hmain)).imp_left fun ⟨t, e', hpc⟩ => ⟨t, e', ?_⟩
    rw [h.pc_of_ne (fun heq => h.not_raised e' (heq ▸ hpc))]
    exact hpc
  · exact absurd (con.stored (h.execution ▸ hstored)).1 hreturned

omit con in
private theorem mainMove (inv' : Meant E handler input s') (h : MainMove E s s') : Concluded E s' := by
  have hlive {P : Prop} (hmain : s.main = .checking ∨ s.main = .final)
      (hcancelled : s.mem.execution.status = .cancelled) : P := by
    rw [inv.running hmain] at hcancelled
    cases hcancelled
  refine ⟨fun e hmain => ?_, fun hmain => ?_, fun hstored => ?_⟩
  · cases h
    case noLock h => exact Or.inr (Or.inl h)
    case noMethod h => exact Or.inr (Or.inr h)
    case skipThrow hcreating h =>
      obtain ⟨target, htarget⟩ := inv.known (inv.creating _ _ hcreating)
      rw [h] at htarget
      cases htarget
    case completeThrow now e hfinal _ _ h =>
      obtain ⟨new, hnew, _⟩ := WorkflowExecution.complete_of_running (inv.running (Or.inr hfinal)) now s.taskOutputs
      rw [h] at hnew
      cases hnew
    case propagate t e hgathering hwave hpc => exact Or.inl ⟨t, e, hpc⟩
    case load => cases hmain
    all_goals simp at hmain
  · cases h
    case cancelled hchecking h => exact hlive (Or.inl hchecking) h
    case recordFailure hfailed => exact Or.inl hfailed
    case finalCancelled hfinal h => exact hlive (Or.inr hfinal) h
    case finalFailed hfailed => exact Or.inl hfailed
    case complete now ex hfinal _ _ h =>
      obtain ⟨new, hnew, hstatus, _⟩ :=
        WorkflowExecution.complete_of_running (inv.running (Or.inr hfinal)) now s.taskOutputs
      rw [h] at hnew
      cases hnew
      have hsaved := RunState.saveExecution_execution (inv.unrecorded.current (by simp [hfinal])) ex
      exact Or.inr ((congrArg (·.status) hsaved).trans hstatus)
    case load => cases hmain
    all_goals simp at hmain
  · have hend : s'.main = .returned ∧ s'.failed = false := by
      have hplace : s'.main ≠ .lookup ∧ s'.main ≠ .loaded := by
        constructor <;> intro hmain
        · have hpending := (inv'.unrecorded.pending (Or.inl hmain)).1
          rw [hstored] at hpending
          cases hpending
        · have hpending := (inv'.unrecorded.pending (Or.inr hmain)).1
          rw [hstored] at hpending
          cases hpending
      rcases inv'.unrecorded.unended hplace.1 hplace.2 with h | h
      · have hrunning := h.1
        rw [hstored] at hrunning
        cases hrunning
      · exact h
    obtain ⟨hmain, hunfailed⟩ := hend
    refine ⟨hmain, ?_⟩
    cases h
    case cancelled hchecking h => exact hlive (Or.inl hchecking) h
    case recordFailure hfailed =>
      rw [show s.failed = false from hunfailed] at hfailed
      cases hfailed
    case finalCancelled hfinal h => exact hlive (Or.inr hfinal) h
    case finalFailed hfailed =>
      rw [show s.failed = false from hunfailed] at hfailed
      cases hfailed
    case complete now ex hfinal _ hfailed h =>
      have hcurrent := inv.unrecorded.current (by simp [hfinal])
      obtain ⟨new, hnew, _, houtput⟩ :=
        WorkflowExecution.complete_of_running (inv.running (Or.inr hfinal)) now s.taskOutputs
      rw [h] at hnew
      cases hnew
      have hsaved := RunState.saveExecution_execution hcurrent ex
      exact ⟨inv.settled.final hfinal hfailed, (congrArg (·.outputData) hsaved).trans houtput⟩
    case load => cases hmain
    all_goals simp at hmain

end Concluded

private theorem Concluded.start (E : Engine) (input : Option PyDict) : Concluded E
    (.start E (freshRows input)) where
  crash := fun _ h => by cases h
  returned := fun h => by cases h
  stored := fun h => by cases h

theorem Leads.concluded (hmarked : ∀ t, MarkedByPredecessors E t) (run : Leads E handler input s) :
    Meant E handler input s ∧ Concluded E s := by
  have step : ∀ s s', Meant E handler input s ∧ Concluded E s → Step E handler.answers s s' →
      Meant E handler input s' ∧ Concluded E s' := by
    rintro s s' ⟨inv, con⟩ h
    refine ⟨inv.step hmarked h, ?_⟩
    rcases step_cases h with hmove | ⟨node, _, hmove⟩
    · exact .mainMove inv (inv.step hmarked h) hmove
    · exact con.nodeMove inv hmove
  exact run.invariant step ⟨.start E handler input, .start E input⟩

/-! ### What runs come to -/

/-- Where every task has a fate, no join of a skipped and a completed branch is left waiting. -/
private theorem Meant.unmixed (inv : Meant E handler input s) (hmarked : ∀ t, MarkedByPredecessors E t)
    (hfates : ∀ t ∈ E.dag.allTaskIds, ∃ fate, Means E handler input t fate) (hidle : ∀ t, s.pc t = .done)
    (t : TaskId) : ¬ MixedJoin E.dag s.completed s.skipped t := by
  rintro ⟨hnode, _, hunmarked, hpreds, ⟨p, hp, hskipped⟩, q, hq, hunskipped⟩
  have hcompleted {c : TaskId} {o : PyValue} (hc : c ∈ E.dag.predecessors t)
      (hmeans : Means E handler input c (.completed o)) : c ∈ s.completed := by
    refine (hpreds c hc).resolve_right fun hin => ?_
    cases hmeans.unique hmarked (inv.skips c hin)
  obtain ⟨fate, hmeans⟩ := hfates t (E.dag.mem_allTaskIds.mpr hnode)
  cases hmeans with
  | completes hall => cases (hall p hp).unique hmarked (inv.skips p hskipped)
  | @marked _ c o toSkip hc htype hmeans hskips ht =>
    have hin := hcompleted (hmarked t c hc htype o toSkip hskips ht) hmeans
    obtain ⟨o', toSkip', hmeans', hskips', hmarks⟩ := inv.decided_between hidle hc htype hin
    have hsame := hmeans'.unique hmarked hmeans
    rw [Fate.completed.injEq] at hsame
    rw [← hsame, hskips, Except.ok.injEq] at hskips'
    exact hunmarked (hmarks t (hskips' ▸ ht))
  | behind _ hall =>
    obtain ⟨o, hmeans, _⟩ := inv.values q ((hpreds q hq).resolve_right hunskipped)
    cases hmeans.unique hmarked (hall q hq)

/-- Every task has a fate, and what a condition comes to tells its branches. -/
structure Determined (E : Engine) (handler : Handler) (input : Option PyDict) : Prop where
  fates : ∀ t ∈ E.dag.allTaskIds, ∃ fate, Means E handler input t fate
  branches : ∀ c ∈ E.dag.nodes, c.taskType = "condition" → ∀ o, Means E handler input c.taskId (.completed o) →
    ∃ toSkip, branchSkips E.strOf E.dag c o = .ok toSkip

namespace Determined
variable (det : Determined E handler input) (hmarked : ∀ t, MarkedByPredecessors E t)
  (inv : Meant E handler input s)
include det hmarked

private theorem not_fails (t : TaskId) : ¬ Fails E handler input t := by
  intro hf
  obtain ⟨fate, hmeans⟩ := det.fates t hf.1
  exact hf.not_means hmarked hmeans

private theorem not_breaks (t : TaskId) : ¬ Breaks E handler input t := by
  rintro (h | ⟨c, hc, rfl, htype, o, e, hmeans, herror⟩)
  · exact det.not_fails hmarked t h
  · obtain ⟨toSkip, hok⟩ := det.branches c hc htype o hmeans
    rw [herror] at hok
    cases hok

include inv

theorem unfailed : s.failed = false := by
  by_contra hf
  obtain ⟨t, h⟩ := inv.fails (by simpa using hf)
  exact det.not_fails hmarked t h

theorem not_raised (con : Concluded E s) (hlock : E.reading.lock = true) (hskips : E.reading.allSkipped = true)
    (hbranch : E.reading.branchLock = true) (e : PyError) : s.main ≠ .raised e := by
  intro he
  rcases con.crash e he with ⟨t, e', hpc⟩ | h | h
  · rcases inv.raised t e' hpc with h | h
    · simp [hbranch] at h
    · exact det.not_breaks hmarked t h
  · simp [hlock] at h
  · simp [hskips] at h

/-- No pass of the loop is stuck: some task is ready, or is to be skipped, or all are settled. -/
theorem goes_on (hidle : ∀ t, s.pc t = .done) : E.dag.readyIds s.completed s.skipped ≠ [] ∨
    E.dag.tasksWithAllPredecessorsSkipped s.completed s.skipped ≠ [] ∨
      ∀ t ∈ E.dag.allTaskIds, t ∈ s.completed ∨ t ∈ s.skipped :=
  ready_or_skippable_or_settled (inv.unmixed hmarked det.fates hidle)

end Determined

end BackendProjects.Workflow
