import BackendProjects.Workflow.BranchProgress
import BackendProjects.Workflow.CancelledRuns
import BackendProjects.Workflow.Coverage
import BackendProjects.Workflow.DependencyOrder
import BackendProjects.Workflow.SettledRows

/-! The whole life of an execution: one call of `execute_workflow` after the other, each with the definition
that is stored at the time and each cut off anywhere, with cancels in between and beside them, and with retries.
What has succeeded is settled for good, and every value that is handed on comes from one success. -/
namespace BackendProjects.Workflow
open Library

/-- A step of a call, or a cancel beside it. A cancel before the lookup of the rows is one before the call. -/
inductive Beside (E : Engine) (answers : Answers) : RunState → RunState → Prop
  | own {s s' : RunState} (h : Step E answers s s') : Beside E answers s s'
  | cancel (now : Time) {s : RunState} {loaded : Database} (hmain : s.main ≠ .lookup)
      (h : loaded.StillOpen s.db) :
      Beside E answers s { s with db := loaded.commit (loaded.cancelExecution now) s.db }

variable {E : Engine} {answers : Answers} {s s' : RunState} {node : DAGNode} {t : TaskId} {v : PyValue}
  {rows : List TaskExecution} {te o n c : TaskExecution} {strOf : PyValue → String}
  {trace : List HandlerEvent} {i : Nat} {db db' loaded : Database}

/-! ### One call -/

/-- A recorded value comes from a completed row that the call has found, or from the one success in the call. -/
def Origin (rows : List TaskExecution) (strOf : PyValue → String) (trace : List HandlerEvent) (t : TaskId)
    (v : PyValue) : Prop :=
  (∃ te ∈ rows, te.status = .completed ∧ te.taskDefinitionId = t ∧ te.outputData = v) ∨
    successes strOf trace t = [v]

def TaskExecution.Sourced (te : TaskExecution) (rows : List TaskExecution) (strOf : PyValue → String)
    (trace : List HandlerEvent) : Prop :=
  te.status = .completed → Origin rows strOf trace te.taskDefinitionId te.outputData

def Given (rows : List TaskExecution) (strOf : PyValue → String) (trace : List HandlerEvent)
    (event : HandlerEvent) : Prop :=
  ∀ (u : TaskId) (k : Nat) (input d : PyDict) (t : TaskId) (v : PyValue), event = .started u k input →
    input.get? (.str "tasks") = some (.dict d) → d.get? (.str t) = some v → Origin rows strOf trace t v

/-- What a call keeps whose rows were these at the lookup, with this output of the execution. -/
structure Traced (E : Engine) (rows : List TaskExecution) (output : PyValue) (s : RunState) : Prop where
  ordered : Ordered E rows s
  passed : ∀ t, SettledIn rows t → s.main ≠ .lookup → s.main ≠ .loaded → s.main ≠ .starting →
    t ∈ s.completed ∨ t ∈ s.skipped
  barred : ∀ t, SettledIn rows t → ¬ (s.pc t).Admitted
  silent : ∀ t, SettledIn rows t → successes E.strOf s.trace t = [] ∧ ∀ e ∈ s.trace, e.starts t = false
  kept : ∀ t, SettledIn rows t ∨ successes E.strOf s.trace t ≠ [] → SettledIn s.db.tasks t
  stored : ∀ te ∈ s.db.tasks, te.Sourced rows E.strOf s.trace
  held : ∀ te ∈ s.mem.tasks, te.Sourced rows E.strOf s.trace
  quiet : ∀ t, s.trace.Pairwise fun e e' => (e.success? E.strOf t).isSome → e'.starts t = false
  given : ∀ e ∈ s.trace, Given rows E.strOf s.trace e
  reported : s.db.execution.outputData = output ∨
    ∃ d : PyDict, s.db.execution.outputData = .dict [(.str "tasks", .dict d)] ∧
      ∀ t v, d.get? (.str t) = some v → Origin rows E.strOf s.trace t v

private theorem Traced.start (E : Engine) (db : Database) :
    Traced E db.tasks db.execution.outputData (.start E db) where
  ordered := .start E db
  passed := fun _ _ h => absurd rfl h
  barred := fun _ _ h => h
  silent := fun _ _ => ⟨rfl, fun _ h => absurd h List.not_mem_nil⟩
  kept := fun _ h => h.elim id fun h => absurd rfl h
  stored := fun te hte hstatus => Or.inl ⟨te, hte, hstatus, rfl, rfl⟩
  held := fun te hte hstatus => Or.inl ⟨te, hte, hstatus, rfl, rfl⟩
  quiet := fun _ => .nil
  given := fun _ h => absurd h List.not_mem_nil
  reported := Or.inl rfl

variable {output : PyValue}

/-- What a task has returned in a call is the success that `Ordered` allows for. -/
private theorem Ordered.origin (inv : Ordered E rows s) (h : recordedOutput E.strOf rows s.trace t = some v) :
    Origin rows E.strOf s.trace t v := by
  rw [recordedOutput] at h
  split at h
  · next w hw =>
    split at h
    · cases h
      obtain ⟨before, hs⟩ := List.getLast?_eq_some_iff.mp hw
      have hlen := inv.once t
      rw [hs, List.length_append, List.length_singleton] at hlen
      obtain rfl : before = [] := List.length_eq_zero_iff.mp (by omega)
      exact Or.inr hs
    · cases h
  · obtain ⟨te, hte, rfl⟩ := Option.map_eq_some_iff.mp h
    have hp := List.find?_some hte
    rw [decide_eq_true_eq] at hp
    exact Or.inl ⟨te, List.mem_reverse.mp (List.mem_of_find?_eq_some hte), hp.2.1, hp.1, rfl⟩

private theorem NodePc.Admitted.open {pc : NodePc} (h : pc.Admitted) : pc.Open := by
  cases pc <;> trivial

/-- Before its answer, a coroutine's task has no success in this call. -/
private theorem Ordered.untried_of (inv : Ordered E rows s) (h : (s.pc t).Admitted)
    (hf : ∀ te, s.pc t ≠ .finishing te true) : successes E.strOf s.trace t = [] :=
  inv.untried t (inv.unpublished t h.open) hf

/-- A success is not followed by another one. -/
private theorem Ordered.success_stable (inv : Ordered E rows s) (h : NodeMove E answers node s s')
    (hs : successes E.strOf s.trace t ≠ []) : successes E.strOf s'.trace t = successes E.strOf s.trace t := by
  rcases h.success_cases with ⟨hsame, _⟩ | ⟨te, input, w, hpc, _⟩
  · exact hsame t
  · apply h.successes_of_ne
    rintro rfl
    exact hs (inv.untried_of (by rw [hpc]; trivial) (by simp [hpc]))

private theorem Origin.nodeMove (inv : Ordered E rows s) (h : NodeMove E answers node s s')
    (ho : Origin rows E.strOf s.trace t v) : Origin rows E.strOf s'.trace t v :=
  ho.imp_right fun hs => (inv.success_stable h (by simp [hs])).trans hs

private theorem HandlerEvent.of_starts {e : HandlerEvent} (h : e.starts t = true) :
    ∃ k input, e = .started t k input := by
  cases e with
  | started u k input =>
    obtain rfl : u = t := of_decide_eq_true h
    exact ⟨k, input, rfl⟩
  | returned => cases h
  | slept => cases h

/-- A move adds at most one event, and a call only where the coroutine stands before it. -/
private theorem NodeMove.trace_cases (h : NodeMove E answers node s s') : ∃ events, s'.trace = s.trace ++ events ∧
    events.length ≤ 1 ∧ ∀ u k input, .started u k input ∈ events →
      u = node.taskId ∧ ∃ te, s.pc node.taskId = .running te input := by
  cases h
  case call te input row hpc hrow =>
    refine ⟨_, rfl, le_rfl, fun u k input' he => ?_⟩
    cases List.mem_singleton.mp he
    exact ⟨rfl, te, hpc⟩
  case answer => exact ⟨_, rfl, le_rfl, fun u k input he => by cases List.mem_singleton.mp he⟩
  case backOff => exact ⟨_, rfl, le_rfl, fun u k input he => by cases List.mem_singleton.mp he⟩
  all_goals exact ⟨[], (List.append_nil _).symm, Nat.zero_le _, fun _ _ _ he => absurd he List.not_mem_nil⟩

/-- The recorded inputs hold what is recorded for the task asked about. -/
theorem recordedInputs_get? {u : TaskId} (h : (recordedInputs E rows s u).get? (.str t) = some v) :
    recordedOutput E.strOf rows s.trace t = some v := by
  obtain ⟨entry, hentry, rfl⟩ := Option.map_eq_some_iff.mp h
  have hkey := List.find?_some hentry
  obtain ⟨p, _, hp⟩ := List.mem_filterMap.mp (List.mem_of_find?_eq_some hentry)
  obtain ⟨w, hw, rfl⟩ := Option.map_eq_some_iff.mp hp
  obtain rfl : p = t := by simpa using hkey
  exact hw

/-! ### The coroutines -/

private theorem TaskExecution.Sourced.skip (hc : c.Sourced rows strOf trace) (now : Time) :
    (o.writeBack (o.skip now) c).Sourced rows strOf trace := by
  intro hstatus
  have hout : (o.writeBack (o.skip now) c).outputData = c.outputData := Library.writeBack_same _ _
  rw [hout]
  refine hc ?_
  rcases writeBack_eq_or o.status (o.skip now).status c.status with h | h
  · exact h.symm.trans hstatus
  · cases h.symm.trans hstatus

private theorem TaskExecution.sourced_of_ne (h : te.status ≠ .completed) : te.Sourced rows strOf trace :=
  fun hstatus => absurd hstatus h

/-- The only output that the body stores is the one of the completed tasks. -/
private theorem MainMove.reported (h : MainMove E s s') : s'.db.execution.outputData = s.db.execution.outputData ∨
    s'.db.execution.outputData = .dict [(.str "tasks", .dict s.taskOutputs)] := by
  cases h
  case load =>
    obtain ⟨_, _, _, h⟩ := foldl_loadRow s.mem.tasks s
    rw [h]
    exact Or.inl rfl
  case start => exact Or.inl (writeBack_same _ _)
  case recordFailure => exact Or.inl (writeBack_same _ _)
  case complete now ex hmain hlive hfailed h =>
    have hex : ex.outputData = .dict [(.str "tasks", .dict s.taskOutputs)] := by
      unfold WorkflowExecution.complete at h
      cases hmove : s.mem.execution.status.transitionTo .completed with
      | error e => rw [hmove] at h; cases h
      | ok _ => rw [hmove] at h; cases h; rfl
    rcases writeBack_eq_or s.mem.execution.outputData ex.outputData s.db.execution.outputData with heq | heq
    · exact Or.inl heq
    · exact Or.inr (heq.trans hex)
  case skipCreate => exact Or.inl (by simp)
  case skipFound => exact Or.inl (by simp)
  all_goals exact Or.inl rfl

private theorem MainMove.early_next (h : MainMove E s s') :
    (s.main = .lookup → s'.main = .loaded) ∧ (s.main = .loaded → s'.main = .starting) := by
  cases h
  case lookup hmain => exact ⟨fun _ => rfl, by simp [hmain]⟩
  case start hmain _ => exact ⟨by simp [hmain], fun _ => rfl⟩
  case noStart hmain _ => exact ⟨by simp [hmain], fun _ => rfl⟩
  all_goals constructor <;> intro hm <;> simp_all

namespace Traced
variable (inv : Traced E rows output s)
include inv

/-- While a coroutine tries its task, no row of the task is completed. -/
theorem not_completed (ha : (s.pc t).Admitted) (hf : ∀ te, s.pc t ≠ .finishing te true)
    (hte : te ∈ s.db.tasks ∨ te ∈ s.mem.tasks) (hid : te.taskDefinitionId = t) : te.status ≠ .completed := by
  intro hstatus
  rcases hte.elim (inv.stored te) (inv.held te) hstatus with ⟨row, hrow, hdone, hid', _⟩ | hs
  · exact inv.barred t ⟨row, hrow, hid'.trans hid, Or.inl hdone⟩ ha
  · rw [hid, inv.ordered.untried_of ha hf] at hs
    cases hs

/-- The row that a coroutine works on, as the session holds it and as it is stored, is about its task. -/
theorem own_row (hpc : (s.pc t).row? = some i) (ho : s.mem.tasks[i]? = some o) : o.taskDefinitionId = t := by
  obtain ⟨w, hw, hid⟩ := inv.ordered.located.own t i hpc
  rw [s.getElem?_works ho] at hw
  cases hw
  exact hid

private theorem stored_row (hpc : (s.pc t).row? = some i) (ho : s.mem.tasks[i]? = some o)
    (hc : s.db.tasks[i]? = some c) : c.taskDefinitionId = t :=
  (congrArg Work.taskDefinitionId (inv.ordered.located.agrees.work_eq hc ho)).trans (inv.own_row hpc ho)

/-- A task whose coroutine is trying it is not settled. -/
theorem not_settled (ha : (s.pc t).Admitted) (hf : ∀ te, s.pc t ≠ .finishing te true) :
    ¬ (SettledIn rows t ∨ successes E.strOf s.trace t ≠ []) :=
  fun h => h.elim (fun h => inv.barred t h ha) fun h => h (inv.ordered.untried_of ha hf)

/-- The rows after a coroutine's move. -/
theorem rows_nodeMove (h : NodeMove E answers node s s') :
    (∀ te ∈ s'.db.tasks, te.Sourced rows E.strOf s'.trace) ∧
      ∀ te ∈ s'.mem.tasks, te.Sourced rows E.strOf s'.trace := by
  have hdb : ∀ te ∈ s.db.tasks, te.Sourced rows E.strOf s'.trace :=
    fun te hte hstatus => (inv.stored te hte hstatus).nodeMove inv.ordered h
  have hmem : ∀ te ∈ s.mem.tasks, te.Sourced rows E.strOf s'.trace :=
    fun te hte hstatus => (inv.held te hte hstatus).nodeMove inv.ordered h
  have hflush {te : TaskExecution} (hte : te.status ≠ .completed) :
      ∀ te' ∈ s.mem.tasks ++ [te], te'.Sourced rows E.strOf s'.trace := by
    intro te' hte'
    rcases List.mem_append.mp hte' with hte' | hte'
    · exact hmem te' hte'
    · rw [List.mem_singleton.mp hte']
      exact TaskExecution.sourced_of_ne hte
  have hskip {u : RunState} {i : Nat} (now : Time) (hudb : u.db = s.db)
      (humem : ∀ te ∈ u.mem.tasks, te.Sourced rows E.strOf s'.trace) :
      (∀ te ∈ (u.saveTask i (·.skip now)).db.tasks, te.Sourced rows E.strOf s'.trace) ∧
        ∀ te ∈ (u.saveTask i (·.skip now)).mem.tasks, te.Sourced rows E.strOf s'.trace :=
    saveTask_forall (hudb ▸ hdb) humem fun o _ =>
      ⟨TaskExecution.sourced_of_ne (by simp [TaskExecution.skip]),
        fun c hc => (hdb c (List.mem_of_getElem? (hudb ▸ hc))).skip now⟩
  -- Of the writes of a coroutine to its own row, only a success completes it.
  have hopen {i : Nat} {f : TaskExecution → TaskExecution} (hrow : (s.pc node.taskId).row? = some i)
      (ha : (s.pc node.taskId).Admitted) (hfin : ∀ te, s.pc node.taskId ≠ .finishing te true)
      (hf : ∀ o : TaskExecution, (f o).status ≠ .completed) :
      (∀ te ∈ (s.saveTask i f).db.tasks, te.Sourced rows E.strOf s'.trace) ∧
        ∀ te ∈ (s.saveTask i f).mem.tasks, te.Sourced rows E.strOf s'.trace :=
    saveTask_forall hdb hmem fun o ho => ⟨TaskExecution.sourced_of_ne (hf o), fun c hc =>
      TaskExecution.sourced_of_ne (TaskExecution.writeBack_ne_completed (hf o)
        (inv.not_completed ha hfin (Or.inl (List.mem_of_getElem? hc)) (inv.stored_row hrow ho hc)))⟩
  cases h
  case acquire hpc hsem =>
    refine ⟨hdb, fun te hte => ?_⟩
    rcases List.mem_append.mp hte with hte | hte
    · exact hdb te hte
    · exact hmem te (List.mem_of_mem_drop hte)
  case create hpc => exact ⟨hdb, hflush (by simp [TaskExecution.new])⟩
  case begin now te input row taskClass hpc hrow hle hlive h =>
    exact hopen (by rw [hpc]; rfl) (by rw [hpc]; trivial) (by simp [hpc]) (by simp [TaskExecution.begin])
  case again te input hpc =>
    exact hopen (by rw [hpc]; rfl) (by rw [hpc]; trivial) (by simp [hpc]) (by simp [TaskExecution.again])
  case answer now te input row outcome hpc hrow hlegal hcaught =>
    have htrying : (s.pc node.taskId).Admitted := by rw [hpc]; trivial
    have hfin : ∀ te, s.pc node.taskId ≠ .finishing te true := by simp [hpc]
    have hplace : (s.pc node.taskId).row? = some te := by rw [hpc]; rfl
    by_cases hok : outcome.ok = true
    · obtain ⟨r, rfl, hr⟩ : ∃ r, outcome = .result r ∧ r.success = true := by
        cases outcome with
        | result r => exact ⟨r, rfl, hok⟩
        | timeout => cases hok
        | raises e => cases hok
      have hout := row.answered_outputData E.strOf now (taskTimeout E.settings node) hr
      have hbefore := inv.ordered.untried_of htrying hfin
      have hsuccess : successes E.strOf (s.trace ++ [.returned node.taskId row.attempt (.result r)]) node.taskId =
          [normalizeOutput E.strOf r.output] := by
        rw [successes] at hbefore
        simp [successes, hbefore, HandlerEvent.success?, hr]
      refine saveTask_forall (s := s.emit _) hdb hmem fun o ho => ?_
      obtain rfl : row = o := Option.some.inj (hrow.symm.trans ho)
      refine ⟨fun _ => Or.inr ?_, fun c hc _ => Or.inr ?_⟩
      · rw [TaskExecution.answered_taskDefinitionId, inv.own_row hplace hrow, hout]
        exact hsuccess
      · have hsame : c.outputData = row.outputData :=
          congrArg Work.outputData (inv.ordered.located.agrees.work_eq hc hrow)
        have hid :
            (row.writeBack (row.answered E.strOf now (taskTimeout E.settings node) (.result r)) c).outputData =
              normalizeOutput E.strOf r.output := by
          simp only [TaskExecution.writeBack]
          rw [hsame, writeBack_fresh, hout]
        rw [hid]
        exact (congrArg (successes E.strOf _) (inv.stored_row hplace hrow hc)).trans hsuccess
    · refine hopen hplace htrying hfin fun o => ?_
      rw [o.answered_failed E.strOf now (taskTimeout E.settings node) (Bool.eq_false_of_not_eq_true hok) hcaught]
      simp
  case branchFound now sid toSkip te hpc h => exact hskip now rfl hmem
  case branchCreate now sid toSkip target hpc h => exact hskip now rfl (hflush (by simp [TaskExecution.new]))
  all_goals exact ⟨hdb, hmem⟩

/-- What is settled in the store stays so, and a success is settled with it. -/
theorem kept_nodeMove (h : NodeMove E answers node s s')
    (ht : SettledIn rows t ∨ successes E.strOf s'.trace t ≠ []) : SettledIn s'.db.tasks t := by
  by_cases hold : SettledIn rows t ∨ successes E.strOf s.trace t ≠ []
  · have hsettled := inv.kept t hold
    have hopen {i : Nat} {f : TaskExecution → TaskExecution} (hrow : (s.pc node.taskId).row? = some i)
        (ha : (s.pc node.taskId).Admitted) (hfin : ∀ te, s.pc node.taskId ≠ .finishing te true) :
        SettledIn (s.saveTask i f).db.tasks t := by
      refine hsettled.saveTask fun o c ho hc hid _ => ?_
      obtain rfl : node.taskId = t := (inv.stored_row hrow ho hc).symm.trans hid
      exact absurd hold (inv.not_settled ha hfin)
    cases h
    case begin now te input row taskClass hpc hrow hle hlive h =>
      exact hopen (by rw [hpc]; rfl) (by rw [hpc]; trivial) (by simp [hpc])
    case again te input hpc => exact hopen (by rw [hpc]; rfl) (by rw [hpc]; trivial) (by simp [hpc])
    case answer now te input row outcome hpc hrow hlegal hcaught =>
      exact hopen (by rw [hpc]; rfl) (by rw [hpc]; trivial) (by simp [hpc])
    case branchFound now sid toSkip te hpc h =>
      exact hsettled.saveTask (s := { s with skipped := _ }) fun o c _ _ _ hc =>
        TaskExecution.writeBack_skip_settled hc now
    case branchCreate now sid toSkip target hpc h =>
      exact hsettled.saveTask (s := s.flush _) fun o c _ _ _ hc => TaskExecution.writeBack_skip_settled hc now
    all_goals exact hsettled
  · -- The answer that has just come in is the first success of its task.
    rw [not_or, not_not] at hold
    have hnew := ht.resolve_left hold.1
    rcases h.success_cases with ⟨hsame, _⟩ | ⟨te', input', w, -, hfinishing, -, hsuccess⟩
    · exact absurd ((hsame t).trans hold.2) hnew
    obtain rfl : t = node.taskId := by
      by_contra hne
      exact hnew (by rw [hsuccess, if_neg hne, hold.2]; rfl)
    cases h
    case answer now te input row outcome hpc hrow hlegal hcaught =>
      have hok : outcome.ok = true := by
        by_contra hok
        simp [hok] at hfinishing
      have hplace : (s.pc node.taskId).row? = some te := by rw [hpc]; rfl
      have hdone := row.answered_status E.strOf now (taskTimeout E.settings node) hok
      have hheld : (s.mem.tasks.modify te (·.answered E.strOf now (taskTimeout E.settings node) outcome))[te]? =
          some (row.answered E.strOf now (taskTimeout E.settings node) outcome) := by
        rw [List.getElem?_modify, hrow]
        simp
      cases hc : s.db.tasks[te]? with
      | none =>
        refine ⟨_, List.mem_of_getElem? ((commitTasks_new (List.length_modify _ _ _) hc).trans hheld), ?_,
          Or.inl hdone⟩
        rw [TaskExecution.answered_taskDefinitionId]
        exact inv.own_row hplace hrow
      | some c =>
        refine ⟨_, List.mem_of_getElem? (commitTasks_writeBack hrow hheld hc),
          inv.stored_row (c := c) hplace hrow hc, Or.inl ?_⟩
        have hbefore : row.status ≠ .completed :=
          inv.not_completed (by rw [hpc]; trivial) (by simp [hpc]) (Or.inr (List.mem_of_getElem? hrow))
            (inv.own_row hplace hrow)
        exact (writeBack_of_ne (by rw [hdone]; exact hbefore.symm) _).trans hdone
    all_goals simp at hfinishing

private theorem nodeMove (h : NodeMove E answers node s s') : Traced E rows output s' := by
  have hmono {u : TaskId} {w : PyValue} (ho : Origin rows E.strOf s.trace u w) : Origin rows E.strOf s'.trace u w :=
    ho.nodeMove inv.ordered h
  obtain ⟨hstored, hheld⟩ := inv.rows_nodeMove h
  obtain ⟨events, htrace, hlen, hcalls⟩ := h.trace_cases
  have hmain : s'.main ≠ .lookup ∧ s'.main ≠ .loaded ∧ s'.main ≠ .starting := by
    have hg := inv.ordered.idle.gathers h.pc_ne_done
    rw [h.main]
    refine ⟨?_, ?_, ?_⟩ <;> intro hm <;> rw [hm] at hg <;> cases hg
  have hbarred : ∀ t, SettledIn rows t → ¬ (s'.pc t).Admitted := by
    intro t ht ha
    by_cases hn : t = node.taskId
    · subst hn
      rcases h.admitted ha with ha | ⟨hpc, hskipped⟩
      · exact inv.barred _ ht ha
      · rw [h.main] at hmain
        have hcompleted : node.taskId ∉ s.completed := inv.ordered.unpublished _ (by rw [hpc]; trivial)
        exact (inv.passed _ ht hmain.1 hmain.2.1 hmain.2.2).elim hcompleted hskipped
    · rw [h.pc_of_ne hn] at ha
      exact inv.barred t ht ha
  refine ⟨inv.ordered.nodeMove h, fun t ht _ _ _ => ?_, hbarred, fun t ht => ⟨?_, ?_⟩,
    fun t => inv.kept_nodeMove h, hstored, hheld, fun t => ?_, ?_, ?_⟩
  · rw [h.main] at hmain
    exact (inv.passed t ht hmain.1 hmain.2.1 hmain.2.2).imp (fun h' => h.completed_mono h')
      fun h' => h.skipped_mono h'
  · rcases h.success_cases with ⟨hsame, _⟩ | ⟨te, _, _, _, hpc, _⟩
    · exact (hsame t).trans (inv.silent t ht).1
    · refine (h.successes_of_ne ?_).trans (inv.silent t ht).1
      rintro rfl
      exact hbarred _ ht (by rw [hpc]; trivial)
  · intro e he
    rw [htrace] at he
    rcases List.mem_append.mp he with he | he
    · exact (inv.silent t ht).2 e he
    · rw [Bool.eq_false_iff]
      intro hstarts
      obtain ⟨k, input, rfl⟩ := HandlerEvent.of_starts hstarts
      obtain ⟨rfl, te, hpc⟩ := hcalls _ _ _ he
      exact inv.barred _ ht (by rw [hpc]; trivial)
  · rw [htrace, List.pairwise_append]
    refine ⟨inv.quiet t, ?_, fun e he e' he' hs => ?_⟩
    · rcases events with _ | ⟨e, _ | ⟨e', events⟩⟩
      · exact .nil
      · exact List.pairwise_singleton _ _
      · simp at hlen
    · rw [Bool.eq_false_iff]
      intro hstarts
      obtain ⟨k, input, rfl⟩ := HandlerEvent.of_starts hstarts
      obtain ⟨rfl, te, hpc⟩ := hcalls _ _ _ he'
      have hnone := inv.ordered.untried_of (by rw [hpc]; trivial) (t := node.taskId) (by simp [hpc])
      rw [successes, List.filterMap_eq_nil_iff] at hnone
      rw [hnone e he] at hs
      cases hs
  · intro e he u k input d t v hstarted htasks hv
    rw [htrace] at he
    rcases List.mem_append.mp he with he | he
    · exact hmono (inv.given e he u k input d t v hstarted htasks hv)
    · subst hstarted
      obtain ⟨rfl, te, hpc⟩ := hcalls _ _ _ he
      have hinput := inv.ordered.inputs node.taskId input (by rw [hpc]; rfl)
      rw [htasks] at hinput
      cases hinput
      exact hmono (inv.ordered.origin (recordedInputs_get? hv))
  · rw [h.execution]
    refine inv.reported.imp_right ?_
    rintro ⟨d, hd, hall⟩
    exact ⟨d, hd, fun t v hv => hmono (hall t v hv)⟩

/-! ### The body -/

/-- The rows after a move of the body. -/
theorem rows_mainMove (h : MainMove E s s') :
    (∀ te ∈ s'.db.tasks, te.Sourced rows E.strOf s.trace) ∧
      ∀ te ∈ s'.mem.tasks, te.Sourced rows E.strOf s.trace := by
  have hsave (ex : WorkflowExecution) :
      ∀ te ∈ (s.saveExecution ex).db.tasks, te.Sourced rows E.strOf s.trace := by
    intro te hte
    rcases mem_commitTasks hte with hte | hte | ⟨j, o, n, c, ho, hn, hc, rfl⟩
    · exact inv.stored te hte
    · exact inv.held te hte
    · obtain rfl : o = n := Option.some.inj (ho.symm.trans hn)
      rw [TaskExecution.writeBack_same]
      exact inv.stored c (List.mem_of_getElem? hc)
  have hrefresh : ∀ te ∈ s.refreshed.mem.tasks, te.Sourced rows E.strOf s.trace := by
    intro te hte
    rcases List.mem_append.mp hte with hte | hte
    · exact inv.stored te hte
    · exact inv.held te (List.mem_of_mem_drop hte)
  have hskip {u : RunState} {i : Nat} (now : Time) (hudb : u.db = s.db)
      (humem : ∀ te ∈ u.mem.tasks, te.Sourced rows E.strOf s.trace) :
      (∀ te ∈ (u.saveTask i (·.skip now)).db.tasks, te.Sourced rows E.strOf s.trace) ∧
        ∀ te ∈ (u.saveTask i (·.skip now)).mem.tasks, te.Sourced rows E.strOf s.trace :=
    saveTask_forall (hudb ▸ inv.stored) humem fun o _ =>
      ⟨TaskExecution.sourced_of_ne (by simp [TaskExecution.skip]),
        fun c hc => (inv.stored c (List.mem_of_getElem? (hudb ▸ hc))).skip now⟩
  cases h
  case lookup => exact ⟨inv.stored, inv.stored⟩
  case start => exact ⟨hsave _, inv.held⟩
  case recordFailure => exact ⟨hsave _, inv.held⟩
  case complete => exact ⟨hsave _, inv.held⟩
  case load =>
    obtain ⟨_, _, _, h⟩ := foldl_loadRow s.mem.tasks s
    rw [h]
    exact ⟨inv.stored, inv.held⟩
  case iterate => exact ⟨inv.stored, hrefresh⟩
  case exit => exact ⟨inv.stored, hrefresh⟩
  case settled => exact ⟨inv.stored, hrefresh⟩
  case gatheredFailed => exact ⟨inv.stored, hrefresh⟩
  case skipFound now sid sids te hmain h => exact hskip now rfl inv.held
  case skipCreate now sid sids node hmain h =>
    refine hskip now rfl fun te hte => ?_
    rcases List.mem_append.mp hte with hte | hte
    · exact inv.held te hte
    · rw [List.mem_singleton.mp hte]
      exact TaskExecution.sourced_of_ne (by simp [TaskExecution.new])
  all_goals exact ⟨inv.stored, inv.held⟩

private theorem mainMove (h : MainMove E s s') : Traced E rows output s' := by
  have htrace := h.trace
  obtain ⟨hstored, hheld⟩ := inv.rows_mainMove h
  have hpc : ∀ t, ¬ (s.pc t).Admitted → ¬ (s'.pc t).Admitted := by
    intro t ht
    rcases h.pc with ⟨hpc, _⟩ | ⟨_, _, _, hpc⟩ <;> rw [hpc]
    · exact ht
    · dsimp only
      split <;> exact id
  refine ⟨inv.ordered.mainMove h, fun t ht hlookup hloaded hstarting => ?_,
    fun t ht => hpc t (inv.barred t ht), fun t ht => ?_, fun t ht => ?_, ?_, ?_, fun t => ?_, ?_, ?_⟩
  · by_cases hmain : s.main = .starting
    · obtain ⟨te, hte, hid, hdone⟩ := ht
      rw [← inv.ordered.loaded (Or.inr hmain)] at hte
      rw [h.load_of_starting hmain]
      rcases hdone with hdone | hdone
      · exact Or.inl ((mem_completed_load _ _ _).mpr (Or.inr ⟨te, hte, hdone, hid⟩))
      · exact Or.inr ((mem_skipped_load _ _ _).mpr (Or.inr ⟨te, hte, hdone, hid⟩))
    · obtain ⟨hnext, hnext'⟩ := h.early_next
      rw [(h.completed hmain).1]
      exact (inv.passed t ht (fun hm => hloaded (hnext hm)) (fun hm => hstarting (hnext' hm)) hmain).imp_right
        fun hin => h.skipped_mono hin
  · rw [htrace]
    exact inv.silent t ht
  · rw [htrace] at ht
    exact (inv.kept t ht).mainMove h
  · rwa [htrace]
  · rwa [htrace]
  · rw [htrace]
    exact inv.quiet t
  · rw [htrace]
    exact inv.given
  · rw [htrace]
    rcases h.reported with hsame | hnew
    · rw [hsame]
      exact inv.reported
    · refine Or.inr ⟨_, hnew, fun t v hv => ?_⟩
      have hin : t ∈ s.completed := by
        by_contra hnot
        rw [inv.ordered.absent t hnot] at hv
        cases hv
      exact inv.ordered.origin ((inv.ordered.outputs t hin).symm.trans hv)

/-! ### Beside a cancel -/

private theorem cancel (now : Time) (hmain : s.main ≠ .lookup) (h : loaded.StillOpen s.db) :
    Traced E rows output { s with db := loaded.commit (loaded.cancelExecution now) s.db } := by
  have hleaves := h.cancel now
  obtain ⟨idle, located, fresh, stored, hloaded, preds, unpublished, once, untried, answered, absent, outputs,
    inputs⟩ := inv.ordered
  have hagrees : Agrees { s with db := loaded.commit (loaded.cancelExecution now) s.db } := by
    rw [Agrees, AgreesOn, Database.commit_tasks, Database.cancelExecution, commitTasks_cancel now h.length]
    exact located.agrees
  refine ⟨⟨⟨idle.outside, idle.between⟩, ⟨hagrees, located.own⟩, fresh, fun hm => absurd hm hmain, hloaded, preds,
    unpublished, once, untried, answered, absent, outputs, inputs⟩, inv.passed, inv.barred, inv.silent,
    fun t ht => hleaves.settledIn (inv.kept t ht), fun te hte hstatus => ?_, inv.held, inv.quiet, inv.given, ?_⟩
  · exact inv.stored te (hleaves.completed hte hstatus) hstatus
  · simp only [commit_cancel_outputData]
    exact inv.reported

end Traced

private theorem Traced.step (inv : Traced E rows output s) (h : Beside E answers s s') :
    Traced E rows output s' := by
  cases h with
  | own h =>
    rcases step_cases h with h | ⟨node, _, h⟩
    · exact inv.mainMove h
    · exact inv.nodeMove h
  | cancel now hmain h => exact inv.cancel now hmain h

/-! ### The whole life -/

/-- What the rows and the events of an execution have in common after every operation. -/
structure WellSourced (strOf : PyValue → String) (db : Database) (trace : List HandlerEvent) : Prop where
  once : ∀ t, (successes strOf trace t).length ≤ 1
  kept : ∀ t, successes strOf trace t ≠ [] → SettledIn db.tasks t
  stored : ∀ te ∈ db.tasks, te.status = .completed → successes strOf trace te.taskDefinitionId = [te.outputData]
  quiet : ∀ t, trace.Pairwise fun e e' => (e.success? strOf t).isSome → e'.starts t = false
  given : ∀ (u : TaskId) (k : Nat) (input d : PyDict) (t : TaskId) (v : PyValue), .started u k input ∈ trace →
    input.get? (.str "tasks") = some (.dict d) → d.get? (.str t) = some v → successes strOf trace t = [v]
  reported : ∀ (d : PyDict) (t : TaskId) (v : PyValue), db.execution.outputData = .dict [(.str "tasks", .dict d)] →
    d.get? (.str t) = some v → successes strOf trace t = [v]

private theorem successes_append (trace trace' : List HandlerEvent) (t : TaskId) :
    successes strOf (trace ++ trace') t = successes strOf trace t ++ successes strOf trace' t :=
  List.filterMap_append

namespace WellSourced
variable (inv : WellSourced strOf db trace)
include inv

/-- A call adds no success to a task that has one, and what it has recorded has its one success. -/
theorem execute {E : Engine} {s : RunState} (hstr : E.strOf = strOf)
    (call : Traced E db.tasks db.execution.outputData s) : WellSourced strOf s.db (trace ++ s.trace) := by
  subst hstr
  have hcases (t : TaskId) : SettledIn db.tasks t ∧ successes E.strOf s.trace t = [] ∨
      successes E.strOf trace t = [] := by
    by_cases ht : SettledIn db.tasks t
    · exact Or.inl ⟨ht, (call.silent t ht).1⟩
    · refine Or.inr ?_
      by_contra hne
      exact ht (inv.kept t hne)
  have hold {t : TaskId} {v : PyValue} (h : successes E.strOf trace t = [v]) :
      successes E.strOf (trace ++ s.trace) t = [v] := by
    rcases hcases t with ⟨_, hnone⟩ | hnone
    · rw [successes_append, h, hnone, List.append_nil]
    · rw [hnone] at h
      cases h
  have horigin {t : TaskId} {v : PyValue} (h : Origin db.tasks E.strOf s.trace t v) :
      successes E.strOf (trace ++ s.trace) t = [v] := by
    rcases h with ⟨te, hte, hstatus, rfl, rfl⟩ | h
    · exact hold (inv.stored te hte hstatus)
    · rcases hcases t with ⟨_, hnone⟩ | hnone
      · rw [hnone] at h
        cases h
      · rw [successes_append, hnone, h, List.nil_append]
  refine ⟨fun t => ?_, fun t ht => call.kept t ?_, fun te hte hstatus => horigin (call.stored te hte hstatus),
    fun t => ?_, fun u k input d t v he htasks hv => ?_, fun d t v hd hv => ?_⟩
  · rw [successes_append, List.length_append]
    have hbefore := inv.once t
    have hafter := call.ordered.once t
    rcases hcases t with ⟨_, hnone⟩ | hnone <;> simp only [hnone, List.length_nil] <;> omega
  · rw [successes_append] at ht
    rcases hcases t with ⟨hsettled, _⟩ | hnone
    · exact Or.inl hsettled
    · rw [hnone, List.nil_append] at ht
      exact Or.inr ht
  · refine List.pairwise_append.mpr ⟨inv.quiet t, call.quiet t, fun e he e' he' hs => ?_⟩
    have hne : successes E.strOf trace t ≠ [] := by
      intro hnil
      rw [successes, List.filterMap_eq_nil_iff] at hnil
      rw [hnil e he] at hs
      cases hs
    exact (call.silent t (inv.kept t hne)).2 e' he'
  · rcases List.mem_append.mp he with he | he
    · exact hold (inv.given u k input d t v he htasks hv)
    · exact horigin (call.given _ he u k input d t v rfl htasks hv)
  · rcases call.reported with hsame | ⟨d', hd', hall⟩
    · exact hold (inv.reported d t v (hsame.symm.trans hd) hv)
    · rw [hd] at hd'
      cases hd'
      exact horigin (hall t v hv)

/-- Another session leaves what is settled alone, and stores no output. -/
theorem leaves (h : LeavesSettled db db')
    (hout : db'.execution.outputData = db.execution.outputData ∨ db'.execution.outputData = .none) :
    WellSourced strOf db' trace where
  once := inv.once
  kept := fun t ht => h.settledIn (inv.kept t ht)
  stored := fun te hte hstatus => inv.stored te (h.completed hte hstatus) hstatus
  quiet := inv.quiet
  given := inv.given
  reported := by
    intro d t v hd hv
    rcases hout with hsame | hnone
    · exact inv.reported d t v (hsame.symm.trans hd) hv
    · rw [hnone] at hd
      cases hd

end WellSourced

end BackendProjects.Workflow
