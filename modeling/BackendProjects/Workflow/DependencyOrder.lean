import BackendProjects.Workflow.Works

/-! The order of the handlers of one run: what is completed when a handler starts, how often a
handler succeeds, and which outputs of its predecessors it is given. -/
namespace BackendProjects.Workflow
open Library

def HandlerEvent.success? (strOf : PyValue → String) (t : TaskId) : HandlerEvent → Option PyValue
  | .returned u _ (.result r) =>
      if u = t ∧ r.success = true then some (normalizeOutput strOf r.output) else none
  | _ => none

def successes (strOf : PyValue → String) (trace : List HandlerEvent) (t : TaskId) : List PyValue :=
  trace.filterMap (HandlerEvent.success? strOf t)

def persistedOutput (rows : List TaskExecution) (t : TaskId) : Option PyValue :=
  (rows.reverse.find? (fun te =>
    te.taskDefinitionId = t ∧ te.status = .completed ∧ te.outputData ≠ .none)).map (·.outputData)

/-- The recorded output of a task, unless it is None: that of its success in this run, else that
of an earlier one. -/
def recordedOutput (strOf : PyValue → String) (rows : List TaskExecution)
    (trace : List HandlerEvent) (t : TaskId) : Option PyValue :=
  match (successes strOf trace t).getLast? with
  | some output => if output ≠ .none then some output else none
  | none => persistedOutput rows t

def recordedInputs (E : Engine) (rows : List TaskExecution) (s : RunState) (t : TaskId) : PyDict :=
  (E.dag.predecessors t).filterMap (fun p =>
    (recordedOutput E.strOf rows s.trace p).map (fun v => (.str p, v)))

def NodePc.Open : NodePc → Prop
  | .branching _ | .branchCreating _ _ | .done | .raised _ => False
  | _ => True

def NodePc.input? : NodePc → Option PyDict
  | .looping _ input | .running _ input | .handling _ input | .attemptFailed _ input
  | .sleeping _ input => some input
  | _ => none

variable {E : Engine} {answers : Answers} {db : Database} {node : DAGNode} {s s' : RunState}
  {t : TaskId}

/-! ### What a coroutine's move does to its task -/

/-- A success is recorded in the row when it is returned, and only then. -/
theorem NodeMove.success_cases (h : NodeMove E answers node s s') :
    ((∀ t, successes E.strOf s'.trace t = successes E.strOf s.trace t) ∧
      ∀ te, s'.pc node.taskId ≠ .finishing te true) ∨
    ∃ te input w, s.pc node.taskId = .handling te input ∧
      s'.pc node.taskId = .finishing te true ∧ s'.works[te]? = some w ∧
      ∀ t, successes E.strOf s'.trace t =
        successes E.strOf s.trace t ++ if t = node.taskId then [w.outputData] else [] := by
  cases h
  case answer now te input row outcome hpc hrow hlegal hcaught =>
    by_cases hok : outcome.ok = true
    · obtain ⟨r, rfl, hr⟩ : ∃ r, outcome = .result r ∧ r.success = true := by
        cases outcome with
        | result r => exact ⟨r, rfl, hok⟩
        | timeout => cases hok
        | raises e => cases hok
      refine Or.inr ⟨te, input, _, hpc, by simp [hok], RunState.works_saveTask_self _ te _ hrow, ?_⟩
      intro t
      have hout := TaskExecution.answered_outputData row E.strOf now (taskTimeout E.settings node) hr
      by_cases ht : t = node.taskId
      · subst ht
        simp [successes, HandlerEvent.success?, hr, TaskExecution.work, hout]
      · simp [successes, HandlerEvent.success?, ht, Ne.symm ht]
    · refine Or.inl ⟨fun t => ?_, by simp [hok]⟩
      have hnone : HandlerEvent.success? E.strOf t (.returned node.taskId row.attempt outcome) = none := by
        cases outcome with
        | result r => exact if_neg (fun h => hok h.2)
        | timeout => rfl
        | raises e => rfl
      simp [successes, hnone]
  case call => exact Or.inl ⟨fun t => by simp [successes, HandlerEvent.success?], by simp⟩
  case backOff => exact Or.inl ⟨fun t => by simp [successes, HandlerEvent.success?], by simp⟩
  all_goals exact Or.inl ⟨fun t => rfl, by simp⟩

/-- A coroutine adds no success to another task. -/
theorem NodeMove.successes_of_ne (h : NodeMove E answers node s s') (ht : t ≠ node.taskId) :
    successes E.strOf s'.trace t = successes E.strOf s.trace t := by
  rcases h.success_cases with ⟨hsame, _⟩ | ⟨_, _, _, _, _, _, hnew⟩
  · exact hsame t
  · rw [hnew, if_neg ht, List.append_nil]

private theorem NodeMove.open_of (h : NodeMove E answers node s s') (ho : (s'.pc node.taskId).Open) :
    (s.pc node.taskId).Open ∧ s'.completed = s.completed := by
  cases h
  case throw h => simp [NodePc.Open] at ho
  all_goals first
    | exact ⟨by simp only [*]; trivial, rfl⟩
    | simp [NodePc.Open] at ho

private theorem NodeMove.input (h : NodeMove E answers node s s') {input : PyDict}
    (hi : (s'.pc node.taskId).input? = some input) :
    (s.pc node.taskId).input? = some input ∨
      input = mergedInput s.mem.execution.inputData (predOutputs E.dag node.taskId s.taskOutputs) := by
  cases h
  case prepare => exact Or.inr (by simpa [NodePc.input?] using hi.symm)
  case answer hpc hrow hlegal hcaught =>
    simp only [RunState.goto_pc, Function.update_self] at hi
    split at hi
    · cases hi
    · exact Or.inl (by rw [hpc]; exact hi)
  all_goals simp_all [NodePc.input?]

/-! ### Loading -/

private theorem persistedOutput_cons (row : TaskExecution) (rows : List TaskExecution) (t : TaskId) :
    persistedOutput (row :: rows) t = (persistedOutput rows t).or (persistedOutput [row] t) := by
  simp only [persistedOutput, List.reverse_cons, List.find?_append, List.reverse_nil, List.nil_append,
    Option.map_or]

theorem load_taskOutputs (rows : List TaskExecution) (s : RunState) (t : TaskId) :
    (rows.foldl loadRow s).taskOutputs.get? (.str t) =
      (persistedOutput rows t).or (s.taskOutputs.get? (.str t)) := by
  induction rows generalizing s with
  | nil => rfl
  | cons row rows ih =>
    rw [List.foldl_cons, ih, persistedOutput_cons, Option.or_assoc]
    congr 1
    by_cases hc : row.status = .completed
    · simp only [loadRow, hc, if_true, RunState.publish_taskOutputs]
      by_cases ho : row.outputData = .none
      · simp [persistedOutput, ho]
      · by_cases ht : row.taskDefinitionId = t
        · simp [persistedOutput, ho, hc, ht]
        · rw [if_pos ho, PyDict.get?_set_of_ne _ (by simpa using Ne.symm ht)]
          simp [persistedOutput, ht]
    · have hsame : (loadRow s row).taskOutputs = s.taskOutputs := by
        rw [loadRow, if_neg hc]
        split <;> rfl
      simp [hsame, persistedOutput, hc]

private theorem persistedOutput_none {rows : List TaskExecution} {t : TaskId}
    (h : ∀ row ∈ rows, row.status = .completed → row.taskDefinitionId ≠ t) :
    persistedOutput rows t = none := by
  simp only [persistedOutput, Option.map_eq_none_iff, List.find?_eq_none, List.mem_reverse,
    decide_eq_true_eq, not_and]
  exact fun row hrow hid hstatus => absurd hid (h row hrow hstatus)

/-! ### The invariant -/

/-- Where the predecessors of the tasks under way stand, and what the outputs record. -/
structure Ordered (E : Engine) (rows : List TaskExecution) (s : RunState) : Prop where
  idle : Idle s
  located : Located s
  fresh : s.main = .lookup ∨ s.main = .loaded ∨ s.main = .starting →
    s.completed = ∅ ∧ s.taskOutputs = [] ∧ s.trace = []
  stored : s.main = .lookup → s.db.tasks = rows
  loaded : s.main = .loaded ∨ s.main = .starting → s.mem.tasks = rows
  preds : ∀ t, s.pc t ≠ .done → ∀ p ∈ E.dag.predecessors t, p ∈ s.completed
  unpublished : ∀ t, (s.pc t).Open → t ∉ s.completed
  once : ∀ t, (successes E.strOf s.trace t).length ≤ 1
  untried : ∀ t, t ∉ s.completed → (∀ te, s.pc t ≠ .finishing te true) →
    successes E.strOf s.trace t = []
  answered : ∀ t te, s.pc t = .finishing te true →
    ∃ w, s.works[te]? = some w ∧ successes E.strOf s.trace t = [w.outputData]
  absent : ∀ t, t ∉ s.completed → s.taskOutputs.get? (.str t) = none
  outputs : ∀ t ∈ s.completed,
    s.taskOutputs.get? (.str t) = recordedOutput E.strOf rows s.trace t
  inputs : ∀ t input, (s.pc t).input? = some input →
    input.get? (.str "tasks") = some (.dict (recordedInputs E rows s t))

theorem Ordered.start (E : Engine) (db : Database) : Ordered E db.tasks (.start E db) where
  idle := Idle.start E db
  located := Located.start E db
  fresh := fun _ => ⟨rfl, rfl, rfl⟩
  stored := fun _ => rfl
  loaded := fun _ => rfl
  preds := fun _ h => absurd rfl h
  unpublished := fun _ h => h.elim
  once := fun _ => Nat.zero_le _
  untried := fun _ _ _ => rfl
  answered := fun _ _ h => by cases h
  absent := fun _ _ => rfl
  outputs := fun t h => absurd h (Finset.notMem_empty t)
  inputs := fun _ _ h => by cases h

variable {rows : List TaskExecution}

/-- The outputs of completed predecessors are the recorded ones. -/
private theorem Ordered.predOutputs (inv : Ordered E rows s) (h : s.pc t ≠ .done) :
    predOutputs E.dag t s.taskOutputs = recordedInputs E rows s t := by
  apply List.filterMap_congr
  intro p hp
  rw [inv.outputs p (inv.preds t h p hp)]

/-- No success is added to a completed task. -/
private theorem Ordered.successes_stable (inv : Ordered E rows s) (h : NodeMove E answers node s s')
    (ht : t ∈ s.completed) : successes E.strOf s'.trace t = successes E.strOf s.trace t := by
  rcases h.success_cases with ⟨hsame, _⟩ | ⟨te, input, w, hpc, _⟩
  · exact hsame t
  · apply h.successes_of_ne
    rintro rfl
    exact inv.unpublished _ (by rw [hpc]; trivial) ht

private theorem Ordered.recorded_stable (inv : Ordered E rows s) (h : NodeMove E answers node s s')
    (ht : t ∈ s.completed) :
    recordedOutput E.strOf rows s'.trace t = recordedOutput E.strOf rows s.trace t := by
  rw [recordedOutput, inv.successes_stable h ht, recordedOutput]

private theorem Ordered.inputs_stable (inv : Ordered E rows s) (h : NodeMove E answers node s s')
    (ht : s.pc t ≠ .done) : recordedInputs E rows s' t = recordedInputs E rows s t := by
  apply List.filterMap_congr
  intro p hp
  rw [inv.recorded_stable h (inv.preds t ht p hp)]

/-- The output that a coroutine publishes is the one that its handler has returned. -/
private theorem Ordered.publishes (inv : Ordered E rows s) (h : NodeMove E answers node s s')
    (hbefore : node.taskId ∉ s.completed) (hafter : node.taskId ∈ s'.completed) :
    s'.taskOutputs.get? (.str node.taskId) = recordedOutput E.strOf rows s'.trace node.taskId := by
  rcases h.published with ⟨hsame, _⟩ | ⟨te, row, hpc, hrow, _, ho⟩
  · exact absurd (hsame ▸ hafter) hbefore
  obtain ⟨w, hw, hs⟩ := inv.answered _ te hpc
  rw [s.getElem?_works hrow] at hw
  cases hw
  have hs' : successes E.strOf s'.trace node.taskId = [row.outputData] := by
    rcases h.success_cases with ⟨hsame, _⟩ | ⟨_, _, _, hhandling, _⟩
    · rw [hsame, hs]
      rfl
    · rw [hpc] at hhandling
      cases hhandling
  rw [ho, recordedOutput, hs', RunState.publish_taskOutputs]
  simp only [List.getLast?_singleton]
  split
  · rw [PyDict.get?_set]
  · exact inv.absent _ hbefore

/-- The first success of a task comes from its handler. -/
private theorem Ordered.first_success (inv : Ordered E rows s) {te : Nat} {input : PyDict}
    (hpc : s.pc node.taskId = .handling te input) : successes E.strOf s.trace node.taskId = [] :=
  inv.untried _ (inv.unpublished _ (by rw [hpc]; trivial)) (by simp [hpc])

private theorem Ordered.once_nodeMove (inv : Ordered E rows s) (h : NodeMove E answers node s s')
    (t : TaskId) : (successes E.strOf s'.trace t).length ≤ 1 := by
  rcases h.success_cases with ⟨hsame, _⟩ | ⟨te, input, w, hpc, _, _, hnew⟩
  · rw [hsame]
    exact inv.once t
  by_cases hn : t = node.taskId
  · subst hn
    simp [hnew, inv.first_success hpc]
  · rw [h.successes_of_ne hn]
    exact inv.once t

private theorem Ordered.untried_nodeMove (inv : Ordered E rows s) (h : NodeMove E answers node s s')
    (hc : t ∉ s'.completed) (hf : ∀ te, s'.pc t ≠ .finishing te true) :
    successes E.strOf s'.trace t = [] := by
  have hc' : t ∉ s.completed := fun hin => hc (h.completed_mono hin)
  by_cases hn : t = node.taskId
  · subst hn
    have hf' : ∀ te, s.pc node.taskId ≠ .finishing te true := by
      intro te hpc
      rcases h.published with ⟨_, _, hnot⟩ | ⟨_, _, _, _, hins, _⟩
      · exact hnot te hpc
      · exact hc (hins ▸ Finset.mem_insert_self _ _)
    rcases h.success_cases with ⟨hsame, _⟩ | ⟨te, _, _, _, hpc', _⟩
    · rw [hsame]
      exact inv.untried _ hc' hf'
    · exact absurd hpc' (hf te)
  · rw [h.successes_of_ne hn]
    exact inv.untried t hc' (fun te => h.pc_of_ne hn ▸ hf te)

private theorem Ordered.answered_nodeMove (inv : Ordered E rows s) (h : NodeMove E answers node s s')
    {te : Nat} (hpc : s'.pc t = .finishing te true) :
    ∃ w, s'.works[te]? = some w ∧ successes E.strOf s'.trace t = [w.outputData] := by
  by_cases hn : t = node.taskId
  · subst hn
    rcases h.success_cases with ⟨_, hnot⟩ | ⟨te', input, w, hhandling, hfin, hw, hnew⟩
    · exact absurd hpc (hnot te)
    · rw [hpc] at hfin
      obtain rfl : te = te' := by simpa using hfin
      exact ⟨w, hw, by simp [hnew, inv.first_success hhandling]⟩
  · rw [h.pc_of_ne hn] at hpc
    obtain ⟨w, hw, hs⟩ := inv.answered t te hpc
    obtain ⟨v, hv, hid⟩ := inv.located.own t te (by rw [hpc]; rfl)
    have hwid : w.taskDefinitionId ≠ node.taskId := by
      rw [hw] at hv
      cases hv
      rw [hid]
      exact hn
    exact ⟨w, h.works_of_ne inv.located hw hwid, (h.successes_of_ne hn).trans hs⟩

private theorem Ordered.outputs_nodeMove (inv : Ordered E rows s) (h : NodeMove E answers node s s')
    (hc : t ∈ s'.completed) :
    s'.taskOutputs.get? (.str t) = recordedOutput E.strOf rows s'.trace t := by
  by_cases hin : t ∈ s.completed
  · rw [inv.recorded_stable h hin, ← inv.outputs t hin]
    by_cases hn : t = node.taskId
    · subst hn
      rcases h.published with ⟨_, ho, _⟩ | ⟨_, _, hpc, _⟩
      · rw [ho]
      · exact absurd hin (inv.unpublished _ (by rw [hpc]; trivial))
    · exact h.taskOutputs_of_ne hn
  · obtain rfl : t = node.taskId := by
      by_contra hn
      exact hin ((h.completed_of_ne hn).mp hc)
    exact inv.publishes h hin hc

theorem Ordered.nodeMove (inv : Ordered E rows s) (h : NodeMove E answers node s s') :
    Ordered E rows s' := by
  have hactive := h.pc_ne_done
  have hgathers {m : MainPc} (hm : m.gathers = false) : s'.main ≠ m := by
    rintro rfl
    rw [h.main, inv.idle.gathers hactive] at hm
    cases hm
  refine ⟨inv.idle.nodeMove h, inv.located.nodeMove h, ?_, ?_, ?_, ?_, ?_, inv.once_nodeMove h,
    fun t => inv.untried_nodeMove h, fun t te => inv.answered_nodeMove h, ?_,
    fun t => inv.outputs_nodeMove h, ?_⟩
  · rintro (hm | hm | hm)
    · exact absurd hm (hgathers rfl)
    · exact absurd hm (hgathers rfl)
    · exact absurd hm (hgathers rfl)
  · exact fun hm => absurd hm (hgathers rfl)
  · rintro (hm | hm)
    · exact absurd hm (hgathers rfl)
    · exact absurd hm (hgathers rfl)
  · intro t ht p hp
    have hold : s.pc t ≠ .done := by
      by_cases hn : t = node.taskId
      · exact hn ▸ hactive
      · rwa [h.pc_of_ne hn] at ht
    exact h.completed_mono (inv.preds t hold p hp)
  · intro t ho
    by_cases hn : t = node.taskId
    · subst hn
      obtain ⟨hbefore, hc⟩ := h.open_of ho
      rw [hc]
      exact inv.unpublished _ hbefore
    · rw [h.pc_of_ne hn] at ho
      rw [h.completed_of_ne hn]
      exact inv.unpublished t ho
  · intro t hc
    by_cases hn : t = node.taskId
    · subst hn
      rcases h.published with ⟨hsame, ho, _⟩ | ⟨_, _, _, _, hins, _⟩
      · rw [ho]
        exact inv.absent _ (hsame ▸ hc)
      · exact absurd (Finset.mem_insert_self _ _) (hins ▸ hc)
    · rw [h.taskOutputs_of_ne hn]
      exact inv.absent t (fun hin => hc (h.completed_mono hin))
  · intro t input hi
    by_cases hn : t = node.taskId
    · subst hn
      rw [inv.inputs_stable h hactive]
      rcases h.input hi with hi | rfl
      · exact inv.inputs _ input hi
      · rw [mergedInput_tasks, inv.predOutputs hactive]
    · rw [h.pc_of_ne hn] at hi
      rw [inv.inputs_stable h (fun hdone => by rw [hdone] at hi; cases hi)]
      exact inv.inputs t input hi

private theorem Ordered.load (inv : Ordered E rows s) (hmain : s.main = .starting) :
    Ordered E rows { s.mem.tasks.foldl loadRow s with main := .loop } := by
  obtain ⟨hc, ho, htrace⟩ := inv.fresh (Or.inr (Or.inr hmain))
  have hrows := inv.loaded (Or.inr hmain)
  have hmove : MainMove E s { s.mem.tasks.foldl loadRow s with main := .loop } := .load hmain
  have hdone (t : TaskId) : (s.mem.tasks.foldl loadRow s).pc t = .done := by
    obtain ⟨_, _, _, h⟩ := foldl_loadRow s.mem.tasks s
    rw [h]
    exact inv.idle.between (by rw [hmain]; rfl) t
  have hnil (t : TaskId) : successes E.strOf (s.mem.tasks.foldl loadRow s).trace t = [] := by
    obtain ⟨_, _, _, h⟩ := foldl_loadRow s.mem.tasks s
    rw [h]
    simp [htrace, successes]
  have hget (t : TaskId) : (s.mem.tasks.foldl loadRow s).taskOutputs.get? (.str t) =
      persistedOutput rows t := by
    rw [load_taskOutputs, ho, hrows]
    exact Option.or_none
  refine ⟨inv.idle.mainMove hmove, inv.located.mainMove inv.idle hmove, by simp, by simp, by simp,
    fun t h => absurd (hdone t) h, fun t h => ?_, fun t => ?_, fun t _ _ => hnil t, fun t te h => ?_,
    fun t ht => ?_, fun t _ => ?_, fun t input h => ?_⟩
  · rw [hdone] at h
    exact h.elim
  · rw [hnil]
    exact Nat.zero_le _
  · rw [hdone] at h
    cases h
  · refine (hget t).trans (persistedOutput_none (fun row hrow hstatus hid => ht ?_))
    exact (mem_completed_load _ _ _).mpr (Or.inr ⟨row, hrows ▸ hrow, hstatus, hid⟩)
  · refine (hget t).trans ?_
    rw [recordedOutput, hnil]
    rfl
  · rw [hdone] at h
    cases h

/-- A new wave: its tasks are ready, and nothing has been tried for them. -/
private theorem Ordered.gather (inv : Ordered E rows s) (hmain : s.main = .skipping [])
    (idle : Idle s') (located : Located s') (hgather : s'.main = .gathering)
    (hwave : s'.wave = E.dag.readyIds s.completed s.skipped)
    (hpc : s'.pc = fun t => if t ∈ s'.wave then .waiting else .done)
    (hc : s'.completed = s.completed) (ho : s'.taskOutputs = s.taskOutputs)
    (htrace : s'.trace = s.trace) : Ordered E rows s' := by
  have hdone (t : TaskId) : s.pc t = .done := inv.idle.between (by rw [hmain]; rfl) t
  have hready {t : TaskId} (h : s'.pc t ≠ .done) : t ∈ E.dag.readyIds s.completed s.skipped := by
    rw [hpc] at h
    rw [← hwave]
    by_contra hnot
    exact h (if_neg hnot)
  have hwaiting (t : TaskId) : s'.pc t = .waiting ∨ s'.pc t = .done := by
    rw [hpc]
    exact ite_eq_or_eq _ _ _
  refine ⟨idle, located, by simp [hgather], by simp [hgather], by simp [hgather], ?_, ?_, ?_, ?_, ?_,
    ?_, ?_, ?_⟩
  · rw [hc]
    exact fun t ht => (E.dag.mem_readyIds.mp (hready ht)).2.2.2.2
  · rw [hc]
    intro t h
    exact (E.dag.mem_readyIds.mp (hready (fun hd => by rw [hd] at h; exact h))).2.1
  · rw [htrace]
    exact inv.once
  · rw [hc, htrace]
    exact fun t ht _ => inv.untried t ht (fun te => by rw [hdone]; simp)
  · intro t te h
    rcases hwaiting t with hw | hw <;> rw [hw] at h <;> cases h
  · rw [hc, ho]
    exact inv.absent
  · rw [hc, ho, htrace]
    exact inv.outputs
  · intro t input h
    rcases hwaiting t with hw | hw <;> rw [hw] at h <;> cases h

theorem Ordered.mainMove (inv : Ordered E rows s) (h : MainMove E s s') : Ordered E rows s' := by
  by_cases hstart : s.main = .starting
  · rw [h.load_of_starting hstart]
    exact inv.load hstart
  obtain ⟨hc, ho⟩ := h.completed hstart
  obtain ⟨hlookup, hloaded, hstarting⟩ := h.early
  have htrace := h.trace
  have idle := inv.idle.mainMove h
  have located := inv.located.mainMove inv.idle h
  rcases h.pc with ⟨hpc, _⟩ | ⟨hmain, hgather, hwave, hpc⟩
  · refine ⟨idle, located, ?_, fun hm => absurd hm hlookup, ?_, ?_, ?_, ?_, ?_, ?_, ?_, ?_, ?_⟩
    · rw [hc, ho, htrace]
      rintro (hm | hm | hm)
      · exact absurd hm hlookup
      · exact inv.fresh (Or.inl (hloaded hm).1)
      · exact inv.fresh (Or.inr (Or.inl (hstarting hm).1))
    · rintro (hm | hm)
      · rw [(hloaded hm).2]
        exact inv.stored (hloaded hm).1
      · rw [(hstarting hm).2]
        exact inv.loaded (Or.inl (hstarting hm).1)
    · rw [hpc, hc]
      exact inv.preds
    · rw [hpc, hc]
      exact inv.unpublished
    · rw [htrace]
      exact inv.once
    · rw [hpc, hc, htrace]
      exact inv.untried
    · rw [hpc, htrace]
      intro t te hte
      obtain ⟨w, hw, hs⟩ := inv.answered t te hte
      have hmain : s.main ≠ .lookup := by
        intro hm
        have hg := inv.idle.gathers (t := t) (by simp [hte])
        rw [hm] at hg
        cases hg
      exact ⟨w, h.works inv.located.agrees hmain hw, hs⟩
    · rw [hc, ho]
      exact inv.absent
    · rw [hc, ho, htrace]
      exact inv.outputs
    · rw [hpc]
      intro t input hi
      rw [recordedInputs, htrace]
      exact inv.inputs t input hi
  · exact inv.gather hmain idle located hgather hwave hpc hc ho htrace

private theorem Ordered.step (inv : Ordered E rows s) (h : Step E answers s s') : Ordered E rows s' := by
  rcases step_cases h with h | ⟨node, _, h⟩
  · exact inv.mainMove h
  · exact inv.nodeMove h

end BackendProjects.Workflow
