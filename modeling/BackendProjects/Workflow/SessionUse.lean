import BackendProjects.Workflow.Generations

/-! Who is inside an operation of the one session that the coroutines of a wave share. As many of
them can be as the semaphore has permits: no lock is held around an operation. -/
namespace BackendProjects.Workflow
open Library

inductive SessionOperation where
  | refresh
  | flush
  | commit
  deriving DecidableEq

/-- The operation in which a coroutine is suspended that has gone from one place to another. -/
def sessionOperation : NodePc → NodePc → Option SessionOperation
  | .waiting, .checking => some .refresh
  | .creating, .prepared _ => some .flush
  | .looping _ _, .running _ _ => some .commit
  | .handling _ _, .attemptFailed _ _ => some .commit
  | .handling _ _, .finishing _ _ => some .commit
  | .sleeping _ _, .looping _ _ => some .commit
  | .branching _, .branching _ => some .commit
  | .branchCreating _ _, .branching _ => some .commit
  | _, _ => none

/-- A wave under way, with the operation that each coroutine is inside of. -/
structure SharedSession where
  run : RunState
  inside : TaskId → Option SessionOperation

variable (E : Engine) (answers : Answers)

/-- A coroutine of the wave goes on; the operation that it was inside of is over. -/
def SharedSession.Step (w w' : SharedSession) : Prop :=
  ∃ t now sample outcome, Legal E answers w.run (.node t now sample outcome) ∧
    step E (.node t now sample outcome) w.run = some w'.run ∧
    w'.inside = Function.update w.inside t (sessionOperation (w.run.pc t) (w'.run.pc t))

def SharedSession.Exclusive (w : SharedSession) : Prop :=
  ∀ t u, w.inside t ≠ none → w.inside u ≠ none → t = u

structure HandedOut (s : RunState) : Prop where
  main : s.main = .gathering
  wave : s.wave = E.dag.readyIds s.completed s.skipped
  pc : s.pc = fun t => if t ∈ s.wave then .waiting else .done
  sem : s.sem = E.settings.maxConcurrentTasks

variable {E answers} {s s' : RunState} {node : DAGNode} {t u : TaskId} {w w' : SharedSession}

/-! ### The permits of the semaphore -/

instance (pc : NodePc) : Decidable pc.Holds :=
  match pc with
  | .waiting | .done | .raised _ => isFalse id
  | .checking | .entering | .creating | .prepared _ | .looping _ _ | .running _ _ | .handling _ _
  | .attemptFailed _ _ | .sleeping _ _ | .finishing _ _ | .branching _ | .branchCreating _ _ =>
      isTrue trivial

def RunState.holders (s : RunState) : Finset TaskId := s.wave.toFinset.filter (fun t => (s.pc t).Holds)

private theorem RunState.holders_eq_empty (h : ∀ t, ¬ (s.pc t).Holds) : s.holders = ∅ := by
  rw [holders, Finset.filter_eq_empty_iff]
  exact fun t _ => h t

/-- A coroutine takes a permit, keeps it, or gives it back. -/
private theorem NodeMove.permit (h : NodeMove E answers node s s') :
    (¬ (s.pc node.taskId).Holds ∧ (s'.pc node.taskId).Holds ∧ s'.sem + 1 = s.sem) ∨
    (s.pc node.taskId).Holds ∧ ((s'.pc node.taskId).Holds ∧ s'.sem = s.sem ∨
      ¬ (s'.pc node.taskId).Holds ∧ s'.sem = s.sem + 1) := by
  cases h with
  | acquire hpc hsem =>
    refine Or.inl ⟨by simp [hpc, NodePc.Holds], by simp [NodePc.Holds], ?_⟩
    simp only [RunState.goto_sem, RunState.refreshed_sem]
    omega
  | cancelled hpc | settled hpc | fail hpc | finish hpc | branchDone hpc | branchThrow hpc =>
    exact Or.inr ⟨by simp [hpc, NodePc.Holds], Or.inr ⟨by simp [NodePc.Holds], rfl⟩⟩
  | throw h =>
    refine Or.inr ⟨?_, Or.inr ⟨by simp [NodePc.Holds], rfl⟩⟩
    cases h with
    | strategy hpc | taskClass hpc | handler hpc | delay _ hpc | target hpc =>
      simp [hpc, NodePc.Holds]
  | answer now hpc =>
    refine Or.inr ⟨by simp [hpc, NodePc.Holds], Or.inl ⟨?_, rfl⟩⟩
    simp only [RunState.goto_pc, Function.update_self]
    split <;> trivial
  | enter hpc | found hpc | missing hpc | create hpc | prepare hpc | «begin» _ hpc | stop hpc | call hpc
  | exhausted hpc | backOff _ hpc | again hpc | branch hpc | branchFound _ hpc | branchMissing hpc
  | branchCreate _ hpc =>
    exact Or.inr ⟨by simp [hpc, NodePc.Holds], Or.inl ⟨by simp [NodePc.Holds], rfl⟩⟩

structure Permits (E : Engine) (s : RunState) : Prop where
  idle : Idle s
  count : s.holders.card + s.sem = E.settings.maxConcurrentTasks

theorem Permits.start (E : Engine) (db : Database) : Permits E (.start E db) := by
  have hnone : (RunState.start E db).holders = ∅ := RunState.holders_eq_empty (fun t => id)
  refine ⟨.start E db, ?_⟩
  rw [hnone, Finset.card_empty, Nat.zero_add]
  rfl

theorem Permits.nodeMove (inv : Permits E s) (h : NodeMove E answers node s s') : Permits E s' := by
  refine ⟨inv.idle.nodeMove h, ?_⟩
  have hwave : node.taskId ∈ s.wave := inv.idle.mem_wave h.pc_ne_done
  have hother {t : TaskId} (ht : t ≠ node.taskId) : t ∈ s'.holders ↔ t ∈ s.holders := by
    simp [RunState.holders, h.wave, h.pc_of_ne ht]
  have hself : node.taskId ∈ s'.holders ↔ (s'.pc node.taskId).Holds := by
    simp [RunState.holders, h.wave, hwave]
  have hbefore : node.taskId ∈ s.holders ↔ (s.pc node.taskId).Holds := by
    simp [RunState.holders, hwave]
  have hcount := inv.count
  rcases h.permit with ⟨hfree, hheld, hsem⟩ | ⟨hheld, ⟨hkept, hsem⟩ | ⟨hleft, hsem⟩⟩
  · have hset : s'.holders = insert node.taskId s.holders := by
      ext t
      by_cases ht : t = node.taskId
      · simp [ht, hself, hheld]
      · simp [ht, hother ht]
    rw [hset, Finset.card_insert_of_notMem (fun hin => hfree (hbefore.mp hin))]
    omega
  · have hset : s'.holders = s.holders := by
      ext t
      by_cases ht : t = node.taskId
      · simp [ht, hself, hbefore, hheld, hkept]
      · exact hother ht
    rw [hset, hsem]
    exact hcount
  · have hset : s'.holders = s.holders.erase node.taskId := by
      ext t
      by_cases ht : t = node.taskId
      · simp [ht, hself, hleft]
      · simp [ht, hother ht]
    have hpos := Finset.card_pos.mpr ⟨_, hbefore.mpr hheld⟩
    rw [hset, Finset.card_erase_of_mem (hbefore.mpr hheld)]
    omega

/-- Where no coroutine is under way, all permits are free. -/
private theorem Permits.free (inv : Permits E s) (h : ∀ t, s.pc t = .done) :
    s.sem = E.settings.maxConcurrentTasks := by
  have hnone : s.holders = ∅ := RunState.holders_eq_empty (fun t => by rw [h]; exact id)
  simpa [hnone] using inv.count

/-- A permit is free, or a coroutine holds it. -/
theorem Permits.free_or_held (inv : Permits E s) : 0 < s.sem ∨ ∃ t, (s.pc t).Holds := by
  rcases Nat.eq_zero_or_pos s.sem with hnone | hsem
  · have hcount := inv.count
    have hpermits := E.settings.permits
    obtain ⟨t, ht⟩ := Finset.card_pos.mp (show 0 < s.holders.card by omega)
    exact Or.inr ⟨t, (Finset.mem_filter.mp ht).2⟩
  · exact Or.inl hsem

theorem Permits.mainMove (inv : Permits E s) (h : MainMove E s s') : Permits E s' := by
  refine ⟨inv.idle.mainMove h, ?_⟩
  rcases h.pc with ⟨hpc, hwave⟩ | ⟨hmain, _, _, hpc⟩
  · rw [RunState.holders, hpc, hwave, h.sem]
    exact inv.count
  · have hnone : s'.holders = ∅ := by
      refine RunState.holders_eq_empty (fun t => ?_)
      rw [hpc]
      dsimp only
      split <;> exact id
    rw [hnone, h.sem, inv.free (inv.idle.between (by rw [hmain]; rfl))]
    simp

theorem Permits.step (inv : Permits E s) (h : Step E answers s s') : Permits E s' := by
  rcases step_cases h with h | ⟨node, _, h⟩
  · exact inv.mainMove h
  · exact inv.nodeMove h

/-- Every wave of a run is handed out as `HandedOut` says. -/
theorem handedOut_of_run {db : Database} (run : Run (Step E answers) (.start E db) s) (h : MainMove E s s')
    (hmain : s'.main = .gathering) : HandedOut E s' := by
  have inv := run.invariant (fun _ _ inv h => inv.step h) (Permits.start E db)
  cases h
  case gather hskipping hready =>
    exact ⟨rfl, rfl, rfl, inv.free (inv.idle.between (by rw [hskipping]; rfl))⟩
  all_goals cases hmain

/-! ### Inside the session -/

private theorem SharedSession.Step.move (h : SharedSession.Step E answers w w') : ∃ node,
    NodeMove E answers node w.run w'.run ∧ w'.inside = Function.update w.inside node.taskId
      (sessionOperation (w.run.pc node.taskId) (w'.run.pc node.taskId)) := by
  obtain ⟨t, now, sample, outcome, legal, hstep, hinside⟩ := h
  simp only [Workflow.step] at hstep
  split at hstep
  · next node hnode =>
    obtain rfl := (E.dag.getTask_ok hnode).2
    exact ⟨node, nodeStep_move hstep (fun te input row hpc hrow => legal te input node row hpc hnode hrow),
      hinside⟩
  · cases hstep

/-- A coroutine that is suspended in an operation holds a permit. -/
theorem sessionOperation_holds {pc pc' : NodePc} (h : sessionOperation pc pc' ≠ none) : pc'.Holds := by
  unfold sessionOperation at h
  split at h <;> trivial

structure Inside (E : Engine) (w : SharedSession) : Prop where
  permits : Permits E w.run
  holds : ∀ t, w.inside t ≠ none → t ∈ w.run.holders

private theorem Inside.step (inv : Inside E w) (h : SharedSession.Step E answers w w') :
    w'.run.wave = w.run.wave ∧ Inside E w' := by
  obtain ⟨node, hmove, hinside⟩ := h.move
  refine ⟨hmove.wave, inv.permits.nodeMove hmove, fun t ht => ?_⟩
  have hwave : node.taskId ∈ w.run.wave := inv.permits.idle.mem_wave hmove.pc_ne_done
  rw [hinside] at ht
  by_cases heq : t = node.taskId
  · subst heq
    rw [Function.update_self] at ht
    simp [RunState.holders, hmove.wave, hwave, sessionOperation_holds ht]
  · rw [Function.update_of_ne heq] at ht
    have hin := inv.holds t ht
    simpa [RunState.holders, hmove.wave, hmove.pc_of_ne heq] using hin

private theorem HandedOut.inside (h : HandedOut E s) : Inside E ⟨s, fun _ => none⟩ := by
  refine ⟨⟨⟨fun t ht => ?_, fun hg => ?_⟩, ?_⟩, fun t ht => absurd rfl ht⟩
  · rw [h.pc]
    exact if_neg ht
  · rw [h.main] at hg
    cases hg
  · have hnone : s.holders = ∅ := by
      refine RunState.holders_eq_empty (fun t => ?_)
      rw [h.pc]
      dsimp only
      split <;> exact id
    rw [hnone, h.sem, Finset.card_empty, Nat.zero_add]

private theorem HandedOut.inside_run (h : HandedOut E s)
    (run : Run (SharedSession.Step E answers) ⟨s, fun _ => none⟩ w) :
    w.run.wave = s.wave ∧ Inside E w := by
  have keep : ∀ w w', (w.run.wave = s.wave ∧ Inside E w) → SharedSession.Step E answers w w' →
      w'.run.wave = s.wave ∧ Inside E w' := by
    rintro w w' ⟨hwave, inv⟩ hstep
    obtain ⟨hsame, inv'⟩ := inv.step hstep
    exact ⟨hsame.trans hwave, inv'⟩
  exact run.invariant keep ⟨rfl, h.inside⟩

/-- No more coroutines hold a permit than the semaphore has. -/
private theorem Inside.card_le (inv : Inside E w) : w.run.holders.card ≤ E.settings.maxConcurrentTasks := by
  have hcount := inv.permits.count
  omega

/-- A waiting coroutine takes a permit and refreshes the execution. -/
private theorem SharedSession.exists_acquire (E : Engine) (answers : Answers) {w : SharedSession}
    (ht : t ∈ E.dag.graph.nodes) (hpc : w.run.pc t = .waiting) (hsem : 0 < w.run.sem) :
    ∃ w', SharedSession.Step E answers w w' ∧ w'.run.sem = w.run.sem - 1 ∧
      w'.run.pc = Function.update w.run.pc t .checking ∧
      w'.inside = Function.update w.inside t (some .refresh) := by
  obtain ⟨node, hnode⟩ := E.dag.exists_getTask ht
  obtain rfl := (E.dag.getTask_ok hnode).2
  refine ⟨⟨({ w.run with sem := w.run.sem - 1 }).refreshed.goto node.taskId .checking,
    Function.update w.inside node.taskId (some .refresh)⟩, ⟨node.taskId, 0, 0, .timeout, ?_, ?_, ?_⟩,
    rfl, rfl, rfl⟩
  · intro te input _ _ hhandling
    rw [hpc] at hhandling
    cases hhandling
  · simp only [Workflow.step, hnode, nodeStep, hpc, if_pos hsem]
  · simp [hpc, sessionOperation]

/-- With two permits, two coroutines of a wave refresh the execution at the same time. -/
private theorem HandedOut.exists_shared (h : HandedOut E s) (answers : Answers)
    (hpermits : 1 < E.settings.maxConcurrentTasks) (hlen : 1 < s.wave.length) :
    ∃ w, Run (SharedSession.Step E answers) ⟨s, fun _ => none⟩ w ∧ ¬ w.Exclusive := by
  obtain ⟨t, u, rest, hwave⟩ : ∃ t u rest, s.wave = t :: u :: rest := by
    match hs : s.wave, hlen with
    | t :: u :: rest, _ => exact ⟨t, u, rest, rfl⟩
  have hne : t ≠ u := by
    have hnodup := E.dag.readyIds_nodup s.completed s.skipped
    rw [← h.wave, hwave] at hnodup
    simp only [List.nodup_cons, List.mem_cons, not_or] at hnodup
    exact hnodup.1.1
  have hnode {v : TaskId} (hv : v ∈ s.wave) : v ∈ E.dag.graph.nodes :=
    (E.dag.mem_readyIds.mp (h.wave ▸ hv)).1
  have ht : t ∈ s.wave := by simp [hwave]
  have hu : u ∈ s.wave := by simp [hwave]
  obtain ⟨w, hw, hsem, hpc, hinside⟩ := SharedSession.exists_acquire E answers
    (w := ⟨s, fun _ => none⟩) (hnode ht) (by simp [h.pc, ht]) (by simp only [h.sem]; omega)
  obtain ⟨w', hw', _, _, hinside'⟩ := SharedSession.exists_acquire E answers
    (w := w) (hnode hu) (by simp [hpc, h.pc, hu, hne.symm]) (by simp only [hsem, h.sem]; omega)
  refine ⟨w', .tail (.single hw) hw', fun hexclusive => hne (hexclusive t u ?_ ?_)⟩
  · simp [hinside', hinside, hne]
  · simp [hinside']

/-- The coroutines of a wave keep out of each other's operations exactly when the semaphore lets one
of them in at a time, or there is only one. -/
theorem session_is_exclusive_iff (E : Engine) (answers : Answers) {s : RunState} (h : HandedOut E s) :
    (∀ w, Run (SharedSession.Step E answers) ⟨s, fun _ => none⟩ w → w.Exclusive) ↔
      E.settings.maxConcurrentTasks = 1 ∨ s.wave.length ≤ 1 := by
  constructor
  · intro hall
    by_contra hnot
    rw [not_or] at hnot
    have hpermits := E.settings.permits
    obtain ⟨w, run, hshared⟩ := h.exists_shared answers (by omega) (by omega)
    exact hshared (hall w run)
  · intro hone w run t u ht hu
    obtain ⟨hwave, inv⟩ := h.inside_run run
    have hcard : w.run.holders.card ≤ 1 := by
      rcases hone with hone | hone
      · exact hone ▸ inv.card_le
      · refine (Finset.card_filter_le _ _).trans ((List.toFinset_card_le _).trans ?_)
        rw [hwave]
        exact hone
    exact Finset.card_le_one.mp hcard t (inv.holds t ht) u (inv.holds u hu)

/-! ### Two delays at the same time -/

def pairDefinition : DagDefinition where
  tasks := [⟨"a", "delay", "A", [], none, none⟩, ⟨"b", "delay", "B", [], none, none⟩]

def pairEngine : Engine where
  settings := settings
  reading := .repaired
  strOf := fun _ => ""
  dag := .ofAccepted pairDefinition (by decide)

private def aboutToGather (s : RunState) : Bool :=
  s.main = .skipping [] ∧ pairEngine.dag.readyIds s.completed s.skipped = ["a", "b"]

private theorem exists_handedOut : ∃ s,
    Run (Step pairEngine anyAnswer) (.start pairEngine (freshRows none)) s ∧
    HandedOut pairEngine s ∧ s.wave = ["a", "b"] := by
  obtain ⟨s, run, hs⟩ := exists_run pairEngine anyAnswer (body 5) (.start pairEngine (freshRows none))
    aboutToGather (possible_body _ 5) (by decide +kernel)
  obtain ⟨hmain, hready⟩ := of_decide_eq_true hs
  have hstep : mainStep pairEngine 0 s = some { s with
      main := .gathering
      wave := pairEngine.dag.readyIds s.completed s.skipped
      pc := fun t => if t ∈ pairEngine.dag.readyIds s.completed s.skipped then .waiting else .done } := by
    simp only [mainStep, hmain]
    rw [if_neg (by simp [hready])]
  exact ⟨_, run.tail ⟨.main 0, trivial, hstep⟩, handedOut_of_run run (mainStep_move hstep) rfl, hready⟩

theorem session_is_exclusive_iff_pair : ∃ s, HandedOut pairEngine s ∧
    ((∀ w, Run (SharedSession.Step pairEngine anyAnswer) ⟨s, fun _ => none⟩ w → w.Exclusive) ↔
      pairEngine.settings.maxConcurrentTasks = 1 ∨ s.wave.length ≤ 1) := by
  obtain ⟨s, _, handed, _⟩ := exists_handedOut
  exact ⟨s, handed, session_is_exclusive_iff pairEngine anyAnswer handed⟩

theorem pair_shares_the_session : ¬ ∀ s w,
    Run (Step pairEngine anyAnswer) (.start pairEngine (freshRows none)) s → HandedOut pairEngine s →
    Run (SharedSession.Step pairEngine anyAnswer) ⟨s, fun _ => none⟩ w → w.Exclusive := by
  intro hall
  obtain ⟨s, run, handed, hwave⟩ := exists_handedOut
  obtain ⟨w, hw, hshared⟩ := handed.exists_shared anyAnswer (by decide) (by simp [hwave])
  exact hshared (hall s w run handed hw)

end BackendProjects.Workflow
