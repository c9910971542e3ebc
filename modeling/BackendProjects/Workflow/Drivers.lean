import BackendProjects.Workflow.Lifecycle

/-! Which worker runs drive the tasks of an execution: the start guard stops none of them, so
there must never be two messages for one start. -/
namespace BackendProjects.Workflow
open Library

def Proc.Drives : Proc → Prop
  | .driving _ _ => True
  | _ => False

private theorem Proc.drives_iff {pc : Proc} : pc.Drives ↔ ∃ mem own, pc = .driving mem own := by
  cases pc <;> simp [Drives]

def Proc.Holds : Proc → Prop
  | .received | .loaded _ | .retryCommitted => True
  | _ => False

/-- A retry accepts only an execution that has come to an end, and commits before its status
changes. -/
def RetriesEnded (c c' : Lifecycle) : Prop :=
  ∀ p mem cur, c.proc p = .retryLoaded mem → c'.proc p = .retryCommitted → c.row = some cur →
    mem.status ≠ .pending ∧ cur.status = mem.status

structure Exclusive (c : Lifecycle) : Prop where
  visible : ∀ ex, c.row = some ex → c.trigger = .committed
  unsent : c.trigger = .absent ∨ c.trigger = .flushed → c.queue = 0 ∧ ∀ p, ¬ (c.proc p).Holds
  single : c.queue ≤ 1
  message : 0 < c.queue → ∀ p, ¬ (c.proc p).Holds
  holder : ∀ p r, (c.proc p).Holds → (c.proc r).Holds → p = r
  pending : 0 < c.queue ∨ (∃ p, (c.proc p).Holds) → ∀ ex, c.row = some ex → ex.status = .pending
  copy : ∀ p mem, c.proc p = .loaded mem → mem.status = .pending
  running : ∀ p mem own, c.proc p = .driving mem own →
    own = true ∧ ∃ ex, c.row = some ex ∧ ex.status = .running
  driver : ∀ p r, (c.proc p).Drives → (c.proc r).Drives → p = r

variable {lax : Json → Option Int} {definition : Schemas.WorkflowDefinition} {c c' : Lifecycle} {p : Nat}
  {q : Proc}

private theorem Exclusive.empty : Exclusive (.empty definition) where
  visible := nofun
  unsent := fun _ => ⟨rfl, fun _ => id⟩
  single := Nat.zero_le _
  message := nofun
  holder := nofun
  pending := nofun
  copy := nofun
  running := nofun
  driver := nofun

/-- A process that takes on nothing, and leaves the row alone. -/
private theorem Exclusive.put (inv : Exclusive c) (hholds : q.Holds → (c.proc p).Holds)
    (hloaded : ∀ mem, q = .loaded mem → mem.status = .pending)
    (hdrives : ∀ mem own, q = .driving mem own → ∃ mem', c.proc p = .driving mem' own) :
    Exclusive (c.put p q) := by
  have hback (r : Nat) (h : ((c.put p q).proc r).Holds) : (c.proc r).Holds := by
    rw [Lifecycle.put_proc, Function.update_apply] at h
    split at h
    · next hr => exact hr ▸ hholds h
    · exact h
  have hbackDriving (r : Nat) (mem : WorkflowExecution) (own : Bool)
      (h : (c.put p q).proc r = .driving mem own) : ∃ mem', c.proc r = .driving mem' own := by
    rw [Lifecycle.put_proc, Function.update_apply] at h
    split at h
    · next hr => exact hr ▸ hdrives mem own h
    · exact ⟨mem, h⟩
  have hbackDrives (r : Nat) (h : ((c.put p q).proc r).Drives) : (c.proc r).Drives := by
    obtain ⟨mem, own, h⟩ := Proc.drives_iff.mp h
    obtain ⟨mem', h⟩ := hbackDriving r mem own h
    exact Proc.drives_iff.mpr ⟨mem', own, h⟩
  exact {
    visible := inv.visible
    unsent := fun h => ⟨(inv.unsent h).1, fun r hr => (inv.unsent h).2 r (hback r hr)⟩
    single := inv.single
    message := fun h r hr => inv.message h r (hback r hr)
    holder := fun r r' h h' => inv.holder r r' (hback r h) (hback r' h')
    pending := fun h => inv.pending (h.imp_right (fun ⟨r, hr⟩ => ⟨r, hback r hr⟩))
    copy := by
      intro r mem h
      rw [Lifecycle.put_proc, Function.update_apply] at h
      split at h
      · exact hloaded mem h
      · exact inv.copy r mem h
    running := by
      intro r mem own h
      obtain ⟨mem', h⟩ := hbackDriving r mem own h
      exact inv.running r mem' own h
    driver := fun r r' h h' => inv.driver r r' (hbackDrives r h) (hbackDrives r' h') }

private theorem Exclusive.idle (inv : Exclusive c) {ex : WorkflowExecution} (hrow : c.row = some ex)
    (h : ex.status ≠ .pending) : c.queue = 0 ∧ ∀ p, ¬ (c.proc p).Holds := by
  refine ⟨Nat.eq_zero_of_not_pos (fun hq => ?_), fun p hp => ?_⟩
  · exact h (inv.pending (Or.inl hq) ex hrow)
  · exact h (inv.pending (Or.inr ⟨p, hp⟩) ex hrow)

private theorem Exclusive.undriven (inv : Exclusive c) {ex : WorkflowExecution} (hrow : c.row = some ex)
    (h : ex.status ≠ .running) (p : Nat) : ¬ (c.proc p).Drives := by
  intro hp
  obtain ⟨mem, own, hp⟩ := Proc.drives_iff.mp hp
  obtain ⟨_, other, hother, hrunning⟩ := inv.running p mem own hp
  rw [hrow] at hother
  cases hother
  exact h hrunning

/-- The only message comes into a worker's hands. -/
private theorem Exclusive.receive (inv : Exclusive c) (hq : 0 < c.queue) :
    Exclusive ({ c with queue := c.queue - 1 }.put p .received) := by
  have hnone := inv.message hq
  have hzero : c.queue - 1 = 0 := by
    have := inv.single
    omega
  have honly (r : Nat) (h : ((c.put p .received).proc r).Holds) : r = p := by
    rw [Lifecycle.put_proc, Function.update_apply] at h
    split at h
    · next hr => exact hr
    · exact absurd h (hnone r)
  have hundriven : ∀ r mem own, (c.put p .received).proc r = .driving mem own →
      c.proc r = .driving mem own := by
    intro r mem own h
    rw [Lifecycle.put_proc, Function.update_apply] at h
    split at h
    · cases h
    · exact h
  exact {
    visible := inv.visible
    unsent := fun h => by
      have := (inv.unsent h).1
      omega
    single := hzero.trans_le (Nat.zero_le _)
    message := fun h => absurd h (by simp [hzero])
    holder := fun r r' h h' => (honly r h).trans (honly r' h').symm
    pending := fun _ => inv.pending (Or.inl hq)
    copy := by
      intro r mem h
      rw [Lifecycle.put_proc, Function.update_apply] at h
      split at h
      · cases h
      · exact inv.copy r mem h
    running := fun r mem own h => inv.running r mem own (hundriven r mem own h)
    driver := by
      intro r r' h h'
      obtain ⟨mem, own, h⟩ := Proc.drives_iff.mp h
      obtain ⟨mem', own', h'⟩ := Proc.drives_iff.mp h'
      refine inv.driver r r' ?_ ?_
      · rw [hundriven r mem own h]
        trivial
      · rw [hundriven r' mem' own' h']
        trivial }

/-- A commit by the only process that holds a message or drives the tasks. -/
private theorem Exclusive.commit (inv : Exclusive c) {row cur : WorkflowExecution}
    (hrow : c.row = some cur) (hqueue : c.queue = 0) (hholder : ∀ r, (c.proc r).Holds → r = p)
    (hdriver : ∀ r, (c.proc r).Drives → r = p) (hholds : q.Holds → row.status = .pending)
    (hloaded : ∀ mem, q ≠ .loaded mem)
    (hdrives : ∀ mem own, q = .driving mem own → own = true ∧ row.status = .running) :
    Exclusive ((c.commit row).put p q) := by
  have htrigger := inv.visible cur hrow
  have hold (r : Nat) (h : ((c.put p q).proc r).Holds) : r = p ∧ q.Holds := by
    rw [Lifecycle.put_proc, Function.update_apply] at h
    split at h
    · next hr => exact ⟨hr, h⟩
    · next hr => exact absurd (hholder r h) hr
  have hdrive (r : Nat) (mem : WorkflowExecution) (own : Bool)
      (h : (c.put p q).proc r = .driving mem own) : r = p ∧ q = .driving mem own := by
    rw [Lifecycle.put_proc, Function.update_apply] at h
    split at h
    · next hr => exact ⟨hr, h⟩
    · next hr => exact absurd (hdriver r (by rw [h]; trivial)) hr
  exact {
    visible := fun _ _ => htrigger
    unsent := fun h => by simp [htrigger] at h
    single := hqueue.trans_le (Nat.zero_le _)
    message := fun h => by simp [hqueue] at h
    holder := fun r r' h h' => (hold r h).1.trans (hold r' h').1.symm
    pending := by
      intro h ex hex
      cases hex
      rcases h with h | ⟨r, h⟩
      · simp [hqueue] at h
      · exact hholds (hold r h).2
    copy := by
      intro r mem h
      rw [Lifecycle.put_proc, Function.update_apply] at h
      split at h
      · exact absurd h (hloaded mem)
      · next hr => exact absurd (hholder r (by rw [show c.proc r = _ from h]; trivial)) hr
    running := by
      intro r mem own h
      obtain ⟨hown, hrunning⟩ := hdrives mem own (hdrive r mem own h).2
      exact ⟨hown, row, rfl, hrunning⟩
    driver := by
      intro r r' h h'
      obtain ⟨mem, own, h⟩ := Proc.drives_iff.mp h
      obtain ⟨mem', own', h'⟩ := Proc.drives_iff.mp h'
      exact (hdrive r mem own h).1.trans (hdrive r' mem' own' h').1.symm }

/-- A driver that ends with a commit leaves nobody else behind. -/
private theorem Exclusive.finish (inv : Exclusive c) {row cur mem : WorkflowExecution} {own : Bool}
    (hp : c.proc p = .driving mem own) (hrow : c.row = some cur) :
    Exclusive ((c.commit row).put p .finished) := by
  obtain ⟨_, ex, hex, hrunning⟩ := inv.running p mem own hp
  rw [hrow] at hex
  cases hex
  obtain ⟨hqueue, hnone⟩ := inv.idle hrow (by simp [hrunning])
  exact inv.commit hrow hqueue (fun r h => absurd h (hnone r))
    (fun r h => inv.driver r p h (by rw [hp]; trivial)) nofun nofun nofun

private theorem Exclusive.step (inv : Exclusive c) (ended : RetriesEnded c c')
    (h : Lifecycle.Step lax [.trigger, .retry, .worker, .update] c c') : Exclusive c' := by
  obtain ⟨a, ha, h⟩ := h
  have hinvisible (h : c.trigger ≠ .committed) (ex : WorkflowExecution) : c.row ≠ some ex :=
    fun hrow => h (inv.visible ex hrow)
  cases h with
  | flush h =>
    exact { inv with
      visible := fun ex h' => absurd h' (hinvisible (by simp [h]) ex)
      unsent := fun _ => inv.unsent (Or.inl h) }
  | send h =>
    obtain ⟨hqueue, hnone⟩ := inv.unsent (Or.inr h)
    exact { inv with
      visible := fun ex h' => absurd h' (hinvisible (by simp [h]) ex)
      unsent := nofun
      single := by simp [hqueue]
      message := fun _ => hnone
      pending := fun _ ex h' => absurd h' (hinvisible (by simp [h]) ex) }
  | create input h =>
    have hrow := hinvisible (by simp [h])
    exact { inv with
      visible := fun _ _ => rfl
      unsent := nofun
      pending := by
        intro _ ex hex
        cases hex
        rfl
      running := by
        intro p mem own hp
        obtain ⟨_, ex, hex, _⟩ := inv.running p mem own hp
        exact absurd hex (hrow ex) }
  | rollback h =>
    exact { inv with
      visible := fun ex h' => absurd h' (hinvisible (by rcases h with h | h <;> simp [h]) ex)
      unsent := nofun }
  | receive p hp hq => exact inv.receive hq
  | lookupNone p hp hrow => exact inv.put nofun nofun nofun
  | @lookup p ex hp hrow hdag =>
    refine inv.put (fun _ => by rw [hp]; trivial) ?_ nofun
    intro mem hmem
    cases hmem
    exact inv.pending (Or.inr ⟨p, by rw [hp]; trivial⟩) ex hrow
  | lookupRaises p hp hrow hdag => exact inv.put nofun nofun nofun
  | @start p now mem cur hp h hrow =>
    have hholds : (c.proc p).Holds := by
      rw [hp]
      trivial
    have hpending := inv.pending (Or.inr ⟨p, hholds⟩) cur hrow
    refine inv.commit hrow ?_ (fun r h => inv.holder r p h hholds) ?_ nofun nofun ?_
    · exact Nat.eq_zero_of_not_pos (fun hq => inv.message hq p hholds)
    · exact fun r h => absurd h (inv.undriven hrow (by simp [hpending]) r)
    · intro mem' own hdriving
      cases hdriving
      refine ⟨by simp [hpending], ?_⟩
      simp [inv.copy p mem hp, hpending, WorkflowExecution.start]
  | @noStart p mem hp h =>
    rw [inv.copy p mem hp] at h
    exact absurd (by decide) h
  | @refresh p mem cur own hp hrow =>
    refine inv.put nofun nofun ?_
    intro mem' own' hdriving
    cases hdriving
    exact ⟨mem, hp⟩
  | complete p now taskOutputs hp h hrow => exact inv.finish hp hrow
  | fail p now hp hrow => exact inv.finish hp hrow
  | leave p hp => exact inv.put nofun nofun nofun
  | cancelLoad p hp hrow => simp at ha
  | cancelCommit p now hp hrow => simp at ha
  | retryLoad p hp hrow => exact inv.put nofun nofun nofun
  | retryRefuse p hp h => exact inv.put nofun nofun nofun
  | @retryCommit p mem new cur hp h hrow =>
    obtain ⟨hne, hcur⟩ := ended p mem cur hp (by simp) hrow
    obtain ⟨hnew, hsame | hnext⟩ := WorkflowExecution.retry_status h
    · exact absurd (hsame.symm.trans hnew) hne
    have hleft : cur.status ≠ .pending ∧ cur.status ≠ .running := by
      rw [hcur]
      constructor <;> intro hs <;> rw [hs] at hnext <;> exact absurd hnext (by decide)
    obtain ⟨hqueue, hnone⟩ := inv.idle hrow hleft.1
    refine inv.commit hrow hqueue (fun r h => absurd h (hnone r)) ?_ (fun _ => ?_) nofun nofun
    · exact fun r h => absurd h (inv.undriven hrow hleft.2 r)
    · simp [hcur, hnew]
  | @retrySend p hp =>
    have hholds : (c.proc p).Holds := by
      rw [hp]
      trivial
    have hqueue : c.queue = 0 := Nat.eq_zero_of_not_pos (fun hq => inv.message hq p hholds)
    have hput : Exclusive (c.put p .finished) := inv.put nofun nofun nofun
    exact { hput with
      unsent := fun h => absurd hholds ((inv.unsent h).2 p)
      single := by simp [hqueue]
      message := by
        intro _ r h
        rw [Lifecycle.put_proc, Function.update_apply] at h
        split at h
        · exact h
        · next hr => exact hr (inv.holder r p h hholds)
      pending := fun _ => inv.pending (Or.inr ⟨p, hholds⟩) }
  | updateWorkflow data h => exact { inv with }

/-- Where a retry accepts only what has come to an end and commits before the status changes, a
worker run drives the tasks only after its own transition from pending to running, and no two
drive them at the same time. -/
theorem one_run_drives (run : Run (Where RetriesEnded (Lifecycle.Step lax [.trigger, .retry, .worker, .update]))
    (.empty definition) c) :
    (∀ p mem own, c.proc p = .driving mem own → own = true) ∧
      ∀ p r, (c.proc p).Drives → (c.proc r).Drives → p = r := by
  have inv : Exclusive c := run.invariant (fun _ _ inv h => inv.step h.1 h.2) .empty
  exact ⟨fun p mem own h => (inv.running p mem own h).1, inv.driver⟩

/-! ### One message, and a retry of a pending execution -/

private abbrev Moves : Lifecycle → Lifecycle → Prop := Lifecycle.Step noLax [.trigger, .retry, .worker, .update]

private def flushedTask : Lifecycle := { Lifecycle.empty oneDelay with trigger := .flushed }

private def sentTask : Lifecycle := { Lifecycle.empty oneDelay with trigger := .sent, queue := 1 }

private def triggered : Lifecycle := { sentTask.commit {} with trigger := .committed }

private def Calm (c : Lifecycle) : Prop := ∀ p, c.proc p ≠ .retryCommitted

private theorem Calm.put (h : Calm c) (hq : q ≠ .retryCommitted) : Calm (c.put p q) := by
  intro r
  rw [Lifecycle.put_proc, Function.update_apply]
  split
  · exact hq
  · exact h r

private structure Attained (c : Lifecycle) : Prop where
  run : Run (Where RetriesEnded Moves) (.empty oneDelay) c
  calm : Calm c

private theorem Attained.move (h : Attained c) (step : Moves c c') (calm : Calm c') : Attained c' where
  run := h.run.tail ⟨fun p _ _ _ hp => absurd hp (calm p), step⟩
  calm := calm

/-- A retry of what has come to an end, up to its message. -/
private theorem Attained.retry (h : Attained c) {ex new : WorkflowExecution} (p : Nat)
    (hp : c.proc p = .retryLoaded ex) (others : ∀ r mem, r ≠ p → c.proc r ≠ .retryLoaded mem)
    (hrow : c.row = some ex) (hended : ex.status ≠ .pending) (hnew : ex.retry = some new) :
    Attained ({ (c.commit (ex.writeBack new ex)).put p .retryCommitted with queue := c.queue + 1 }.put p
      .finished) := by
  have hcommit : Where RetriesEnded Moves c ((c.commit (ex.writeBack new ex)).put p .retryCommitted) := by
    refine ⟨fun r mem cur hr _ hcur => ?_, .retry, by decide, .retryCommit p hp hnew hrow⟩
    by_cases hne : r = p
    · subst hne
      cases hp.symm.trans hr
      cases hrow.symm.trans hcur
      exact ⟨hended, rfl⟩
    · exact absurd hr (others r mem hne)
  have hcalm : Calm ({ (c.commit (ex.writeBack new ex)).put p .retryCommitted with queue := c.queue + 1 }.put p
      .finished) := by
    intro r
    by_cases hr : r = p
    · simp [hr]
    · simpa [hr] using h.calm r
  exact ⟨(h.run.tail hcommit).tail ⟨fun r _ _ _ hr => absurd hr (hcalm r), .retry, by decide,
    .retrySend p (by simp)⟩, hcalm⟩

private theorem triggered_reached : Attained triggered := by
  have hempty : Attained (.empty oneDelay) := ⟨.refl, nofun⟩
  have hflushed : Attained flushedTask := hempty.move ⟨.trigger, by decide, .flush rfl⟩ nofun
  have hsent : Attained sentTask := hflushed.move ⟨.trigger, by decide, .send rfl⟩ nofun
  exact hsent.move ⟨.trigger, by decide, .create none rfl⟩ nofun

/-- The worker that has started the execution fails it, a retry sends a second message, and the worker
that takes this one drives the tasks alone. -/
theorem one_run_drives_retried : ∃ c : Lifecycle, c.commits = [.running, .pending, .failed, .running, .pending] ∧
    (∃ mem, c.proc 2 = .driving mem true) ∧ ∀ r, (c.proc r).Drives → 2 = r := by
  have hpending : (WorkflowExecution.status {}).canTransitionTo .running := by decide
  have hreceived := triggered_reached.move ⟨.worker, by decide, .receive 0 rfl Nat.one_pos⟩
    (.put triggered_reached.calm nofun)
  have hloaded := hreceived.move ⟨.worker, by decide, .lookup 0 rfl rfl (oneDelay_rebuilds noLax)⟩
    (.put hreceived.calm nofun)
  have hstarted := hloaded.move ⟨.worker, by decide, .start 0 0 rfl hpending rfl⟩ (.put hloaded.calm nofun)
  have hfailed := hstarted.move ⟨.worker, by decide, .fail 0 1 rfl rfl⟩ (.put hstarted.calm nofun)
  have hretry := hfailed.move ⟨.retry, by decide, .retryLoad 1 rfl rfl⟩ (.put hfailed.calm nofun)
  have hsent := hretry.retry 1 rfl (fun p mem hp => ?_) rfl (by decide) rfl
  · have hagain := hsent.move ⟨.worker, by decide, .receive 2 rfl Nat.one_pos⟩ (.put hsent.calm nofun)
    have hfound := hagain.move ⟨.worker, by decide, .lookup 2 rfl rfl (oneDelay_rebuilds noLax)⟩
      (.put hagain.calm nofun)
    have hdrives := hfound.move ⟨.worker, by decide, .start 2 2 rfl (by decide) rfl⟩ (.put hfound.calm nofun)
    exact ⟨_, rfl, ⟨_, rfl⟩, fun r hr => (one_run_drives hdrives.run).2 2 r trivial hr⟩
  · by_cases hp0 : p = 0 <;> simp [hp, hp0, triggered, sentTask, Lifecycle.empty]

/-- A retry sends a second message about the pending execution, and the worker that takes it
finds the execution running and drives its tasks too. -/
theorem two_runs_drive : ¬ ∀ (lax : Json → Option Int) (definition : Schemas.WorkflowDefinition) (c : Lifecycle),
    Run (Lifecycle.Step lax [.trigger, .retry, .worker, .update]) (.empty definition) c →
    (∀ p mem own, c.proc p = .driving mem own → own = true) ∧
      ∀ p r, (c.proc p).Drives → (c.proc r).Drives → p = r := by
  intro h
  have hretry := ((triggered_reached.run.of_where.tail ⟨.retry, by decide, .retryLoad 1 rfl rfl⟩).tail
    ⟨.retry, by decide, .retryCommit 1 rfl rfl rfl⟩).tail ⟨.retry, by decide, .retrySend 1 rfl⟩
  have hfirst := (hretry.tail ⟨.worker, by decide, .receive 0 rfl Nat.two_pos⟩).tail
    ⟨.worker, by decide, .lookup 0 rfl rfl (oneDelay_rebuilds noLax)⟩
  have hpending : (WorkflowExecution.status {}).canTransitionTo .running := by decide
  have hstart := hfirst.tail ⟨.worker, by decide, .start 0 0 rfl hpending rfl⟩
  have hsecond := (hstart.tail ⟨.worker, by decide, .receive 2 rfl Nat.one_pos⟩).tail
    ⟨.worker, by decide, .lookup 2 rfl rfl (oneDelay_rebuilds noLax)⟩
  have hrunning : ¬ (WorkflowExecution.start {} 0).status.canTransitionTo .running := by decide
  have hdrive := hsecond.tail ⟨.worker, by decide, .noStart 2 rfl hrunning⟩
  exact absurd ((h _ _ _ hdrive).2 0 2 trivial trivial) (by decide)

end BackendProjects.Workflow
