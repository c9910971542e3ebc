import BackendProjects.Workflow.Lifecycle

/-! Whether every pending execution is being taken care of: its message is sent before its row
can be seen, and a worker that finds no row gives the message up. -/
namespace BackendProjects.Workflow
open Library

def TriggerPhase.UnderWay : TriggerPhase → Prop
  | .flushed | .sent => True
  | _ => False

def Proc.UnderWay : Proc → Prop
  | .received | .loaded _ | .driving _ _ | .retryCommitted => True
  | _ => False

structure Lost (c : Lifecycle) : Prop where
  pending : ∃ ex, c.row = some ex ∧ ex.status = .pending
  silent : c.queue = 0
  trigger : ¬ c.trigger.UnderWay
  procs : ∀ p, ¬ (c.proc p).UnderWay

/-- A worker looks the row up when it is committed, or will never be, and what it finds pending it can
start: the stored definition is one that the DAG can be rebuilt from. -/
def FindsRow (lax : Json → Option Int) (c c' : Lifecycle) : Prop :=
  ∀ p, c.proc p = .received → c'.proc p ≠ .received → c.trigger = .rolledBack ∨
    ∃ ex, c.row = some ex ∧ (ex.status = .pending → (c.definition.rebuild lax).isSome)

def Proc.Carries : Proc → Prop
  | .received | .retryCommitted => True
  | .loaded mem => mem.status = .pending
  | _ => False

def Carried (c : Lifecycle) : Prop := 0 < c.queue ∨ ∃ p, (c.proc p).Carries

/-- The message about a row that is not committed yet, and about one that is pending, is alive. -/
structure Delivered (c : Lifecycle) : Prop where
  visible : ∀ ex, c.row = some ex → c.trigger = .committed
  sent : c.trigger = .sent → 0 < c.queue ∨ ∃ p, c.proc p = .received
  pending : ∀ ex, c.row = some ex → ex.status = .pending → Carried c

variable {lax : Json → Option Int} {actors : List Actor} {definition : Schemas.WorkflowDefinition}
  {c c' : Lifecycle} {p : Nat} {q : Proc}

private theorem Delivered.empty : Delivered (.empty definition) :=
  ⟨nofun, nofun, nofun⟩

/-- A message stays alive where no message and no carrier is taken away. -/
private theorem Carried.put (h : Carried c) (hq : (c.proc p).Carries → q.Carries) :
    Carried (c.put p q) := by
  refine h.imp_right (fun ⟨r, hr⟩ => ⟨r, ?_⟩)
  by_cases hrp : r = p
  · subst hrp
    simpa using hq hr
  · simpa [hrp] using hr

private theorem Carried.of_put (h : q.Carries) : Carried (c.put p q) :=
  Or.inr ⟨p, by simpa using h⟩

/-- A move of one process that leaves the row alone. -/
private theorem Delivered.put (inv : Delivered c) (hp : c.proc p ≠ .received)
    (hq : (c.proc p).Carries → q.Carries) : Delivered (c.put p q) where
  visible := inv.visible
  sent := by
    intro h
    refine (inv.sent h).imp_right (fun ⟨r, hr⟩ => ⟨r, ?_⟩)
    have hrp : r ≠ p := fun heq => hp (heq ▸ hr)
    simpa [hrp] using hr
  pending := fun ex hrow hpending => (inv.pending ex hrow hpending).put hq

/-- A commit over a visible row leaves a pending one only where it was pending before, or where
the process itself will send a message. -/
private theorem Delivered.writeBack (inv : Delivered c) {mem new cur : WorkflowExecution}
    (hrow : c.row = some cur)
    (hnew : (new.status = mem.status ∨ new.status ≠ .pending) ∧ ((c.proc p).Carries → q.Carries) ∨
      new.status ≠ mem.status ∧ new.status ≠ .pending ∨ q.Carries) :
    Delivered ((c.commit (mem.writeBack new cur)).put p q) where
  visible := fun _ _ => inv.visible cur hrow
  sent := by
    intro h
    rw [Lifecycle.put_trigger, Lifecycle.commit_trigger, inv.visible cur hrow] at h
    cases h
  pending := by
    intro ex hex hpending
    cases hex
    rw [WorkflowExecution.writeBack_status] at hpending
    rcases hnew with ⟨hnew, hq⟩ | ⟨hne, hnew⟩ | hq
    · have hcur : cur.status = .pending := by
        rcases writeBack_eq_or mem.status new.status cur.status with h | h
        · rwa [h] at hpending
        rw [h] at hpending
        rcases hnew with hsame | hnew
        · rwa [← h, hsame, writeBack_same] at hpending
        · exact absurd hpending hnew
      exact (inv.pending cur hrow hcur).put hq
    · rw [writeBack_of_ne hne] at hpending
      exact absurd hpending hnew
    · exact Carried.of_put hq

private theorem no_carrier {pc : Proc} (hp : c.proc p = pc) (h : ¬ pc.Carries) :
    (c.proc p).Carries → q.Carries := fun hc => absurd (hp ▸ hc) h

private theorem Delivered.step (inv : Delivered c) (finds : FindsRow lax c c')
    (h : Lifecycle.Step lax actors c c') : Delivered c' := by
  obtain ⟨a, _, h⟩ := h
  have hinvisible (h : c.trigger ≠ .committed) (ex : WorkflowExecution) : c.row ≠ some ex :=
    fun hrow => h (inv.visible ex hrow)
  cases h with
  | flush h =>
    have hrow := hinvisible (by simp [h])
    exact ⟨fun ex h => absurd h (hrow ex), nofun, fun ex h => absurd h (hrow ex)⟩
  | send h =>
    have hrow := hinvisible (by simp [h])
    exact ⟨fun ex h => absurd h (hrow ex), fun _ => Or.inl (Nat.succ_pos _),
      fun ex h => absurd h (hrow ex)⟩
  | create input h =>
    refine ⟨fun _ _ => rfl, nofun, fun _ _ _ => ?_⟩
    exact (inv.sent h).imp_right (fun ⟨p, hp⟩ => ⟨p, by simp [hp, Proc.Carries]⟩)
  | rollback h =>
    have hrow := hinvisible (by rcases h with h | h <;> simp [h])
    exact ⟨fun ex h => absurd h (hrow ex), nofun, fun ex h => absurd h (hrow ex)⟩
  | receive p hp hq =>
    exact ⟨inv.visible, fun _ => Or.inr ⟨p, by simp⟩, fun _ _ _ => Carried.of_put trivial⟩
  | lookupNone p hp hrow =>
    have hrolled : c.trigger = .rolledBack := by
      refine (finds p hp (by simp)).resolve_right ?_
      rintro ⟨ex, hex, -⟩
      rw [hrow] at hex
      cases hex
    refine ⟨inv.visible, fun h => ?_, fun ex hex => ?_⟩
    · rw [Lifecycle.put_trigger, hrolled] at h
      cases h
    · rw [Lifecycle.put_row, hrow] at hex
      cases hex
  | @lookup p ex hp hrow hdag =>
    refine ⟨inv.visible, fun h => ?_, fun other hother hpending => ?_⟩
    · rw [Lifecycle.put_trigger, inv.visible ex hrow] at h
      cases h
    · rw [Lifecycle.put_row, hrow] at hother
      cases hother
      exact Carried.of_put hpending
  | lookupRaises p hp hrow hdag =>
    obtain ⟨ex, hex⟩ := Option.ne_none_iff_exists'.mp hrow
    refine ⟨inv.visible, fun h => ?_, fun other hother hpending => ?_⟩
    · rw [Lifecycle.put_trigger, inv.visible ex hex] at h
      cases h
    · -- A pending row is one that its worker could rebuild.
      rw [Lifecycle.put_row] at hother
      rcases finds p hp (by simp) with hrolled | ⟨found, hfound, hrebuilds⟩
      · rw [inv.visible other hother] at hrolled
        cases hrolled
      · cases hfound.symm.trans hother
        have hsome := hrebuilds hpending
        rw [hdag] at hsome
        cases hsome
  | @start p now mem cur hp h hrow =>
    have hne : (mem.start now).status ≠ mem.status := by
      intro heq
      rw [← heq] at h
      exact ExecutionState.not_canTransitionTo_self _ h
    exact inv.writeBack hrow (Or.inr (Or.inl ⟨hne, nofun⟩))
  | @noStart p mem hp h =>
    have hnot : ¬ (Proc.loaded mem).Carries := by
      intro hpending
      rw [show mem.status = .pending from hpending] at h
      exact h (by decide)
    exact inv.put (by simp [hp]) (no_carrier hp hnot)
  | refresh p hp hrow => exact inv.put (by simp [hp]) (no_carrier hp id)
  | complete p now taskOutputs hp h hrow =>
    have hstatus := (WorkflowExecution.complete_ok h).2
    exact inv.writeBack hrow (Or.inl ⟨Or.inr (by simp [hstatus]), no_carrier hp id⟩)
  | @fail p now mem cur own hp hrow =>
    refine inv.writeBack hrow (Or.inl ⟨?_, no_carrier hp id⟩)
    exact (mem.fail_status now).imp_right (fun h => by simp [h.2])
  | leave p hp => exact inv.put (by simp [hp]) (no_carrier hp id)
  | cancelLoad p hp hrow => exact inv.put (by simp [hp]) (no_carrier hp id)
  | @cancelCommit p now mem cur hp hrow =>
    refine inv.writeBack hrow (Or.inl ⟨?_, no_carrier hp id⟩)
    exact (mem.cancel_status now).imp_right (fun h => by simp [h.2])
  | retryLoad p hp hrow => exact inv.put (by simp [hp]) (no_carrier hp id)
  | retryRefuse p hp h => exact inv.put (by simp [hp]) (no_carrier hp id)
  | retryCommit p hp h hrow => exact inv.writeBack hrow (Or.inr (Or.inr trivial))
  | retrySend p hp =>
    exact ⟨inv.visible, fun _ => Or.inl (Nat.succ_pos _), fun _ _ _ => Or.inl (Nat.succ_pos _)⟩
  | updateWorkflow data h => exact ⟨inv.visible, inv.sent, inv.pending⟩

/-- No start is lost where every worker looks its row up after the commit of the trigger, and can rebuild
the DAG of what it finds pending. -/
theorem no_start_is_lost
    (run : Run (Where (FindsRow lax) (Lifecycle.Step lax actors)) (.empty definition) c) : ¬ Lost c := by
  have inv : Delivered c := run.invariant (fun _ _ inv h => inv.step h.1 h.2) .empty
  intro lost
  obtain ⟨ex, hrow, hpending⟩ := lost.pending
  rcases inv.pending ex hrow hpending with hq | ⟨p, hp⟩
  · simp [lost.silent] at hq
  · refine lost.procs p ?_
    cases hpc : c.proc p <;> simp_all [Proc.Carries, Proc.UnderWay]

/-! ### One worker -/

private def flushedOnly : Lifecycle := { Lifecycle.empty oneDelay with trigger := .flushed }

private def sentUncommitted : Lifecycle := { Lifecycle.empty oneDelay with trigger := .sent, queue := 1 }

private def receivedUncommitted : Lifecycle := { sentUncommitted with queue := 0 }.put 0 .received

private def committedReceived : Lifecycle := { receivedUncommitted.commit {} with trigger := .committed }

private abbrev OneWorker : Lifecycle → Lifecycle → Prop := Lifecycle.Step noLax [.trigger, .worker]

private theorem trigger_flushes : OneWorker (.empty oneDelay) flushedOnly := ⟨.trigger, by decide, .flush rfl⟩

private theorem trigger_sends : OneWorker flushedOnly sentUncommitted := ⟨.trigger, by decide, .send rfl⟩

private theorem worker_receives : OneWorker sentUncommitted receivedUncommitted :=
  ⟨.worker, by decide, .receive 0 rfl Nat.one_pos⟩

/-- The worker has taken the only message about the pending execution, and has found its row. -/
theorem no_start_is_lost_found : ∃ c : Lifecycle, c.row = some {} ∧ c.queue = 0 ∧ c.proc 0 = .loaded {} ∧
    ¬ Lost c := by
  have hflush : Where (FindsRow noLax) OneWorker (.empty oneDelay) flushedOnly := ⟨nofun, trigger_flushes⟩
  have hsend : Where (FindsRow noLax) OneWorker flushedOnly sentUncommitted := ⟨nofun, trigger_sends⟩
  have hreceive : Where (FindsRow noLax) OneWorker sentUncommitted receivedUncommitted :=
    ⟨nofun, worker_receives⟩
  have hcommit : Where (FindsRow noLax) OneWorker receivedUncommitted committedReceived :=
    ⟨fun _ hp h => absurd hp h, .trigger, by decide, .create none rfl⟩
  have hlookup : Where (FindsRow noLax) OneWorker committedReceived
      (committedReceived.put 0 (.loaded {})) :=
    ⟨fun _ _ _ => Or.inr ⟨_, rfl, fun _ => oneDelay_rebuilds noLax⟩, .worker, by decide,
      .lookup 0 rfl rfl (oneDelay_rebuilds noLax)⟩
  have run := (((Relation.ReflTransGen.single hflush).tail hsend).tail hreceive).tail hcommit
  exact ⟨_, rfl, rfl, rfl, no_start_is_lost (run.tail hlookup)⟩

/-- The worker's lookup comes before the commit. -/
theorem start_is_lost : ¬ ∀ (lax : Json → Option Int) (definition : Schemas.WorkflowDefinition) (c : Lifecycle),
    Run (Lifecycle.Step lax [.trigger, .worker]) (.empty definition) c → ¬ Lost c := by
  intro h
  have hsent : Run OneWorker (.empty oneDelay) sentUncommitted := .head trigger_flushes (.single trigger_sends)
  have hlookup := (hsent.tail worker_receives).tail ⟨.worker, by decide, .lookupNone 0 rfl rfl⟩
  have hcommit := hlookup.tail ⟨.trigger, by decide, .create none rfl⟩
  refine h noLax oneDelay _ hcommit ⟨⟨_, rfl, rfl⟩, rfl, id, fun p => ?_⟩
  by_cases hp : p = 0
  · subst hp
    exact id
  · simp [sentUncommitted, receivedUncommitted, Lifecycle.empty, hp, Proc.UnderWay]

end BackendProjects.Workflow
