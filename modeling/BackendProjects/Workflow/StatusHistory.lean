import BackendProjects.Workflow.Lifecycle

/-! The sequence of committed statuses: it follows the state machine as long as nobody commits
a transition that was checked on an outdated copy. -/
namespace BackendProjects.Workflow
open Library

def Proc.copy? : Proc → Option WorkflowExecution
  | .loaded mem | .driving mem _ | .cancelLoaded mem | .retryLoaded mem => some mem
  | _ => none

def Proc.Passes : Proc → Prop
  | .loaded mem => mem.status.canTransitionTo .running
  | .driving mem _ => mem.status.canTransitionTo .completed ∨ mem.status.canTransitionTo .failed
  | .cancelLoaded mem => mem.status.canTransitionTo .cancelled
  | .retryLoaded mem => mem.status.canTransitionTo .pending
  | _ => False

/-- Who commits a new status has a copy on which the status is still the committed one. -/
def Fresh (c c' : Lifecycle) : Prop :=
  ∀ p mem cur, (c.proc p).copy? = some mem → (c.proc p).Passes → c'.proc p ≠ c.proc p →
    c'.commits ≠ c.commits → c.row = some cur → cur.status = mem.status

/-- The list of commits ends in the row, follows the state machine, and stops at a final status. -/
structure Recorded (c : Lifecycle) : Prop where
  latest : c.commits.head? = c.row.map (·.status)
  visible : c.row ≠ none → c.trigger = .committed
  chain : c.commits.IsChain (fun later earlier => earlier.Moves later)
  final : ∀ status ∈ c.commits, status.validTransitions = [] → c.row.map (·.status) = some status

variable {lax : Json → Option Int} {actors : List Actor} {c c' : Lifecycle}
  {definition : Schemas.WorkflowDefinition} {ex : WorkflowExecution} {queue : Nat}

private theorem Recorded.stored (definition : Schemas.WorkflowDefinition) (ex : WorkflowExecution) (queue : Nat) :
    Recorded (.stored definition ex queue) where
  latest := rfl
  visible := fun _ => rfl
  chain := .singleton _
  final := by simp [Lifecycle.stored]

/-- A move that commits nothing. -/
private theorem Recorded.keep (inv : Recorded c) (queue : Nat) (proc : Nat → Proc) :
    Recorded { c with queue := queue, proc := proc } := ⟨inv.latest, inv.visible, inv.chain, inv.final⟩

/-- One more status. -/
private theorem Recorded.commit (inv : Recorded c) {row cur : WorkflowExecution}
    (hrow : c.row = some cur) (h : cur.status.Moves row.status) : Recorded (c.commit row) where
  latest := rfl
  visible := fun _ => inv.visible (by simp [hrow])
  chain := by
    have hlatest := inv.latest
    have hchain := inv.chain
    rw [Lifecycle.commit_commits]
    cases hc : c.commits with
    | nil => simp [hc, hrow] at hlatest
    | cons last rest =>
      rw [hc] at hlatest hchain
      simp only [List.head?_cons, hrow, Option.map_some, Option.some.injEq] at hlatest
      exact .cons_cons (hlatest ▸ h) hchain
  final := by
    intro status hmem hfinal
    rcases List.mem_cons.mp hmem with rfl | hmem
    · rfl
    · have hcur := inv.final status hmem hfinal
      rw [hrow] at hcur
      cases hcur
      rw [Lifecycle.commit_row, Option.map_some, h.final hfinal]

/-- A session that has checked its transition on a current copy, or changes no status. -/
private theorem Recorded.writeBack (inv : Recorded c) {p : Nat} {q : Proc}
    {mem new cur : WorkflowExecution} (hp : (c.proc p).copy? = some mem) (hq : q ≠ c.proc p)
    (hrow : c.row = some cur) (fresh : Fresh c ((c.commit (mem.writeBack new cur)).put p q))
    (h : new.status = mem.status ∨ mem.status.canTransitionTo new.status ∧ (c.proc p).Passes) :
    Recorded ((c.commit (mem.writeBack new cur)).put p q) := by
  refine (inv.commit hrow ?_).keep _ _
  rw [WorkflowExecution.writeBack_status]
  rcases h with hsame | ⟨hnext, hpasses⟩
  · rw [hsame, writeBack_same]
    exact .refl _
  · have hcur : cur.status = mem.status :=
      fresh p mem cur hp hpasses (by simpa using hq) (by simp) hrow
    exact writeBack_moves hcur (.single hnext)

private theorem Recorded.step (inv : Recorded c) (fresh : Fresh c c') (h : Lifecycle.Step lax actors c c') :
    Recorded c' := by
  obtain ⟨a, _, h⟩ := h
  have huncommitted (trigger : TriggerPhase) (queue : Nat) (h : c.trigger ≠ .committed) :
      Recorded { c with trigger := trigger, queue := queue } :=
    ⟨inv.latest, fun hrow => absurd (inv.visible hrow) h, inv.chain, inv.final⟩
  cases h with
  | flush h => exact huncommitted _ _ (by simp [h])
  | send h => exact huncommitted _ _ (by simp [h])
  | create input h =>
    have hrow : c.row = none := by
      by_contra hrow
      simp [inv.visible hrow] at h
    have hcommits : c.commits = [] := by simpa [hrow] using inv.latest
    exact ⟨rfl, fun _ => rfl, by simp [hcommits], by simp [hcommits]⟩
  | rollback h => exact huncommitted _ _ (by rcases h with h | h <;> simp [h])
  | receive p hp hq => exact inv.keep _ _
  | lookupNone p hp hrow => exact inv.keep _ _
  | lookup p hp hrow hdag => exact inv.keep _ _
  | lookupRaises p hp hrow hdag => exact inv.keep _ _
  | start p now hp h hrow =>
    exact inv.writeBack (by rw [hp]; rfl) (by simp [hp]) hrow fresh (Or.inr ⟨h, by rw [hp]; exact h⟩)
  | noStart p hp h => exact inv.keep _ _
  | refresh p hp hrow => exact inv.keep _ _
  | complete p now taskOutputs hp h hrow =>
    obtain ⟨hnext, hstatus⟩ := WorkflowExecution.complete_ok h
    refine inv.writeBack (by rw [hp]; rfl) (by simp [hp]) hrow fresh (Or.inr ⟨?_, ?_⟩)
    · rwa [hstatus]
    · rw [hp]
      exact Or.inl hnext
  | @fail p now mem cur own hp hrow =>
    refine inv.writeBack (by rw [hp]; rfl) (by simp [hp]) hrow fresh ?_
    refine (mem.fail_status now).imp_right (fun h => ⟨by rw [h.2]; exact h.1, ?_⟩)
    rw [hp]
    exact Or.inr h.1
  | leave p hp => exact inv.keep _ _
  | cancelLoad p hp hrow => exact inv.keep _ _
  | @cancelCommit p now mem cur hp hrow =>
    refine inv.writeBack (by rw [hp]; rfl) (by simp [hp]) hrow fresh ?_
    refine (mem.cancel_status now).imp_right (fun h => ⟨by rw [h.2]; exact h.1, ?_⟩)
    rw [hp]
    exact h.1
  | retryLoad p hp hrow => exact inv.keep _ _
  | retryRefuse p hp h => exact inv.keep _ _
  | retryCommit p hp h hrow =>
    obtain ⟨hpending, h⟩ := WorkflowExecution.retry_status h
    refine inv.writeBack (by rw [hp]; rfl) (by simp [hp]) hrow fresh ?_
    refine h.imp_right (fun h => ⟨by rw [hpending]; exact h, ?_⟩)
    rw [hp]
    exact h
  | retrySend p hp => exact inv.keep _ _
  | updateWorkflow data h => exact ⟨inv.latest, inv.visible, inv.chain, inv.final⟩

/-- As long as every new status is committed from a copy whose status is still the committed one,
the committed statuses follow the state machine, and one that is completed or cancelled stays. -/
theorem committed_statuses_move
    (run : Run (Where Fresh (Lifecycle.Step lax actors)) (.stored definition ex queue) c) :
    c.commits.IsChain (fun later earlier => earlier.Moves later) ∧
      ∀ status ∈ c.commits, status = .completed ∨ status = .cancelled →
        ∃ row, c.row = some row ∧ row.status = status := by
  have inv : Recorded c := run.invariant (fun _ _ inv h => inv.step h.1 h.2) (.stored definition ex queue)
  refine ⟨inv.chain, fun status hmem hfinal => ?_⟩
  have hrow := inv.final status hmem (by rcases hfinal with rfl | rfl <;> rfl)
  exact Option.map_eq_some_iff.mp hrow

/-! ### A worker and a cancel -/

private abbrev AllStep : Lifecycle → Lifecycle → Prop := Lifecycle.Step noLax [.worker, .cancel, .retry]

private def received : Lifecycle := (Lifecycle.stored oneDelay {} 0).put 0 .received

private def starting : WorkflowExecution := WorkflowExecution.start {} 0

private def found : Lifecycle := received.put 0 (.loaded {})

private theorem receives : AllStep (.stored oneDelay {} 1) received :=
  ⟨.worker, by decide, .receive 0 rfl Nat.one_pos⟩

private theorem finds : AllStep received found :=
  ⟨.worker, by decide, .lookup 0 rfl rfl (oneDelay_rebuilds noLax)⟩

private theorem starts : AllStep found
    ((found.commit starting).put 0 (.driving starting true)) := by
  have hloaded : found.proc 0 = .loaded {} := rfl
  have hrow : found.row = some {} := rfl
  have hstart : Lifecycle.Move noLax found .worker _ := .start 0 0 hloaded (by decide) hrow
  exact ⟨.worker, by decide, hstart⟩

/-- The worker starts the execution that it has found pending. -/
theorem committed_statuses_move_start : ∃ c : Lifecycle, c.commits = [.running, .pending] ∧
    c.commits.IsChain (fun later earlier => earlier.Moves later) := by
  have hreceives : Where Fresh AllStep (.stored oneDelay {} 1) received :=
    ⟨fun _ _ _ _ _ _ h _ => absurd rfl h, receives⟩
  have hfinds : Where Fresh AllStep received found :=
    ⟨fun _ _ _ _ _ _ h _ => absurd rfl h, finds⟩
  have hstarts : Where Fresh AllStep found
      ((found.commit starting).put 0 (.driving starting true)) := by
    refine ⟨fun p mem cur hcopy _ hmoves _ hrow => ?_, starts⟩
    by_cases hp : p = 0
    · subst hp
      cases hcopy
      cases hrow
      rfl
    · exact absurd (by simp [hp]) hmoves
  exact ⟨_, rfl, (committed_statuses_move
    (((Relation.ReflTransGen.single hreceives).tail hfinds).tail hstarts)).1⟩

/-- The worker commits its start after the cancel of the execution that it has found pending. -/
theorem committed_statuses_do_not_move : ¬ ∀ (lax : Json → Option Int) (definition : Schemas.WorkflowDefinition)
    (c : Lifecycle), Run (Lifecycle.Step lax [.worker, .cancel, .retry]) (.stored definition {} 1) c →
      c.commits.IsChain (fun later earlier => earlier.Moves later) := by
  intro h
  have hfinds : Run AllStep (.stored oneDelay {} 1) found :=
    (Relation.ReflTransGen.single receives).tail finds
  have hcancels := (hfinds.tail ⟨.cancel, by decide, .cancelLoad 1 rfl rfl⟩).tail
    ⟨.cancel, by decide, .cancelCommit 1 0 rfl rfl⟩
  have hstart : (WorkflowExecution.status {}).canTransitionTo .running := by decide
  have hchain := h _ _ _ (hcancels.tail ⟨.worker, by decide, .start 0 0 rfl hstart rfl⟩)
  exact absurd (List.isChain_cons_cons.mp hchain).1 (by decide)

end BackendProjects.Workflow
