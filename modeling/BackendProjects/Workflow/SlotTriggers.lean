import BackendProjects.Workflow.Scheduler

/-! Checkers that hold the lock of a schedule see its latest row, so that each committed next_run_at is
triggered once; with checkers that die, at least once. -/
namespace BackendProjects.Workflow
open Library
variable {cron : Croniter} {i : ScheduleId} {c : CheckerId} {s s' : Scheduler}

/-- Whatever else goes on leaves a schedule's row, the locks, the queue and the checkers alone. -/
def Elsewhere (i : ScheduleId) (s s' : Scheduler) : Prop :=
  s'.rows i = s.rows i ∧ s'.locks = s.locks ∧ s'.queue = s.queue ∧ s'.checkers = s.checkers

def Checks (cron : Croniter) (i : ScheduleId) (s s' : Scheduler) : Prop :=
  CheckerStep cron s s' ∨ Elsewhere i s s'

/-- The checkers at work, which may die. -/
def MortalChecks (cron : Croniter) (i : ScheduleId) (s s' : Scheduler) : Prop :=
  Checks cron i s s' ∨ DeathStep s s'

def Checker.Sends (i : ScheduleId) : Checker → Prop
  | .checking _ sched _ (.committing loaded _) => sched = i ∧ loaded.nextRunAt ≠ none
  | _ => False

namespace Scheduler

def slots (s : Scheduler) (i : ScheduleId) : List (Option Time) :=
  (s.queue.filter (fun t => t.scheduleId = i)).map Trigger.slot

structure Resting (s : Scheduler) : Prop where
  checkers : ∀ c, s.checkers c = .idle
  queue : s.queue = []

def Sending (s : Scheduler) (i : ScheduleId) : Prop := ∃ c, (s.checkers c).Sends i

end Scheduler

/-- What holds of a checker in its section: the row is as it has loaded it, and what it commits is a
first next_run_at, or the successor of a slot that it has sent. -/
def CheckPlace.Fits (cron : Croniter) (i : ScheduleId) (now : Time) (s : Scheduler) : CheckPlace → Prop
  | .acquiring | .refreshing | .releasing => True
  | .lookingUp loaded | .enqueueing loaded =>
      s.rows i = some loaded ∧ ∃ slot ≤ now, loaded.nextRunAt = some slot
  | .committing loaded changed => s.rows i = some loaded ∧
      ((loaded.nextRunAt = none ∧ changed = loaded.scheduled cron now) ∨
        ∃ slot ≤ now, loaded.nextRunAt = some slot ∧ some slot ∈ s.slots i ∧
          changed = loaded.triggered cron now)

/-- A checker in the section of a schedule holds its lock, and what it does fits. -/
structure Guarded (cron : Croniter) (i : ScheduleId) (s : Scheduler) : Prop where
  holds : ∀ c now rest place, s.checkers c = .checking now i rest place → place ≠ .acquiring →
    s.locks i = some c
  fits : ∀ c now rest place, s.checkers c = .checking now i rest place → place.Fits cron i now s

@[simp] theorem Scheduler.slots_move (checker : Checker) : (s.move c checker).slots i = s.slots i := rfl
@[simp] theorem Scheduler.slots_lock (j : ScheduleId) (holder : Option CheckerId) :
    (s.lock j holder).slots i = s.slots i := rfl
@[simp] theorem Scheduler.slots_commit (j : ScheduleId) (loaded changed : WorkflowSchedule) :
    (s.commit j loaded changed).slots i = s.slots i := rfl

theorem Scheduler.slots_enqueue_self (loaded : WorkflowSchedule) :
    (s.enqueueWorkflowTrigger (loaded.trigger i)).slots i = s.slots i ++ [loaded.nextRunAt] := by
  simp [slots, enqueueWorkflowTrigger, WorkflowSchedule.trigger]

private theorem Scheduler.slots_enqueue_of_ne (loaded : WorkflowSchedule) {j : ScheduleId} (h : j ≠ i) :
    (s.enqueueWorkflowTrigger (loaded.trigger j)).slots i = s.slots i := by
  simp [slots, enqueueWorkflowTrigger, WorkflowSchedule.trigger, h]

private theorem CheckPlace.Fits.mono {now : Time} {place : CheckPlace} (h : place.Fits cron i now s)
    (hrow : s'.rows i = s.rows i) (hslots : s.slots i ⊆ s'.slots i) : place.Fits cron i now s' := by
  cases place with
  | acquiring | refreshing | releasing => trivial
  | lookingUp loaded | enqueueing loaded => exact ⟨hrow ▸ h.1, h.2⟩
  | committing loaded changed =>
    refine ⟨hrow ▸ h.1, h.2.imp_right ?_⟩
    rintro ⟨slot, hdue, hnext, hsent, hchanged⟩
    exact ⟨slot, hdue, hnext, hslots hsent, hchanged⟩

/-- One checker moves; it may touch the row and the lock only if nobody else has the lock. -/
private theorem Guarded.moved (inv : Guarded cron i s) (others : ∀ c' ≠ c, s'.checkers c' = s.checkers c')
    (alone : (s'.rows i = s.rows i ∧ s'.locks i = s.locks i) ∨ ∀ c' ≠ c, s.locks i ≠ some c')
    (hslots : s.slots i ⊆ s'.slots i)
    (self : ∀ now rest place, s'.checkers c = .checking now i rest place →
      (place ≠ .acquiring → s'.locks i = some c) ∧ place.Fits cron i now s') : Guarded cron i s' := by
  refine ⟨fun c' now rest place hc' hplace => ?_, fun c' now rest place hc' => ?_⟩
  · by_cases hne : c' = c
    · subst hne
      exact (self now rest place hc').1 hplace
    · rw [others c' hne] at hc'
      have hlock := inv.holds c' now rest place hc' hplace
      rcases alone with ⟨_, hsame⟩ | halone
      · rw [hsame, hlock]
      · exact absurd hlock (halone c' hne)
  · by_cases hne : c' = c
    · subst hne
      exact (self now rest place hc').2
    · rw [others c' hne] at hc'
      by_cases hplace : place = .acquiring
      · subst hplace
        trivial
      · rcases alone with ⟨hsame, _⟩ | halone
        · exact (inv.fits c' now rest place hc').mono hsame hslots
        · exact absurd (inv.holds c' now rest place hc' hplace) (halone c' hne)

theorem Scheduler.Resting.guarded (h : s.Resting) : Guarded cron i s := by
  constructor <;>
    (intro c now rest place hc
     rw [h.checkers c] at hc
     cases hc)

/-- A checker whose new state is not in the section of the schedule. -/
private theorem Guarded.leaves (inv : Guarded cron i s) (others : ∀ c' ≠ c, s'.checkers c' = s.checkers c')
    (alone : (s'.rows i = s.rows i ∧ s'.locks i = s.locks i) ∨ ∀ c' ≠ c, s.locks i ≠ some c')
    (hslots : s.slots i ⊆ s'.slots i)
    (out : ∀ now rest place, s'.checkers c = .checking now i rest place → place = .acquiring) :
    Guarded cron i s' := by
  refine inv.moved others alone hslots (fun now rest place hc => ?_)
  obtain rfl := out now rest place hc
  exact ⟨fun h => absurd rfl h, trivial⟩

/-- A checker that has the lock goes on to a place whose demands are met. -/
private theorem Guarded.goes (inv : Guarded cron i s) {now : Time} {rest : List ScheduleId} {place : CheckPlace}
    (hlock : s.locks i = some c) (fits : place.Fits cron i now s) :
    Guarded cron i (s.move c (.checking now i rest place)) := by
  have others : ∀ c' ≠ c, (s.move c (.checking now i rest place)).checkers c' = s.checkers c' :=
    fun c' hc' => Scheduler.move_of_ne s c _ hc'
  refine inv.moved others (Or.inl ⟨rfl, rfl⟩) (by simp) (fun now' rest' place' hnew => ?_)
  rw [Scheduler.move_self] at hnew
  cases hnew
  exact ⟨fun _ => hlock, fits.mono rfl (by simp)⟩

/-- The row, the lock and the slots of a schedule do not notice a checker of another one. -/
theorem CheckMove.elsewhere {now : Time} {j : ScheduleId} {rest : List ScheduleId} {place : CheckPlace}
    (h : CheckMove cron c now j s rest place s') (hne : i ≠ j) :
    s'.rows i = s.rows i ∧ s'.locks i = s.locks i ∧ s'.slots i = s.slots i := by
  cases h <;> simp [hne, Scheduler.slots_enqueue_of_ne, hne.symm]

private theorem Guarded.move_elsewhere (inv : Guarded cron i s) {now : Time} {j : ScheduleId}
    {rest : List ScheduleId}
    {place : CheckPlace} (h : CheckMove cron c now j s rest place s') (hne : i ≠ j) :
    Guarded cron i s' := by
  obtain ⟨hrow, hlock, hslots⟩ := h.elsewhere hne
  refine inv.leaves h.checkers_of_ne (Or.inl ⟨hrow, hlock⟩) (by simp [hslots]) (fun now' rest' place' hc => ?_)
  cases h <;> rw [Scheduler.move_self] at hc
  case refuse | release => exact Checker.next_acquiring hc
  all_goals
    cases hc
    exact absurd rfl hne

private theorem WorkflowSchedule.refreshed_fits {row : WorkflowSchedule} {now : Time} (h : s.rows i = some row) :
    (row.refreshed cron now).Fits cron i now s := by
  unfold refreshed
  split
  · split
    · next hnext => exact ⟨h, Or.inl ⟨hnext, rfl⟩⟩
    · next slot hnext =>
      split
      · trivial
      · next hdue => exact ⟨h, slot, Nat.le_of_not_lt hdue, hnext⟩
  · trivial

private theorem Guarded.move_here (inv : Guarded cron i s) {now : Time} {rest : List ScheduleId}
    {place : CheckPlace}
    (hc : s.checkers c = .checking now i rest place) (h : CheckMove cron c now i s rest place s') :
    Guarded cron i s' := by
  have others := h.checkers_of_ne
  have hlock := inv.holds c now rest place hc
  have hfits := inv.fits c now rest place hc
  have alone (hplace : place ≠ .acquiring) : ∀ c' ≠ c, s.locks i ≠ some c' := by
    intro c' hne heq
    exact hne (Option.some.inj ((heq.symm.trans (hlock hplace))))
  cases h with
  | acquire free =>
    refine inv.moved others (Or.inr (fun c' _ => by simp [free])) (by simp) (fun now' rest' place' hnew => ?_)
    rw [Scheduler.move_self] at hnew
    cases hnew
    exact ⟨fun _ => by simp, trivial⟩
  | refuse taken =>
    refine inv.leaves others (Or.inl ⟨rfl, rfl⟩) (by simp) (fun now' rest' place' hnew => ?_)
    rw [Scheduler.move_self] at hnew
    exact Checker.next_acquiring hnew
  | vanish gone => exact inv.goes (hlock (by simp)) trivial
  | refresh row read => exact inv.goes (hlock (by simp)) (WorkflowSchedule.refreshed_fits read)
  | found loaded active => exact inv.goes (hlock (by simp)) hfits
  | missing loaded inactive => exact inv.goes (hlock (by simp)) trivial
  | enqueue loaded =>
    refine inv.moved others (Or.inl ⟨rfl, rfl⟩) (by simp [Scheduler.slots_enqueue_self])
      (fun now' rest' place' hnew => ?_)
    rw [Scheduler.move_self] at hnew
    cases hnew
    obtain ⟨hrow, slot, hdue, hnext⟩ := hfits
    refine ⟨fun _ => hlock (by simp), hrow, Or.inr ⟨slot, hdue, hnext, ?_, rfl⟩⟩
    simp [Scheduler.slots_enqueue_self, hnext]
  | commit loaded changed =>
    refine inv.moved others (Or.inr (alone (by simp))) (by simp) (fun now' rest' place' hnew => ?_)
    rw [Scheduler.move_self] at hnew
    cases hnew
    exact ⟨fun _ => hlock (by simp), trivial⟩
  | release =>
    refine inv.leaves others (Or.inr (alone (by simp))) (by simp) (fun now' rest' place' hnew => ?_)
    rw [Scheduler.move_self] at hnew
    exact Checker.next_acquiring hnew

private theorem Guarded.checkerStep (inv : Guarded cron i s) (h : CheckerStep cron s s') : Guarded cron i s' := by
  cases h with
  | begin c now ids idle nodup active =>
    refine inv.leaves (c := c) (fun c' hne => by simp [hne]) (Or.inl ⟨rfl, rfl⟩) (by simp)
      (fun now' rest' place' hnew => ?_)
    rw [Scheduler.move_self] at hnew
    exact Checker.next_acquiring hnew
  | proceed c s' h =>
    obtain ⟨now, j, rest, place, hc, hmove⟩ := checkStep_move h
    by_cases hne : i = j
    · subst hne
      exact inv.move_here hc hmove
    · exact inv.move_elsewhere hmove hne
  | raises c now j rest place hc raise =>
    refine inv.moved (c := c) (fun c' hne => by simp [hne]) (Or.inl ⟨rfl, rfl⟩) (by simp)
      (fun now' rest' place' hnew => ?_)
    rw [Scheduler.move_self] at hnew
    cases hnew
    refine ⟨fun _ => inv.holds c now rest place hc ?_, trivial⟩
    rintro rfl
    exact raise

private theorem Guarded.elsewhere (inv : Guarded cron i s) (h : Elsewhere i s s') : Guarded cron i s' := by
  obtain ⟨hrow, hlocks, hqueue, hcheckers⟩ := h
  have hslots : s'.slots i = s.slots i := by rw [Scheduler.slots, Scheduler.slots, hqueue]
  refine ⟨fun c now rest place hc hplace => ?_, fun c now rest place hc => ?_⟩
  · rw [hlocks]
    exact inv.holds c now rest place (hcheckers ▸ hc) hplace
  · exact (inv.fits c now rest place (hcheckers ▸ hc)).mono hrow (by rw [hslots]; exact fun _ h => h)

/-- A dead checker has no place in the section, and its lock goes only once it is dead. -/
theorem Guarded.deathStep (inv : Guarded cron i s) (h : DeathStep s s') : Guarded cron i s' := by
  cases h with
  | die c =>
    refine inv.leaves (c := c) (fun c' hne => by simp [hne]) (Or.inl ⟨rfl, rfl⟩) (by simp)
      (fun now' rest' place' hnew => ?_)
    rw [Scheduler.move_self] at hnew
    cases hnew
  | expire j c held dead =>
    refine inv.leaves (c := c) (fun c' hne => rfl) ?_ (by simp) (fun now' rest' place' hnew => ?_)
    · by_cases hj : i = j
      · subst hj
        exact Or.inr (fun c' hne heq => hne (Option.some.inj (heq.symm.trans held)))
      · exact Or.inl ⟨rfl, by simp [hj]⟩
    · rw [Scheduler.lock_checkers, dead] at hnew
      cases hnew

/-! ### What a step does to one schedule -/

/-- The effects of a step on a schedule's row and on what was sent of it. -/
inductive Effect (cron : Croniter) (i : ScheduleId) (s s' : Scheduler) : Prop
  | keeps (row : s'.rows i = s.rows i) (slots : s'.slots i = s.slots i)
      (sending : s'.Sending i ↔ s.Sending i)
  | sends (row : WorkflowSchedule) (slot : Time) (hrow : s.rows i = some row)
      (hnext : row.nextRunAt = some slot) (same : s'.rows i = s.rows i)
      (slots : s'.slots i = s.slots i ++ [some slot]) (before : ¬ s.Sending i) (after : s'.Sending i)
  | starts (row : WorkflowSchedule) (now : Time) (hrow : s.rows i = some row) (hnext : row.nextRunAt = none)
      (new : s'.rows i = some (row.scheduled cron now)) (slots : s'.slots i = s.slots i)
      (before : ¬ s.Sending i) (after : ¬ s'.Sending i)
  | commits (row : WorkflowSchedule) (now slot : Time) (hrow : s.rows i = some row)
      (hnext : row.nextRunAt = some slot) (due : slot ≤ now) (sent : some slot ∈ s.slots i)
      (new : s'.rows i = some (row.triggered cron now)) (slots : s'.slots i = s.slots i)
      (before : s.Sending i) (after : ¬ s'.Sending i)

private theorem Checker.not_next_sends {now : Time} {ids : List ScheduleId} : ¬
    (Checker.next now ids).Sends i := by
  cases ids <;> exact id

private theorem Checker.not_sends_elsewhere {now : Time} {j : ScheduleId} {rest : List ScheduleId}
    {place : CheckPlace}
    (hne : i ≠ j) : ¬ (Checker.checking now j rest place).Sends i := by
  cases place with
  | committing loaded changed => exact fun h => hne h.1.symm
  | _ => exact id

/-- A checker that sends neither before nor after its move changes nothing about who does. -/
theorem Scheduler.sending_congr (others : ∀ c' ≠ c, s'.checkers c' = s.checkers c')
    (before : ¬ (s.checkers c).Sends i) (after : ¬ (s'.checkers c).Sends i) :
    s'.Sending i ↔ s.Sending i := by
  refine exists_congr (fun c' => ?_)
  by_cases hne : c' = c
  · subst hne
    exact iff_of_false after before
  · rw [others c' hne]

/-- Only the holder of the lock can be sending. -/
theorem Guarded.sending_iff (inv : Guarded cron i s) (hlock : s.locks i = some c) :
    s.Sending i ↔ (s.checkers c).Sends i := by
  constructor
  · rintro ⟨c', hsends⟩
    have hc' : s.locks i = some c' := by
      unfold Checker.Sends at hsends
      split at hsends
      · next now j rest loaded changed hchecker =>
        obtain ⟨rfl, -⟩ := hsends
        exact inv.holds c' now rest _ hchecker (by simp)
      · exact hsends.elim
    rw [hlock, Option.some.injEq] at hc'
    exact hc' ▸ hsends
  · exact fun h => ⟨c, h⟩

private theorem Effect.elsewhere (h : Elsewhere i s s') : Effect cron i s s' := by
  obtain ⟨hrow, -, hqueue, hcheckers⟩ := h
  refine .keeps hrow ?_ ?_
  · rw [Scheduler.slots, Scheduler.slots, hqueue]
  · rw [Scheduler.Sending, Scheduler.Sending, hcheckers]

private theorem CheckMove.effect_elsewhere {now : Time} {j : ScheduleId} {rest : List ScheduleId}
    {place : CheckPlace}
    (hc : s.checkers c = .checking now j rest place) (h : CheckMove cron c now j s rest place s')
    (hne : i ≠ j) : Effect cron i s s' := by
  obtain ⟨hrow, -, hslots⟩ := h.elsewhere hne
  refine .keeps hrow hslots (Scheduler.sending_congr h.checkers_of_ne ?_ ?_)
  · rw [hc]
    exact Checker.not_sends_elsewhere hne
  · cases h <;> rw [Scheduler.move_self]
    case refuse | release => exact Checker.not_next_sends
    all_goals exact Checker.not_sends_elsewhere hne

private theorem WorkflowSchedule.refreshed_not_sends {row : WorkflowSchedule} {now : Time}
    {rest : List ScheduleId} :
    ¬ (Checker.checking now i rest (row.refreshed cron now)).Sends i := by
  unfold refreshed
  split
  · split
    · next hnext => exact fun h => h.2 hnext
    · split <;> exact id
  · exact id

private theorem Guarded.effect_here (inv : Guarded cron i s) {now : Time} {rest : List ScheduleId}
    {place : CheckPlace}
    (hc : s.checkers c = .checking now i rest place) (h : CheckMove cron c now i s rest place s') :
    Effect cron i s s' := by
  have others := h.checkers_of_ne
  have hlock := inv.holds c now rest place hc
  have hfits := inv.fits c now rest place hc
  have hlock' := (inv.move_here hc h).holds c now rest
  have quiet (before : ¬ (Checker.checking now i rest place).Sends i) (after : ¬ (s'.checkers c).Sends i) :
      s'.Sending i ↔ s.Sending i := Scheduler.sending_congr others (hc ▸ before) after
  cases h with
  | acquire free => exact .keeps rfl rfl (quiet id (by rw [Scheduler.move_self]; exact id))
  | refuse taken =>
    refine .keeps rfl rfl (quiet id ?_)
    rw [Scheduler.move_self]
    exact Checker.not_next_sends
  | vanish gone => exact .keeps rfl rfl (quiet id (by rw [Scheduler.move_self]; exact id))
  | refresh row read =>
    exact .keeps rfl rfl (quiet id (by rw [Scheduler.move_self]; exact WorkflowSchedule.refreshed_not_sends))
  | found loaded active => exact .keeps rfl rfl (quiet id (by rw [Scheduler.move_self]; exact id))
  | missing loaded inactive => exact .keeps rfl rfl (quiet id (by rw [Scheduler.move_self]; exact id))
  | release => exact .keeps rfl rfl (quiet id (by rw [Scheduler.move_self]; exact Checker.not_next_sends))
  | enqueue loaded =>
    obtain ⟨hrow, slot, hdue, hnext⟩ := hfits
    refine .sends loaded slot hrow hnext rfl ?_ ?_ ⟨c, ?_⟩
    · simp [Scheduler.slots_enqueue_self, hnext]
    · rw [inv.sending_iff (hlock (by simp)), hc]
      exact id
    · rw [Scheduler.move_self]
      exact ⟨rfl, by simp [hnext]⟩
  | commit loaded changed =>
    obtain ⟨hrow, hchanged⟩ := hfits
    have after : ¬ ((s.commit i loaded changed).move c (.checking now i rest .releasing)).Sending i := by
      rw [(inv.move_here hc (.commit rest loaded changed)).sending_iff
        (hlock' _ (Scheduler.move_self ..) (by simp)), Scheduler.move_self]
      exact id
    have before := inv.sending_iff (hlock (by simp))
    rw [hc] at before
    have hnew : ((s.commit i loaded changed).move c (.checking now i rest .releasing)).rows i =
        some (WorkflowSchedule.flush loaded changed loaded) := by simp [hrow]
    rcases hchanged with ⟨hnext, rfl⟩ | ⟨slot, hdue, hnext, hsent, rfl⟩
    · rw [WorkflowSchedule.flush_fresh _ _ (by rfl)] at hnew
      exact .starts loaded now hrow hnext hnew rfl (before.not.mpr (fun h => h.2 hnext)) after
    · rw [WorkflowSchedule.flush_fresh _ _ (by rfl)] at hnew
      exact .commits loaded now slot hrow hnext hdue hsent hnew rfl (before.mpr ⟨rfl, by simp [hnext]⟩) after

theorem Guarded.effect (inv : Guarded cron i s) (h : Checks cron i s s') : Effect cron i s s' := by
  rcases h with h | h
  · cases h with
    | begin c now ids idle nodup active =>
      refine .keeps rfl rfl (Scheduler.sending_congr (c := c) (fun c' hne => by simp [hne]) ?_ ?_)
      · rw [idle]
        exact id
      · rw [Scheduler.move_self]
        exact Checker.not_next_sends
    | proceed c s' h =>
      obtain ⟨now, j, rest, place, hc, hmove⟩ := checkStep_move h
      by_cases hne : i = j
      · subst hne
        exact inv.effect_here hc hmove
      · exact hmove.effect_elsewhere hc hne
    | raises c now j rest place hc raise =>
      refine .keeps rfl rfl (Scheduler.sending_congr (c := c) (fun c' hne => by simp [hne]) ?_ ?_)
      · rw [hc]
        unfold Checker.Sends
        split
        · next heq =>
          cases heq
          exact raise.elim
        · exact id
      · rw [Scheduler.move_self]
        exact id
  · exact .elsewhere h

theorem Guarded.step (inv : Guarded cron i s) (h : MortalChecks cron i s s') : Guarded cron i s' := by
  rcases h with (h | h) | h
  · exact inv.checkerStep h
  · exact inv.elsewhere h
  · exact inv.deathStep h

/-! ### Runs -/

private theorem DeathStep.same (h : DeathStep s s') : s'.rows i = s.rows i ∧ s'.slots i = s.slots i := by
  cases h <;> exact ⟨rfl, rfl⟩

/-- Every slot that was sent lies below the committed next_run_at, but for the one of the checker that is
sending; total_runs counts what was sent, but for that one. -/
structure Once (cron : Croniter) (i : ScheduleId) (before : Nat) (s : Scheduler) (row : WorkflowSchedule) :
    Prop where
  guarded : Guarded cron i s
  stored : s.rows i = some row
  nodup : (s.slots i).Nodup
  below : ∀ sent ∈ s.slots i, ∃ u v, sent = some u ∧ row.nextRunAt = some v ∧ u ≤ v ∧
    (u = v → s.Sending i)
  counted : ¬ s.Sending i → row.totalRuns = before + (s.slots i).length
  counting : s.Sending i → row.totalRuns + 1 = before + (s.slots i).length

private theorem Scheduler.Resting.once {row : WorkflowSchedule} (h : s.Resting) (hrow : s.rows i = some row) :
    Once cron i row.totalRuns s row := by
  have hslots : s.slots i = [] := by simp [Scheduler.slots, h.queue]
  have hquiet : ¬ s.Sending i := by
    rintro ⟨c, hc⟩
    rw [h.checkers c] at hc
    exact hc
  exact ⟨h.guarded, hrow, by simp [hslots], by simp [hslots], fun _ => by simp [hslots],
    fun h => absurd h hquiet⟩

private theorem Once.step (later : ∀ expr base, base < cron.getNext expr base) {before : Nat}
    {row : WorkflowSchedule}
    (inv : Once cron i before s row) (h : Checks cron i s s') : ∃ row', Once cron i before s' row' := by
  have hguarded := inv.guarded.step (Or.inl h)
  cases inv.guarded.effect h with
  | keeps hsame hslots hsending =>
    refine ⟨row, hguarded, hsame ▸ inv.stored, hslots ▸ inv.nodup, ?_, ?_, ?_⟩
    · rw [hslots, hsending]
      exact inv.below
    · rw [hslots, hsending]
      exact inv.counted
    · rw [hslots, hsending]
      exact inv.counting
  | sends row' slot hrow hnext hsame hslots hbefore hafter =>
    cases inv.stored.symm.trans hrow
    have hbelow : ∀ sent ∈ s.slots i, ∃ u < slot, sent = some u := by
      intro sent hsent
      obtain ⟨u, v, hu, hv, hle, hlast⟩ := inv.below sent hsent
      obtain rfl := Option.some.inj (hnext.symm.trans hv)
      exact ⟨u, lt_of_le_of_ne hle (fun heq => hbefore (hlast heq)), hu⟩
    refine ⟨row, hguarded, hsame ▸ inv.stored, ?_, fun sent hsent => ?_,
      fun hquiet => absurd hafter hquiet, fun _ => ?_⟩
    · rw [hslots, List.nodup_append]
      refine ⟨inv.nodup, by simp, fun sent hsent new hnew => ?_⟩
      obtain ⟨u, hlt, rfl⟩ := hbelow sent hsent
      rw [List.mem_singleton.mp hnew]
      exact fun heq => hlt.ne (Option.some.inj heq)
    · rw [hslots, List.mem_append, List.mem_singleton] at hsent
      rcases hsent with hsent | rfl
      · obtain ⟨u, hlt, hu⟩ := hbelow sent hsent
        exact ⟨u, slot, hu, hnext, hlt.le, fun _ => hafter⟩
      · exact ⟨slot, slot, rfl, hnext, le_rfl, fun _ => hafter⟩
    · rw [hslots, List.length_append, List.length_singleton, inv.counted hbefore, Nat.add_assoc]
  | starts row' now hrow hnext hnew hslots hbefore hafter =>
    cases inv.stored.symm.trans hrow
    refine ⟨_, hguarded, hnew, hslots ▸ inv.nodup, fun sent hsent => ?_, fun _ => ?_,
      fun h => absurd h hafter⟩
    · obtain ⟨u, v, -, hv, -⟩ := inv.below sent (hslots ▸ hsent)
      rw [hnext] at hv
      cases hv
    · rw [hslots]
      exact inv.counted hbefore
  | commits row' now slot hrow hnext hdue hsent hnew hslots hbefore hafter =>
    cases inv.stored.symm.trans hrow
    refine ⟨_, hguarded, hnew, hslots ▸ inv.nodup, fun sent' hsent' => ?_, fun _ => ?_,
      fun h => absurd h hafter⟩
    · obtain ⟨u, v, hu, hv, hle, -⟩ := inv.below sent' (hslots ▸ hsent')
      obtain rfl := Option.some.inj (hnext.symm.trans hv)
      have hlt : u < cron.computeNextCronRun row.cronExpression now :=
        (hle.trans hdue).trans_lt (later row.cronExpression now)
      exact ⟨u, _, hu, rfl, hlt.le, fun heq => absurd heq hlt.ne⟩
    · rw [hslots]
      exact inv.counting hbefore

/-- From a state on, next_run_at never falls, and it has risen once total_runs has. -/
def Rising (cron : Croniter) (i : ScheduleId) (runs : Nat) (slot : Time) (s : Scheduler) : Prop :=
  Guarded cron i s ∧ ∃ row v, s.rows i = some row ∧ row.nextRunAt = some v ∧ runs ≤ row.totalRuns ∧
    slot ≤ v ∧ (runs < row.totalRuns → slot < v)

private theorem Rising.step (later : ∀ expr base, base < cron.getNext expr base) {runs : Nat} {slot : Time}
    (inv : Rising cron i runs slot s) (h : MortalChecks cron i s s') : Rising cron i runs slot s' := by
  obtain ⟨guarded, row, v, hrow, hnext, hruns, hle, hlt⟩ := inv
  refine ⟨guarded.step h, ?_⟩
  rcases h with h | h
  · cases guarded.effect h with
    | keeps hsame | sends _ _ _ _ hsame =>
      exact ⟨row, v, hsame ▸ hrow, hnext, hruns, hle, hlt⟩
    | starts row' now hrow' hnext' =>
      cases hrow.symm.trans hrow'
      cases hnext.symm.trans hnext'
    | commits row' now slot' hrow' hnext' hdue hsent hnew =>
      cases hrow.symm.trans hrow'
      cases hnext.symm.trans hnext'
      have hrise : slot < cron.computeNextCronRun row.cronExpression now :=
        (hle.trans hdue).trans_lt (later row.cronExpression now)
      exact ⟨_, _, hnew, rfl, hruns.trans (Nat.le_succ _), hrise.le, fun _ => hrise⟩
  · exact ⟨row, v, h.same.1 ▸ hrow, hnext, hruns, hle, hlt⟩

/-- A slot that was due is still the row's, or it was sent. -/
def Kept (cron : Croniter) (i : ScheduleId) (slot : Time) (s : Scheduler) : Prop :=
  Guarded cron i s ∧ ((∃ row, s.rows i = some row ∧ row.nextRunAt = some slot) ∨ some slot ∈ s.slots i)

private theorem Kept.step {slot : Time} (inv : Kept cron i slot s) (h : MortalChecks cron i s s') :
    Kept cron i slot s' := by
  obtain ⟨guarded, hkept⟩ := inv
  refine ⟨guarded.step h, ?_⟩
  rcases h with h | h
  · cases guarded.effect h with
    | keeps hsame hslots =>
      rw [hsame, hslots]
      exact hkept
    | sends _ _ _ _ hsame hslots =>
      rw [hsame, hslots]
      exact hkept.imp_right (List.mem_append_left _)
    | starts row now hrow hnext hnew hslots =>
      rcases hkept with ⟨row', hrow', hslot⟩ | hsent
      · cases hrow.symm.trans hrow'
        cases hnext.symm.trans hslot
      · exact Or.inr (hslots ▸ hsent)
    | commits row now slot' hrow hnext hdue hsent hnew hslots =>
      rcases hkept with ⟨row', hrow', hslot⟩ | hsent'
      · cases hrow.symm.trans hrow'
        cases hnext.symm.trans hslot
        exact Or.inr (hslots ▸ hsent)
      · exact Or.inr (hslots ▸ hsent')
  · rw [h.same.1, h.same.2]
    exact hkept

/-- Without deaths, no committed next_run_at is sent twice and total_runs counts what was sent, but for
the one that is being sent. Each trigger raises next_run_at, and even with deaths a committed
next_run_at stays until it was sent. -/
theorem each_slot_fires_once (later : ∀ expr base, base < cron.getNext expr base) {s₀ s : Scheduler}
    {row₀ : WorkflowSchedule} (h : s₀.Resting) (hrow : s₀.rows i = some row₀) :
    (Run (Checks cron i) s₀ s → (s.slots i).Nodup ∧ ∃ row, s.rows i = some row ∧
      (¬ s.Sending i → row.totalRuns = row₀.totalRuns + (s.slots i).length) ∧
      (s.Sending i → row.totalRuns + 1 = row₀.totalRuns + (s.slots i).length)) ∧
    (Run (MortalChecks cron i) s₀ s → ∀ s', Run (MortalChecks cron i) s s' →
      ∀ row slot, s.rows i = some row → row.nextRunAt = some slot →
        (∃ row' slot', s'.rows i = some row' ∧ row'.nextRunAt = some slot' ∧ slot ≤ slot' ∧
          (row.totalRuns < row'.totalRuns → slot < slot')) ∧
        ((∃ row', s'.rows i = some row' ∧ row'.nextRunAt = some slot) ∨ some slot ∈ s'.slots i)) := by
  constructor
  · intro run
    have hstep : ∀ s s', (∃ row, Once cron i row₀.totalRuns s row) → Checks cron i s s' →
        ∃ row, Once cron i row₀.totalRuns s' row := fun s s' ⟨_, inv⟩ h => inv.step later h
    obtain ⟨row, inv⟩ := run.invariant hstep ⟨row₀, h.once hrow⟩
    exact ⟨inv.nodup, row, inv.stored, inv.counted, inv.counting⟩
  · intro run s' run' row slot hrow hnext
    have guarded := run.invariant (fun _ _ inv h => Guarded.step inv h) h.guarded
    have hrising := run'.invariant (fun _ _ inv h => Rising.step later inv h)
      (show Rising cron i row.totalRuns slot s from
        ⟨guarded, row, slot, hrow, hnext, le_rfl, le_rfl, fun hlt => absurd hlt (lt_irrefl _)⟩)
    obtain ⟨-, row', slot', hrow', hnext', -, hle, hlt⟩ := hrising
    have hkept := run'.invariant (fun _ _ inv h => Kept.step inv h)
      (show Kept cron i slot s from ⟨guarded, Or.inl ⟨row, hrow, hnext⟩⟩)
    exact ⟨⟨row', slot', hrow', hnext', hle, hlt⟩, hkept.2⟩

/-! ### An hourly schedule -/

private def hourly : Croniter := ⟨fun _ => none, fun _ base => (base / 60 + 1) * 60⟩

private def dueSchedule : Scheduler where
  rows := fun i =>
    if i = "s" then some { workflowId := "w", cronExpression := "0 * * * *", nextRunAt := some 60 } else none
  workflows := fun _ => some true
  locks := fun _ => none
  queue := []
  checkers := fun _ => .idle
  editors := fun _ => .idle

theorem each_slot_fires_once_hourly : ∃ s, Run (Checks hourly "s") dueSchedule s ∧
    s.slots "s" = [some 60] ∧ (s.slots "s").Nodup := by
  have hbegin : Checks hourly "s" dueSchedule (dueSchedule.move 0 (.next 61 ["s"])) := by
    refine Or.inl (.begin 0 61 ["s"] rfl (by simp) (fun i => ?_))
    by_cases hi : i = "s" <;> simp [dueSchedule, hi]
  have hsent : (execute (checkStep hourly) [0, 0, 0, 0, 0, 0] (dueSchedule.move 0 (.next 61 ["s"]))).any
      (fun s => s.slots "s" = [some 60]) = true := by decide
  have hlegal : ∀ c ∈ [0, 0, 0, 0, 0, 0], ∀ s t, checkStep hourly c s = some t → Checks hourly "s" s t :=
    fun c _ s t h => Or.inl (.proceed c t h)
  obtain ⟨s, run, hs⟩ := exists_run_of_execute hlegal hsent
  have hrun := Relation.ReflTransGen.head hbegin run
  refine ⟨s, hrun, of_decide_eq_true hs, ?_⟩
  have hhour : ∀ base : Nat, base < (base / 60 + 1) * 60 := fun base => by omega
  have later : ∀ expr base, base < hourly.getNext expr base := fun _ base => hhour base
  have hresting : dueSchedule.Resting := ⟨fun _ => rfl, rfl⟩
  exact ((each_slot_fires_once later hresting rfl).1 hrun).1

end BackendProjects.Workflow
