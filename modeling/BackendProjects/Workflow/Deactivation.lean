import BackendProjects.Workflow.ScheduleEdits
import BackendProjects.Workflow.SlotTriggers

/-! Schedules that are switched off. The lock of a schedule says nothing to the API sessions, but a commit writes
only the columns that its session has changed, so that no checker and no other edit switches a schedule on again. -/
namespace BackendProjects.Workflow
open Library
variable {cron : Croniter} {i : ScheduleId} {c : CheckerId} {s s' : Scheduler} {loaded changed : WorkflowSchedule}

def toggleSchedule (sched : WorkflowSchedule) : WorkflowSchedule := { sched with isActive := !sched.isActive }

def Scheduler.loadForToggle (e : EditorId) (i : ScheduleId) (s : Scheduler) : Option Scheduler :=
  match s.editors e, s.rows i with
  | .idle, some loaded =>
    some { s with editors := Function.update s.editors e (.updating i loaded (toggleSchedule loaded)) }
  | _, _ => none

/-- The sessions of `toggle_schedule`, which commits like an update, and of `delete_schedule`; the commit of a
checker whose row is gone matches no row and raises. -/
inductive SwitchStep (s : Scheduler) : Scheduler → Prop
  | toggle (e : EditorId) (i : ScheduleId) (s' : Scheduler) (h : s.loadForToggle e i = some s') : SwitchStep s s'
  | delete (i : ScheduleId) : SwitchStep s (s.store i none)
  | stale (c : CheckerId) (now : Time) (i : ScheduleId) (rest : List ScheduleId) (loaded changed : WorkflowSchedule)
      (h : s.checkers c = .checking now i rest (.committing loaded changed)) (gone : s.rows i = none) :
      SwitchStep s (s.move c (.checking now i [] .releasing))

def Switching (cron : Croniter) (s s' : Scheduler) : Prop := ScheduleStep cron s s' ∨ SwitchStep s s'

def Scheduler.Off (i : ScheduleId) (s : Scheduler) : Prop := ∀ row, s.rows i = some row → row.isActive = false

def KeepsOff (i : ScheduleId) (s s' : Scheduler) : Prop :=
  (∀ e loaded changed, s.editors e = .updating i loaded changed → loaded.isActive = false →
    changed.isActive = false) ∧ (s.rows i = none → s'.rows i = none)

def Checker.Due (i : ScheduleId) : Checker → Prop
  | .checking _ sched _ (.lookingUp _) | .checking _ sched _ (.enqueueing _) => sched = i
  | _ => False

/-! ### The section of a checker -/

/-- A checker in the section of a schedule has its lock, and what it commits leaves the switch as it was. -/
structure Watched (i : ScheduleId) (s : Scheduler) : Prop where
  holds : ∀ c now rest place, s.checkers c = .checking now i rest place → place ≠ .acquiring →
    s.locks i = some c
  keeps : ∀ c now rest loaded changed, s.checkers c = .checking now i rest (.committing loaded changed) →
    changed.isActive = loaded.isActive

private theorem Scheduler.Quiet.watched (h : s.Quiet) : Watched i s := by
  constructor <;>
    (intro c now rest
     rw [h.checkers c]
     intros
     contradiction)

/-- One checker moves; it may touch the lock only if nobody else has it. -/
private theorem Watched.moved (inv : Watched i s) (others : ∀ c' ≠ c, s'.checkers c' = s.checkers c')
    (alone : s'.locks i = s.locks i ∨ ∀ c' ≠ c, s.locks i ≠ some c')
    (self : ∀ now rest place, s'.checkers c = .checking now i rest place →
      (place ≠ .acquiring → s'.locks i = some c) ∧
        ∀ loaded changed, place = .committing loaded changed → changed.isActive = loaded.isActive) :
    Watched i s' := by
  refine ⟨fun c' now rest place hc' hplace => ?_, fun c' now rest loaded changed hc' => ?_⟩
  · by_cases hne : c' = c
    · subst hne
      exact (self now rest place hc').1 hplace
    · rw [others c' hne] at hc'
      have hlock := inv.holds c' now rest place hc' hplace
      rcases alone with hsame | halone
      · rw [hsame, hlock]
      · exact absurd hlock (halone c' hne)
  · by_cases hne : c' = c
    · subst hne
      exact (self now rest _ hc').2 loaded changed rfl
    · rw [others c' hne] at hc'
      exact inv.keeps c' now rest loaded changed hc'

/-- A checker that leaves the section of the schedule, or goes through one of another. -/
private theorem Watched.leaves (inv : Watched i s) (others : ∀ c' ≠ c, s'.checkers c' = s.checkers c')
    (alone : s'.locks i = s.locks i ∨ ∀ c' ≠ c, s.locks i ≠ some c')
    (out : ∀ now rest place, s'.checkers c = .checking now i rest place → place = .acquiring) :
    Watched i s' := by
  refine inv.moved others alone (fun now rest place hc => ?_)
  obtain rfl := out now rest place hc
  exact ⟨fun h => absurd rfl h, nofun⟩

/-- A checker in the section goes on in it. -/
private theorem Watched.goes (inv : Watched i s) {now : Time} {rest : List ScheduleId} {place : CheckPlace}
    (others : ∀ c' ≠ c, s'.checkers c' = s.checkers c') (hlocks : s'.locks i = s.locks i)
    (hc : s'.checkers c = .checking now i rest place) (hlock : s.locks i = some c)
    (h : ∀ loaded changed, place = .committing loaded changed → changed.isActive = loaded.isActive) :
    Watched i s' := by
  refine inv.moved others (Or.inl hlocks) (fun now' rest' place' hnew => ?_)
  rw [hc] at hnew
  cases hnew
  exact ⟨fun _ => hlocks.trans hlock, h⟩

private theorem WorkflowSchedule.refreshed_keeps {row : WorkflowSchedule} {now : Time}
    (h : row.refreshed cron now = .committing loaded changed) : changed.isActive = loaded.isActive := by
  unfold refreshed at h
  split at h
  · split at h
    · cases h
      rfl
    · split at h <;> cases h
  · cases h

private theorem Watched.checkMove (inv : Watched i s) {now : Time} {rest : List ScheduleId} {place : CheckPlace}
    (hc : s.checkers c = .checking now i rest place) (h : CheckMove cron c now i s rest place s') :
    Watched i s' := by
  have others := h.checkers_of_ne
  have hlock := inv.holds c now rest place hc
  cases h with
  | acquire free =>
    refine inv.moved others (Or.inr (fun c' _ => by simp [free])) (fun now' rest' place' hnew => ?_)
    rw [Scheduler.move_self] at hnew
    cases hnew
    exact ⟨fun _ => by simp, nofun⟩
  | refuse taken =>
    refine inv.leaves others (Or.inl rfl) (fun now' rest' place' hnew => ?_)
    rw [Scheduler.move_self] at hnew
    exact Checker.next_acquiring hnew
  | refresh row read =>
    exact inv.goes others rfl (Scheduler.move_self ..) (hlock (by simp))
      (fun loaded changed h => WorkflowSchedule.refreshed_keeps h)
  | enqueue loaded =>
    refine inv.goes others rfl (Scheduler.move_self ..) (hlock (by simp)) ?_
    rintro _ _ ⟨⟩
    rfl
  | vanish | found | missing | commit =>
    exact inv.goes others rfl (Scheduler.move_self ..) (hlock (by simp)) nofun
  | release =>
    refine inv.leaves others (Or.inr (fun c' hne heq => hne ?_)) (fun now' rest' place' hnew => ?_)
    · exact Option.some.inj (heq.symm.trans (hlock (by simp)))
    · rw [Scheduler.move_self] at hnew
      exact Checker.next_acquiring hnew

private theorem Watched.move_elsewhere (inv : Watched i s) {now : Time} {j : ScheduleId} {rest : List ScheduleId}
    {place : CheckPlace} (h : CheckMove cron c now j s rest place s') (hne : i ≠ j) : Watched i s' := by
  refine inv.leaves h.checkers_of_ne (Or.inl (h.elsewhere hne).2.1) (fun now' rest' place' hc => ?_)
  cases h <;> rw [Scheduler.move_self] at hc
  case refuse | release => exact Checker.next_acquiring hc
  all_goals
    cases hc
    exact absurd rfl hne

/-- The checker and its lock stay, whatever becomes of rows and API sessions. -/
private theorem Watched.congr (inv : Watched i s) (hcheckers : s'.checkers = s.checkers)
    (hlocks : s'.locks = s.locks) :
    Watched i s' := by
  refine ⟨fun c now rest place hc hplace => ?_, fun c now rest loaded changed hc => ?_⟩
  · rw [hlocks]
    exact inv.holds c now rest place (hcheckers ▸ hc) hplace
  · exact inv.keeps c now rest loaded changed (hcheckers ▸ hc)

/-- An exception sends a checker to the release of its lock. -/
private theorem Watched.raises (inv : Watched i s) {now : Time} {j : ScheduleId} {rest : List ScheduleId}
    {place : CheckPlace} (hc : s.checkers c = .checking now j rest place) (hplace : place ≠ .acquiring) :
    Watched i (s.move c (.checking now j [] .releasing)) := by
  refine inv.moved (c := c) (fun c' hne => by simp [hne]) (Or.inl rfl) (fun now' rest' place' hnew => ?_)
  rw [Scheduler.move_self] at hnew
  cases hnew
  exact ⟨fun _ => inv.holds c now rest place hc hplace, nofun⟩

private theorem Watched.checkerStep (inv : Watched i s) (h : CheckerStep cron s s') : Watched i s' := by
  cases h with
  | begin c now ids idle nodup active =>
    refine inv.leaves (c := c) (fun c' hne => by simp [hne]) (Or.inl rfl) (fun now' rest' place' hnew => ?_)
    rw [Scheduler.move_self] at hnew
    exact Checker.next_acquiring hnew
  | proceed c s' h =>
    obtain ⟨now, j, rest, place, hc, hmove⟩ := checkStep_move h
    by_cases hne : i = j
    · subst hne
      exact inv.checkMove hc hmove
    · exact inv.move_elsewhere hmove hne
  | raises c now j rest place hc raise =>
    refine inv.raises hc ?_
    rintro rfl
    exact raise

private theorem Watched.deathStep (inv : Watched i s) (h : DeathStep s s') : Watched i s' := by
  cases h with
  | die c =>
    refine inv.leaves (c := c) (fun c' hne => by simp [hne]) (Or.inl rfl) (fun now' rest' place' hnew => ?_)
    rw [Scheduler.move_self] at hnew
    cases hnew
  | expire j c held dead =>
    refine inv.leaves (c := c) (fun c' hne => rfl) ?_ (fun now' rest' place' hnew => ?_)
    · by_cases hj : i = j
      · subst hj
        exact Or.inr (fun c' hne heq => hne (Option.some.inj (heq.symm.trans held)))
      · exact Or.inl (by simp [hj])
    · rw [Scheduler.lock_checkers, dead] at hnew
      cases hnew

private theorem loadForToggle_same {e : EditorId} {j : ScheduleId} (h : s.loadForToggle e j = some s') :
    s'.rows = s.rows ∧ s'.checkers = s.checkers ∧ s'.locks = s.locks ∧ s'.queue = s.queue := by
  unfold Scheduler.loadForToggle at h
  split at h <;> cases h
  exact ⟨rfl, rfl, rfl, rfl⟩

/-- API sessions leave the checkers, the locks and the queue alone. -/
private theorem EditorStep.same (h : EditorStep cron s s') :
    s'.checkers = s.checkers ∧ s'.locks = s.locks ∧ s'.queue = s.queue := by
  cases h with
  | create => exact ⟨rfl, rfl, rfl⟩
  | load e j data now s' h =>
    unfold Scheduler.loadForUpdate at h
    repeat' split at h
    all_goals cases h
    exact ⟨rfl, rfl, rfl⟩
  | commit e s' h =>
    unfold Scheduler.commitUpdate at h
    split at h <;> cases h
    exact ⟨rfl, rfl, rfl⟩

private theorem Watched.step (inv : Watched i s) (h : Switching cron s s') : Watched i s' := by
  rcases h with (h | h | h) | h
  · exact inv.checkerStep h
  · exact inv.deathStep h
  · exact inv.congr h.same.1 h.same.2.1
  · cases h with
    | toggle e j s' h => exact inv.congr (loadForToggle_same h).2.1 (loadForToggle_same h).2.2.1
    | delete => exact inv.congr rfl rfl
    | stale c now j rest loaded changed hc gone => exact inv.raises hc (by simp)

/-! ### What is sent of a schedule that is off -/

/-- A checker that is due neither before nor after its move, or was due before it. -/
theorem due_of_moved (others : ∀ c' ≠ c, s'.checkers c' = s.checkers c')
    (self : (s'.checkers c).Due i → (s.checkers c).Due i) (c' : CheckerId) (h : (s'.checkers c').Due i) :
    (s.checkers c').Due i := by
  by_cases hne : c' = c
  · subst hne
    exact self h
  · rwa [others c' hne] at h

/-- Only the holder of the lock can be due. -/
private theorem Watched.due_unique (inv : Watched i s) {c' : CheckerId} (hlock : s.locks i = some c)
    (h : (s.checkers c').Due i) : c' = c := by
  have hc' : s.locks i = some c' := by
    unfold Checker.Due at h
    split at h
    · next now j rest loaded hc =>
      obtain rfl := h
      exact inv.holds c' now rest _ hc (by simp)
    · next now j rest loaded hc =>
      obtain rfl := h
      exact inv.holds c' now rest _ hc (by simp)
    · exact h.elim
  exact Option.some.inj (hc'.symm.trans hlock)

private theorem Checker.not_next_due {now : Time} {ids : List ScheduleId} : ¬ (Checker.next now ids).Due i := by
  cases ids <;> exact id

/-- Nothing is sent and no checker becomes due, or the one that was due sends. -/
inductive Quieter (i : ScheduleId) (s s' : Scheduler) : Prop
  | keeps (slots : s'.slots i = s.slots i) (due : ∀ c, (s'.checkers c).Due i → (s.checkers c).Due i)
  | sends (c : CheckerId) (due : (s.checkers c).Due i) (slot : Option Time)
      (slots : s'.slots i = s.slots i ++ [slot]) (spent : ∀ c, ¬ (s'.checkers c).Due i)

private theorem Checker.not_due_elsewhere {now : Time} {j : ScheduleId} {rest : List ScheduleId}
    {place : CheckPlace}
    (hne : i ≠ j) : ¬ (Checker.checking now j rest place).Due i := by
  cases place <;> first | exact id | exact fun h => hne h.symm

private theorem CheckMove.quieter_elsewhere {now : Time} {j : ScheduleId} {rest : List ScheduleId}
    {place : CheckPlace}
    (h : CheckMove cron c now j s rest place s') (hne : i ≠ j) : Quieter i s s' := by
  refine .keeps (h.elsewhere hne).2.2 (due_of_moved h.checkers_of_ne fun hdue => ?_)
  cases h <;> rw [Scheduler.move_self] at hdue
  case refuse | release => exact absurd hdue Checker.not_next_due
  all_goals exact absurd hdue (Checker.not_due_elsewhere hne)

/-- A checker that refreshes the row of a schedule that is off gives up its lock. -/
private theorem Watched.quieter_here (inv : Watched i s) (off : s.Off i) {now : Time} {rest : List ScheduleId}
    {place : CheckPlace} (hc : s.checkers c = .checking now i rest place)
    (h : CheckMove cron c now i s rest place s') : Quieter i s s' := by
  have others := h.checkers_of_ne
  have hlock := inv.holds c now rest place hc
  have quiet (slots : s'.slots i = s.slots i) (self : (s'.checkers c).Due i → (s.checkers c).Due i) :
      Quieter i s s' := .keeps slots (due_of_moved others self)
  cases h with
  | acquire free => exact quiet rfl (by rw [Scheduler.move_self]; exact False.elim)
  | refuse taken => exact quiet rfl (by rw [Scheduler.move_self]; exact fun h => absurd h Checker.not_next_due)
  | vanish gone => exact quiet rfl (by rw [Scheduler.move_self]; exact False.elim)
  | refresh row read =>
    refine quiet rfl ?_
    rw [Scheduler.move_self, WorkflowSchedule.refreshed, off row read]
    exact False.elim
  | found loaded active => exact quiet rfl (by rw [hc]; exact fun _ => rfl)
  | missing loaded inactive => exact quiet rfl (by rw [Scheduler.move_self]; exact False.elim)
  | commit loaded changed => exact quiet rfl (by rw [Scheduler.move_self]; exact False.elim)
  | release => exact quiet rfl (by rw [Scheduler.move_self]; exact fun h => absurd h Checker.not_next_due)
  | enqueue loaded =>
    refine .sends c (by rw [hc]; rfl) loaded.nextRunAt ?_ (fun c' hdue => ?_)
    · exact Scheduler.slots_enqueue_self loaded
    · by_cases hne : c' = c
      · subst hne
        rw [Scheduler.move_self] at hdue
        exact hdue
      · rw [others c' hne] at hdue
        exact hne (inv.due_unique (hlock (by simp)) hdue)

private theorem Watched.quieter (inv : Watched i s) (off : s.Off i) (h : Switching cron s s') :
    Quieter i s s' := by
  have moves {c : CheckerId} {checker : Checker} (h : ¬ checker.Due i) : Quieter i s (s.move c checker) :=
    .keeps rfl (due_of_moved (fun _ hne => Scheduler.move_of_ne s c checker hne)
      (by rw [Scheduler.move_self]; exact fun hdue => absurd hdue h))
  rcases h with (h | h | h) | h
  · cases h with
    | begin c now ids idle nodup active => exact moves Checker.not_next_due
    | proceed c s' h =>
      obtain ⟨now, j, rest, place, hc, hmove⟩ := checkStep_move h
      by_cases hne : i = j
      · subst hne
        exact inv.quieter_here off hc hmove
      · exact hmove.quieter_elsewhere hne
    | raises c now j rest place hc raise => exact moves id
  · cases h with
    | die c => exact moves id
    | expire j c held dead => exact .keeps rfl (fun _ => id)
  · obtain ⟨hcheckers, _, hqueue⟩ := h.same
    exact .keeps (by rw [Scheduler.slots, Scheduler.slots, hqueue]) (by rw [hcheckers]; exact fun _ => id)
  · cases h with
    | toggle e j s' h =>
      obtain ⟨_, hcheckers, _, hqueue⟩ := loadForToggle_same h
      exact .keeps (by rw [Scheduler.slots, Scheduler.slots, hqueue]) (by rw [hcheckers]; exact fun _ => id)
    | delete => exact .keeps rfl (fun _ => id)
    | stale c now j rest loaded changed hc gone => exact moves id

/-! ### The switch -/

/-- The column of a row that is off stays off, unless the session switches it on. -/
private theorem WorkflowSchedule.flush_off {stored : WorkflowSchedule} (off : stored.isActive = false)
    (h : loaded.isActive = false → changed.isActive = false) :
    (WorkflowSchedule.flush loaded changed stored).isActive = false := by
  simp only [WorkflowSchedule.flush]
  by_cases hsame : changed.isActive = loaded.isActive
  · rw [hsame, writeBack_same]
    exact off
  · rw [writeBack_of_ne hsame]
    cases hloaded : loaded.isActive with
    | false => exact h hloaded
    | true =>
      rw [hloaded] at hsame
      simpa using hsame

private theorem Scheduler.Off.commit {j : ScheduleId} (off : s.Off i)
    (h : i = j → loaded.isActive = false → changed.isActive = false) : (s.commit j loaded changed).Off i := by
  intro row hrow
  by_cases hj : i = j
  · subst hj
    rw [Scheduler.commit_self, Option.map_eq_some_iff] at hrow
    obtain ⟨stored, hstored, rfl⟩ := hrow
    exact WorkflowSchedule.flush_off (off stored hstored) (h rfl)
  · rw [Scheduler.commit_of_ne _ _ _ _ hj] at hrow
    exact off row hrow

private theorem Watched.off_checkMove (inv : Watched i s) (off : s.Off i) {now : Time} {j : ScheduleId}
    {rest : List ScheduleId} {place : CheckPlace} (hc : s.checkers c = .checking now j rest place)
    (h : CheckMove cron c now j s rest place s') : s'.Off i := by
  cases h with
  | commit loaded changed =>
    refine off.commit (fun heq => ?_)
    subst heq
    rw [inv.keeps c now rest loaded changed hc]
    exact id
  | _ => exact off

private theorem Watched.off_step (inv : Watched i s) (off : s.Off i)
    (h : Where (KeepsOff i) (Switching cron) s s') :
    s'.Off i := by
  obtain ⟨⟨hedits, hgone⟩, (h | h | h) | h⟩ := h
  · cases h with
    | begin | raises => exact off
    | proceed c s' h =>
      obtain ⟨now, j, rest, place, hc, hmove⟩ := checkStep_move h
      exact inv.off_checkMove off hc hmove
  · cases h <;> exact off
  · cases h with
    | create j data now sched new h =>
      intro row hrow
      by_cases hj : i = j
      · subst hj
        rw [hgone new] at hrow
        cases hrow
      · exact off row (by simpa [Scheduler.store, hj] using hrow)
    | load e j data now s' h =>
      unfold Scheduler.loadForUpdate at h
      repeat' split at h
      all_goals cases h
      exact off
    | commit e s' h =>
      unfold Scheduler.commitUpdate at h
      split at h
      · cases h
      · next j loaded changed he =>
        cases h
        refine Scheduler.Off.commit (s := s) off (fun heq => ?_)
        subst heq
        exact hedits e loaded changed he
  · cases h with
    | stale => exact off
    | toggle e j s' h => exact fun row hrow => off row ((loadForToggle_same h).1 ▸ hrow)
    | delete j =>
      intro row hrow
      by_cases hj : i = j
      · simp [Scheduler.store, hj] at hrow
      · exact off row (by simpa [Scheduler.store, hj] using hrow)

/-- What has been sent since the schedule was switched off: nothing, or the slot of the checker that was due. -/
structure SwitchedOff (i : ScheduleId) (slots : List (Option Time)) (due : Prop) (s : Scheduler) : Prop where
  watched : Watched i s
  off : s.Off i
  sent : (s.slots i = slots ∧ ∀ c, (s.checkers c).Due i → due) ∨
    (due ∧ (∃ slot, s.slots i = slots ++ [slot]) ∧ ∀ c, ¬ (s.checkers c).Due i)

private theorem SwitchedOff.step {slots : List (Option Time)} {due : Prop} (s s' : Scheduler)
    (inv : SwitchedOff i slots due s) (h : Where (KeepsOff i) (Switching cron) s s') :
    SwitchedOff i slots due s' := by
  refine ⟨inv.watched.step h.2, inv.watched.off_step inv.off h, ?_⟩
  cases inv.watched.quieter inv.off h.2 with
  | keeps hslots hdue =>
    rw [hslots]
    exact inv.sent.imp (fun h => ⟨h.1, fun c hc => h.2 c (hdue c hc)⟩)
      fun h => ⟨h.1, h.2.1, fun c hc => h.2.2 c (hdue c hc)⟩
  | sends c hdue slot hslots hspent =>
    rcases inv.sent with ⟨hsame, hwas⟩ | ⟨_, _, hnone⟩
    · exact Or.inr ⟨hwas c hdue, ⟨slot, hsame ▸ hslots⟩, hspent⟩
    · exact absurd hdue (hnone c)

/-- From any moment at which a schedule is switched off or gone, as long as nobody switches it on or creates it
anew, it stays so, whatever checkers and API sessions, with rows that they have loaded before, still commit; and
no slot of it is sent any more, but for one by a checker that had found it due before. -/
theorem deactivation_is_final {s₀ : Scheduler} {quiet : Scheduler} (h : quiet.Quiet)
    (before : Run (Switching cron) quiet s₀) (off : s₀.Off i)
    (run : Run (Where (KeepsOff i) (Switching cron)) s₀ s) :
    s.Off i ∧ (s.slots i = s₀.slots i ∨ ∃ slot, s.slots i = s₀.slots i ++ [slot]) ∧
      ((∀ c, ¬ (s₀.checkers c).Due i) → s.slots i = s₀.slots i) := by
  have hstep : ∀ s s', Watched i s → Switching cron s s' → Watched i s' := fun _ _ inv h => inv.step h
  have hwatched : Watched i s₀ := before.invariant hstep h.watched
  have inv := run.invariant SwitchedOff.step
    (show SwitchedOff i (s₀.slots i) (∃ c, (s₀.checkers c).Due i) s₀ from
      ⟨hwatched, off, Or.inl ⟨rfl, fun c hc => ⟨c, hc⟩⟩⟩)
  refine ⟨inv.off, ?_, fun hnone => ?_⟩
  · exact inv.sent.imp And.left fun h => h.2.1
  · rcases inv.sent with ⟨hsame, _⟩ | ⟨⟨c, hc⟩, _⟩
    · exact hsame
    · exact absurd hc (hnone c)

/-! ### A schedule that is switched off while a checker is at work -/

private def onTheHour : Croniter := ⟨fun _ => none, fun _ base => (base / 60 + 1) * 60⟩

private def oneOn : Scheduler where
  rows := fun i =>
    if i = "s" then some { workflowId := "w", cronExpression := "0 * * * *", nextRunAt := some 60 } else none
  workflows := fun _ => some true
  locks := fun _ => none
  queue := []
  checkers := fun _ => .idle
  editors := fun _ => .idle

private inductive Party where
  | check
  | toggle
  | commit

private def party : Party → Scheduler → Option Scheduler
  | .check, s => checkStep onTheHour 0 s
  | .toggle, s => s.loadForToggle 0 "s"
  | .commit, s => s.commitUpdate 0

private def Editor.isIdle : Editor → Bool
  | .idle => true
  | .updating _ _ _ => false

private theorem party_step (p : Party) (s s' : Scheduler) (h : party p s = some s') :
    Where (fun s s' => ∀ e, e ≠ 0 → s'.editors e = s.editors e) (Switching onTheHour) s s' := by
  cases p with
  | check =>
    refine ⟨fun e _ => ?_, Or.inl (Or.inl (.proceed 0 s' h))⟩
    obtain ⟨now, i, rest, place, _, hmove⟩ := checkStep_move h
    cases hmove <;> rfl
  | toggle =>
    refine ⟨fun e he => ?_, Or.inr (.toggle 0 "s" s' h)⟩
    simp only [party, Scheduler.loadForToggle] at h
    split at h <;> cases h
    exact Function.update_of_ne he ..
  | commit =>
    refine ⟨fun e he => ?_, Or.inl (Or.inr (Or.inr (.commit 0 s' h)))⟩
    simp only [party, Scheduler.commitUpdate] at h
    split at h <;> cases h
    exact Function.update_of_ne he ..

/-- A checker has found the schedule due when it is toggled, and still sends its slot. -/
theorem deactivation_is_final_toggled : ∃ s₀ s : Scheduler, s₀.Off "s" ∧ s₀.slots "s" = [] ∧
    s.Off "s" ∧ s.slots "s" = [some 60] := by
  have hbegin : Switching onTheHour oneOn (oneOn.move 0 (.next 61 ["s"])) := by
    refine Or.inl (Or.inl (.begin 0 61 ["s"] rfl (by simp) (fun i => ?_)))
    by_cases hi : i = "s" <;> simp [oneOn, hi]
  have htoggled : (execute party [.check, .check, .check, .toggle, .commit] (oneOn.move 0 (.next 61 ["s"]))).any
      (fun s => ((s.rows "s").any (fun row => row.isActive = false) ∧ (s.editors 0).isIdle ∧ s.slots "s" = []) ∧
        (checkStep onTheHour 0 s).any (fun s => s.slots "s" = [some 60])) = true := by
    decide +kernel
  obtain ⟨s₀, before, hs⟩ := exists_run_of_execute (fun p _ => party_step p) htoggled
  obtain ⟨⟨hrow, hidle, hslots⟩, hnext⟩ := of_decide_eq_true hs
  obtain ⟨row, hrow, hinactive⟩ := (Option.any_eq_true _ _).mp hrow
  obtain ⟨s, hstep, hsent⟩ := (Option.any_eq_true _ _).mp hnext
  have hothers : ∀ e, e ≠ 0 → s₀.editors e = .idle := by
    have keep : ∀ s s', (∀ e, e ≠ 0 → s.editors e = .idle) →
        Where (fun s s' => ∀ e, e ≠ 0 → s'.editors e = s.editors e) (Switching onTheHour) s s' →
        ∀ e, e ≠ 0 → s'.editors e = .idle := fun s s' inv h e he => (h.1 e he).trans (inv e he)
    exact before.invariant keep (fun _ _ => rfl)
  have hoff : s₀.Off "s" := by
    intro row' hrow'
    rw [hrow, Option.some.injEq] at hrow'
    exact hrow' ▸ of_decide_eq_true hinactive
  have hkeeps : KeepsOff "s" s₀ s := by
    refine ⟨fun e loaded changed he => ?_, fun hnone => by rw [hrow] at hnone; cases hnone⟩
    by_cases hzero : e = 0
    · rw [hzero] at he
      rw [he] at hidle
      cases hidle
    · rw [hothers e hzero] at he
      cases he
  have hfinal := deactivation_is_final ⟨fun _ => rfl, fun _ => rfl⟩ (.head hbegin before.of_where) hoff
    (.single ⟨hkeeps, Or.inl (Or.inl (.proceed 0 s hstep))⟩)
  exact ⟨s₀, s, hoff, hslots, hfinal.1, of_decide_eq_true hsent⟩

end BackendProjects.Workflow
