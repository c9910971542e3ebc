import BackendProjects.Workflow.SlotTriggers

/-! The accounts of checkers that die. A slot is sent again, and is missing from total_runs, only for a checker
that died after it had sent the slot and before it committed the next one. -/
namespace BackendProjects.Workflow
open Library
variable {cron : Croniter} {i : ScheduleId} {c : CheckerId} {s s' : Scheduler} {lost lost' : List (Option Time)}

def Checker.uncounted (i : ScheduleId) : Checker → List (Option Time)
  | .checking _ sched _ (.committing loaded _) =>
      if sched = i ∧ loaded.nextRunAt ≠ none then [loaded.nextRunAt] else []
  | _ => []

/-- The scheduler beside the slots whose checkers died before they counted them. -/
structure Ledger where
  scheduler : Scheduler
  lost : List (Option Time)

inductive Ledger.Step (cron : Croniter) (i : ScheduleId) : Ledger → Ledger → Prop
  | check {s s' : Scheduler} {lost : List (Option Time)} (h : Checks cron i s s') :
      Step cron i ⟨s, lost⟩ ⟨s', lost⟩
  | die {s : Scheduler} {lost : List (Option Time)} (c : CheckerId) :
      Step cron i ⟨s, lost⟩ ⟨s.move c .dead, lost ++ (s.checkers c).uncounted i⟩
  | expire {s : Scheduler} {lost : List (Option Time)} (j : ScheduleId) (c : CheckerId)
      (held : s.locks j = some c) (dead : s.checkers c = .dead) : Step cron i ⟨s, lost⟩ ⟨s.lock j none, lost⟩

/-- Every step of checkers that may die has its entry in the ledger. -/
private theorem MortalChecks.simulates :
    Simulates (MortalChecks cron i) (Ledger.Step cron i) (fun s ledger => ledger.scheduler = s) := by
  rintro s ⟨_, lost⟩ s' rfl (h | h)
  · exact ⟨_, .single (.check h), rfl⟩
  · cases h with
    | die c => exact ⟨_, .single (.die c), rfl⟩
    | expire j c held dead => exact ⟨_, .single (.expire j c held dead), rfl⟩

/-- Whatever checkers do and die of, there is a ledger of it. -/
theorem exists_ledger (run : Run (MortalChecks cron i) s s') :
    ∃ lost, Run (Ledger.Step cron i) ⟨s, []⟩ ⟨s', lost⟩ := by
  obtain ⟨⟨_, lost⟩, run', rfl⟩ := MortalChecks.simulates.run (t := ⟨s, []⟩) rfl run
  exact ⟨lost, run'⟩

private theorem Checker.uncounted_of_not_sends {checker : Checker} (h : ¬ checker.Sends i) :
    checker.uncounted i = [] := by
  unfold uncounted
  split
  · exact if_neg h
  · rfl

/-- A checker that sends has the lock, and the row as it is stored. -/
private theorem Guarded.sends (inv : Guarded cron i s) (h : (s.checkers c).Sends i) : s.locks i = some c ∧
    ∃ row slot, s.rows i = some row ∧ row.nextRunAt = some slot ∧ (s.checkers c).uncounted i = [some slot] := by
  unfold Checker.Sends at h
  split at h
  · next now j rest loaded changed hc =>
    obtain ⟨rfl, hnext⟩ := h
    obtain ⟨slot, hslot⟩ := Option.ne_none_iff_exists'.mp hnext
    obtain ⟨hrow, _⟩ := inv.fits c now rest _ hc
    refine ⟨inv.holds c now rest _ hc (by simp), loaded, slot, hrow, hslot, ?_⟩
    simp [hc, Checker.uncounted, hslot]
  · exact h.elim

/-- What was sent is what total_runs has counted, each slot once and below next_run_at, what died uncounted, and
the slot at hand of the one checker that is sending. -/
structure Accounts (cron : Croniter) (i : ScheduleId) (before : Nat) (row : WorkflowSchedule)
    (counted : List (Option Time)) (s : Scheduler) (lost : List (Option Time)) : Prop where
  guarded : Guarded cron i s
  stored : s.rows i = some row
  nodup : counted.Nodup
  below : ∀ slot ∈ counted, ∃ u v, slot = some u ∧ row.nextRunAt = some v ∧ u < v
  total : row.totalRuns = before + counted.length
  resting : ¬ s.Sending i → (s.slots i).Perm (counted ++ lost)
  sending : s.Sending i → (s.slots i).Perm (row.nextRunAt :: (counted ++ lost))

namespace Accounts
variable {before : Nat} {row : WorkflowSchedule} {counted : List (Option Time)}

private theorem start (h : s.Resting) (hrow : s.rows i = some row) : Accounts cron i row.totalRuns row
    [] s [] := by
  have hslots : s.slots i = [] := by simp [Scheduler.slots, h.queue]
  have hquiet : ¬ s.Sending i := by
    rintro ⟨c, hc⟩
    rw [h.checkers c] at hc
    exact hc
  exact ⟨h.guarded, hrow, .nil, by simp, rfl, fun _ => by simp [hslots], fun h => absurd h hquiet⟩

variable (inv : Accounts cron i before row counted s lost)
include inv

private theorem not_counted {slot : Option Time} (h : row.nextRunAt = slot) : slot ∉ counted := by
  intro hin
  obtain ⟨u, v, rfl, hv, hlt⟩ := inv.below slot hin
  obtain rfl := Option.some.inj (h.symm.trans hv)
  exact lt_irrefl _ hlt

private theorem check (later : ∀ expr base, base < cron.getNext expr base) (h : Checks cron i s s') :
    ∃ row' counted', Accounts cron i before row' counted' s' lost := by
  have hguarded := inv.guarded.step (Or.inl h)
  cases inv.guarded.effect h with
  | keeps hsame hslots hsending =>
    refine ⟨row, counted, hguarded, hsame ▸ inv.stored, inv.nodup, inv.below, inv.total, ?_, ?_⟩
    · rw [hslots, hsending]
      exact inv.resting
    · rw [hslots, hsending]
      exact inv.sending
  | sends row' slot hrow hnext hsame hslots hbefore hafter =>
    cases inv.stored.symm.trans hrow
    refine ⟨row, counted, hguarded, hsame ▸ inv.stored, inv.nodup, inv.below, inv.total,
      fun hquiet => absurd hafter hquiet, fun _ => ?_⟩
    rw [hslots, hnext]
    exact (List.perm_append_singleton _ _).trans ((inv.resting hbefore).cons _)
  | starts row' now hrow hnext hnew hslots hbefore hafter =>
    cases inv.stored.symm.trans hrow
    refine ⟨_, counted, hguarded, hnew, inv.nodup, fun slot hslot => ?_, inv.total, fun _ => ?_,
      fun h => absurd h hafter⟩
    · obtain ⟨u, v, _, hv, _⟩ := inv.below slot hslot
      rw [hnext] at hv
      cases hv
    · rw [hslots]
      exact inv.resting hbefore
  | commits row' now slot hrow hnext hdue hsent hnew hslots hbefore hafter =>
    cases inv.stored.symm.trans hrow
    have hlt := later row.cronExpression now
    refine ⟨_, some slot :: counted, hguarded, hnew, ?_, fun slot' hslot => ?_, ?_, fun _ => ?_,
      fun h => absurd h hafter⟩
    · exact List.nodup_cons.mpr ⟨inv.not_counted hnext, inv.nodup⟩
    · rcases List.mem_cons.mp hslot with rfl | hslot
      · exact ⟨slot, _, rfl, rfl, hdue.trans_lt hlt⟩
      · obtain ⟨u, v, rfl, hv, hle⟩ := inv.below slot' hslot
        obtain rfl := Option.some.inj (hnext.symm.trans hv)
        exact ⟨u, _, rfl, rfl, (hle.le.trans hdue).trans_lt hlt⟩
    · rw [WorkflowSchedule.triggered, inv.total, List.length_cons, Nat.add_assoc]
    · rw [hslots, ← hnext]
      exact inv.sending hbefore

/-- A checker that dies while it is sending leaves its slot to the ledger. -/
theorem die (c : CheckerId) :
    Accounts cron i before row counted (s.move c .dead) (lost ++ (s.checkers c).uncounted i) := by
  have hguarded := inv.guarded.deathStep (.die c)
  have others : ∀ c' ≠ c, (s.move c .dead).checkers c' = s.checkers c' := fun c' hc' =>
    Scheduler.move_of_ne s c _ hc'
  have after : ¬ ((s.move c .dead).checkers c).Sends i := by
    rw [Scheduler.move_self]
    exact id
  by_cases hsends : (s.checkers c).Sends i
  · obtain ⟨hlock, row', slot, hrow, hnext, huncounted⟩ := inv.guarded.sends hsends
    cases inv.stored.symm.trans hrow
    have hquiet : ¬ (s.move c .dead).Sending i := by
      rw [hguarded.sending_iff (c := c) hlock]
      exact after
    refine ⟨hguarded, inv.stored, inv.nodup, inv.below, inv.total, fun _ => ?_, fun h => absurd h hquiet⟩
    rw [huncounted, ← List.append_assoc, ← hnext]
    exact (inv.sending ⟨c, hsends⟩).trans (List.perm_append_singleton _ _).symm
  · have hsame := Scheduler.sending_congr others hsends after
    rw [Checker.uncounted_of_not_sends hsends, List.append_nil]
    exact ⟨hguarded, inv.stored, inv.nodup, inv.below, inv.total, fun h => inv.resting (hsame.not.mp h),
      fun h => inv.sending (hsame.mp h)⟩

private theorem expire {j : ScheduleId} (held : s.locks j = some c) (dead : s.checkers c = .dead) :
    Accounts cron i before row counted (s.lock j none) lost :=
  ⟨inv.guarded.deathStep (.expire j c held dead), inv.stored, inv.nodup, inv.below, inv.total, inv.resting,
    inv.sending⟩

end Accounts

private theorem Ledger.Step.accounts (later : ∀ expr base, base < cron.getNext expr base) {before : Nat}
    (ledger ledger' : Ledger)
    (inv : ∃ row counted, Accounts cron i before row counted ledger.scheduler ledger.lost)
    (h : Ledger.Step cron i ledger ledger') :
    ∃ row counted, Accounts cron i before row counted ledger'.scheduler ledger'.lost := by
  obtain ⟨row, counted, inv⟩ := inv
  cases h with
  | check h => exact inv.check later h
  | die c => exact ⟨row, counted, inv.die c⟩
  | expire j c held dead => exact ⟨row, counted, inv.expire held dead⟩

/-- Whatever checkers do and wherever they die, what was sent of a schedule is what total_runs has counted, each
slot once, what was lost with checkers that died between sending a slot and committing the next one, and the
slot that is being sent. -/
theorem lost_triggers_account (later : ∀ expr base, base < cron.getNext expr base) {s₀ : Scheduler}
    {row₀ : WorkflowSchedule} (h : s₀.Resting) (hrow : s₀.rows i = some row₀) :
    (∀ s, Run (MortalChecks cron i) s₀ s → ∃ lost, Run (Ledger.Step cron i) ⟨s₀, []⟩ ⟨s, lost⟩) ∧
    ∀ s lost, Run (Ledger.Step cron i) ⟨s₀, []⟩ ⟨s, lost⟩ → ∃ row counted, s.rows i = some row ∧
      counted.Nodup ∧ row.totalRuns = row₀.totalRuns + counted.length ∧
      (¬ s.Sending i → (s.slots i).Perm (counted ++ lost)) ∧
      (s.Sending i → row.nextRunAt ∉ counted ∧ (s.slots i).Perm (row.nextRunAt :: (counted ++ lost))) := by
  refine ⟨fun s run => exists_ledger run, fun s lost run => ?_⟩
  obtain ⟨row, counted, inv⟩ := run.invariant (Ledger.Step.accounts later) ⟨row₀, [], .start h hrow⟩
  exact ⟨row, counted, inv.stored, inv.nodup, inv.total, inv.resting,
    fun hsending => ⟨inv.not_counted rfl, inv.sending hsending⟩⟩

/-! ### A checker that dies after it has sent a slot -/

private def everyHour : Croniter := ⟨fun _ => none, fun _ base => (base / 60 + 1) * 60⟩

private def twoIdle : Scheduler where
  rows := fun i =>
    if i = "s" then some { workflowId := "w", cronExpression := "0 * * * *", nextRunAt := some 60 } else none
  workflows := fun _ => some true
  locks := fun _ => none
  queue := []
  checkers := fun _ => .idle
  editors := fun _ => .idle

private inductive Doing where
  | go (c : CheckerId)
  | die (c : CheckerId)
  | expire (c : CheckerId)

private def doing : Doing → Ledger → Option Ledger
  | .go c, l => (checkStep everyHour c l.scheduler).map (⟨·, l.lost⟩)
  | .die c, l => some ⟨l.scheduler.move c .dead, l.lost ++ (l.scheduler.checkers c).uncounted "s"⟩
  | .expire c, l =>
    match l.scheduler.checkers c with
    | .dead => if l.scheduler.locks "s" = some c then some ⟨l.scheduler.lock "s" none, l.lost⟩ else none
    | _ => none

private theorem doing_step (d : Doing) (l l' : Ledger) (h : doing d l = some l') :
    Ledger.Step everyHour "s" l l' := by
  cases d with
  | go c =>
    obtain ⟨s', hstep, rfl⟩ := Option.map_eq_some_iff.mp h
    exact .check (Or.inl (.proceed c s' hstep))
  | die c =>
    cases h
    exact .die c
  | expire c =>
    simp only [doing] at h
    split at h
    · next hdead =>
      split at h
      · next hheld =>
        cases h
        exact .expire "s" c hheld hdead
      · cases h
    · cases h

/-- The first checker sends the slot and dies; the second one sends it again and counts it. -/
theorem lost_triggers_account_twice : ∃ s lost, Run (Ledger.Step everyHour "s") ⟨twoIdle, []⟩ ⟨s, lost⟩ ∧
    s.slots "s" = [some 60, some 60] ∧ lost = [some 60] ∧
    ∃ row counted, s.rows "s" = some row ∧ row.totalRuns = 0 + counted.length ∧
      (s.slots "s").Perm (counted ++ lost) := by
  have hlists {s : Scheduler} (hrows : s.rows = twoIdle.rows) (i : ScheduleId) :
      i ∈ ["s"] ↔ ∃ row, s.rows i = some row ∧ row.isActive = true := by
    rw [hrows]
    by_cases hi : i = "s" <;> simp [twoIdle, hi]
  have hbegin : Run (Ledger.Step everyHour "s") ⟨twoIdle, []⟩
      ⟨(twoIdle.move 0 (.next 61 ["s"])).move 1 (.next 62 ["s"]), []⟩ :=
    .tail (.single (.check (Or.inl (.begin 0 61 ["s"] rfl (by simp) (hlists rfl)))))
      (.check (Or.inl (.begin 1 62 ["s"] rfl (by simp) (hlists rfl))))
  have hend : (execute doing [.go 0, .go 0, .go 0, .go 0, .die 0, .expire 0, .go 1, .go 1, .go 1, .go 1, .go 1]
      ⟨(twoIdle.move 0 (.next 61 ["s"])).move 1 (.next 62 ["s"]), []⟩).any (fun l =>
        l.scheduler.slots "s" = [some 60, some 60] ∧ l.lost = [some 60] ∧
          (l.scheduler.checkers 1).uncounted "s" = [] ∧ l.scheduler.locks "s" = some 1) = true := by
    decide +kernel
  obtain ⟨⟨s, lost⟩, run, hs⟩ := exists_run_of_execute (fun d _ => doing_step d) hend
  obtain ⟨hslots, hlost, hquiet, hlock⟩ := of_decide_eq_true hs
  have hrun := hbegin.trans run
  have hhour : ∀ base : Nat, base < (base / 60 + 1) * 60 := fun base => by omega
  have later : ∀ expr base, base < everyHour.getNext expr base := fun _ base => hhour base
  have hresting : twoIdle.Resting := ⟨fun _ => rfl, rfl⟩
  obtain ⟨row, counted, hrow, _, htotal, hrest, _⟩ := (lost_triggers_account later hresting rfl).2 s lost hrun
  have hnot : ¬ s.Sending "s" := by
    obtain ⟨_, _, inv⟩ := Run.invariant (Ledger.Step.accounts later) hrun ⟨_, [], .start hresting rfl⟩
    rw [inv.guarded.sending_iff hlock]
    intro hsends
    obtain ⟨_, _, slot, _, _, hsome⟩ := inv.guarded.sends hsends
    rw [show (s.checkers 1).uncounted "s" = [] from hquiet] at hsome
    cases hsome
  exact ⟨s, lost, hrun, hslots, hlost, row, counted, hrow, htotal, hrest hnot⟩

end BackendProjects.Workflow
