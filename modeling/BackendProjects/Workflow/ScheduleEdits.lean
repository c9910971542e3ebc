import BackendProjects.Workflow.Scheduler

/-! The two coupled columns of a schedule, its cron expression and its next run: sessions that write one
of them over a row whose other column has changed since take them apart. -/
namespace BackendProjects.Workflow
open Library
variable {cron : Croniter} {i : ScheduleId} {s s' : Scheduler} {loaded changed stored : WorkflowSchedule}

/-- Checkers, which may die, and API sessions at work on all schedules. -/
def ScheduleStep (cron : Croniter) (s s' : Scheduler) : Prop :=
  CheckerStep cron s s' ∨ DeathStep s s' ∨ EditorStep cron s s'

/-- A lock whose time is up is gone whatever its holder is doing, and a commit that fails stores nothing. -/
inductive FaultStep (s : Scheduler) : Scheduler → Prop
  | expire (i : ScheduleId) : FaultStep s (s.lock i none)
  | rollback (c : CheckerId) (now : Time) (i : ScheduleId) (rest : List ScheduleId)
      (loaded changed : WorkflowSchedule) (h : s.checkers c = .checking now i rest (.committing loaded changed)) :
      FaultStep s (s.move c (.checking now i [] .releasing))
  | abandon (e : EditorId) : FaultStep s { s with editors := Function.update s.editors e .idle }

/-- Checkers and API sessions under locks that exclude nobody for sure. -/
def UnguardedStep (cron : Croniter) (s s' : Scheduler) : Prop := ScheduleStep cron s s' ∨ FaultStep s s'

namespace WorkflowSchedule

def Consistent (cron : Croniter) (sched : WorkflowSchedule) : Prop :=
  ∀ v, sched.nextRunAt = some v → ∃ t, v = cron.computeNextCronRun sched.cronExpression t

/-- A session that writes only one of the two columns finds the other one as it has loaded it. -/
def Coupled (loaded changed stored : WorkflowSchedule) : Prop :=
  (changed.nextRunAt ≠ loaded.nextRunAt → changed.cronExpression = loaded.cronExpression →
    stored.cronExpression = loaded.cronExpression) ∧
  (changed.cronExpression ≠ loaded.cronExpression → changed.nextRunAt = loaded.nextRunAt →
    stored.nextRunAt = loaded.nextRunAt)

/-- The changes of a session: neither column, or a next run from its own expression. -/
def Prepared (cron : Croniter) (loaded changed : WorkflowSchedule) : Prop :=
  (changed.cronExpression = loaded.cronExpression ∧ changed.nextRunAt = loaded.nextRunAt) ∨
  ∃ t, changed.nextRunAt = some (cron.computeNextCronRun changed.cronExpression t)

/-- Coupled changes keep a stored row consistent. -/
private theorem Consistent.flush (h : stored.Consistent cron) (hprepared : Prepared cron loaded changed)
    (hcoupled : Coupled loaded changed stored) : (flush loaded changed stored).Consistent cron := by
  intro v hv
  simp only [WorkflowSchedule.flush] at hv ⊢
  by_cases hexpr : changed.cronExpression = loaded.cronExpression
  · rw [hexpr, writeBack_same]
    by_cases hnext : changed.nextRunAt = loaded.nextRunAt
    · rw [hnext, writeBack_same] at hv
      exact h v hv
    · rw [writeBack_of_ne hnext] at hv
      rcases hprepared with ⟨_, hsame⟩ | ⟨t, ht⟩
      · exact absurd hsame hnext
      · rw [hcoupled.1 hnext hexpr, ← hexpr]
        exact ⟨t, Option.some.inj (hv.symm.trans ht)⟩
  · rw [writeBack_of_ne hexpr]
    obtain ⟨t, ht⟩ : ∃ t, changed.nextRunAt = some (cron.computeNextCronRun changed.cronExpression t) := by
      rcases hprepared with ⟨hsame, _⟩ | h
      · exact absurd hsame hexpr
      · exact h
    refine ⟨t, Option.some.inj (hv.symm.trans ?_)⟩
    by_cases hnext : changed.nextRunAt = loaded.nextRunAt
    · rw [hnext, writeBack_same, hcoupled.2 hexpr hnext, ← hnext, ht]
    · rw [writeBack_of_ne hnext, ht]

private theorem prepared_scheduled (sched : WorkflowSchedule) (now : Time) :
    Prepared cron sched (sched.scheduled cron now) := Or.inr ⟨now, rfl⟩

private theorem prepared_triggered (sched : WorkflowSchedule) (now : Time) :
    Prepared cron sched (sched.triggered cron now) := Or.inr ⟨now, rfl⟩

end WorkflowSchedule

private theorem createSchedule_consistent {workflows : WorkflowId → Option Bool} {data : ScheduleCreate}
    {now : Time}
    {sched : WorkflowSchedule} (h : createSchedule cron workflows data now = .ok sched) :
    sched.Consistent cron := by
  unfold createSchedule Croniter.validateCron at h
  by_cases hworkflow : workflows data.workflowId = none
  · rw [if_pos hworkflow] at h
    cases h
  · rw [if_neg hworkflow] at h
    cases hreject : cron.reject data.cronExpression with
    | none =>
      simp only [hreject] at h
      cases h
      exact fun v hv => ⟨now, (Option.some.inj hv).symm⟩
    | some text =>
      simp only [hreject] at h
      cases h

private theorem updateSchedule_prepared {data : ScheduleUpdate} {now : Time}
    (h : updateSchedule cron data now loaded = .ok changed) : loaded.Prepared cron changed := by
  unfold updateSchedule Croniter.validateCron at h
  cases hdata : data.cronExpression with
  | none =>
    rw [hdata] at h
    cases h
    exact Or.inl ⟨rfl, rfl⟩
  | some expr =>
    rw [hdata] at h
    cases hreject : cron.reject expr with
    | none =>
      simp only [hreject] at h
      cases h
      exact Or.inr ⟨now, rfl⟩
    | some text =>
      simp only [hreject] at h
      cases h

def Commits (cron : Croniter) (i : ScheduleId) (loaded changed : WorkflowSchedule) (s s' : Scheduler) :
    Prop :=
  (∃ c now rest, s.checkers c = .checking now i rest (.committing loaded changed) ∧
    checkStep cron c s = some s') ∨
  ∃ e, s.editors e = .updating i loaded changed ∧ s.commitUpdate e = some s'

def CommitsCoupled (cron : Croniter) (s s' : Scheduler) : Prop := ∀ i loaded changed stored,
  Commits cron i loaded changed s s' → s.rows i = some stored → loaded.Coupled changed stored

/-- The rows are consistent, and what the sessions are about to commit is prepared. -/
structure Coherent (cron : Croniter) (s : Scheduler) : Prop where
  rows : ∀ i row, s.rows i = some row → row.Consistent cron
  checkers : ∀ c now i rest loaded changed,
    s.checkers c = .checking now i rest (.committing loaded changed) → loaded.Prepared cron changed
  editors : ∀ e i loaded changed, s.editors e = .updating i loaded changed → loaded.Prepared cron changed

private theorem Coherent.commit (inv : Coherent cron s) (hprepared : loaded.Prepared cron changed)
    (hcoupled : ∀ stored, s.rows i = some stored → loaded.Coupled changed stored) :
    ∀ j row, (s.commit i loaded changed).rows j = some row → row.Consistent cron := by
  intro j row hrow
  by_cases hj : j = i
  · subst hj
    rw [Scheduler.commit_self, Option.map_eq_some_iff] at hrow
    obtain ⟨stored, hstored, rfl⟩ := hrow
    exact (inv.rows j stored hstored).flush hprepared (hcoupled stored hstored)
  · rw [Scheduler.commit_of_ne _ _ _ _ hj] at hrow
    exact inv.rows j row hrow

/-- A checker takes up a new place. -/
private theorem Coherent.moved (inv : Coherent cron s) {c : CheckerId} {checker : Checker}
    (hrows : ∀ j row, s'.rows j = some row → row.Consistent cron)
    (hcheckers : s'.checkers = Function.update s.checkers c checker) (heditors : s'.editors = s.editors)
    (h : ∀ now i rest loaded changed, checker = .checking now i rest (.committing loaded changed) →
      loaded.Prepared cron changed) : Coherent cron s' := by
  refine ⟨hrows, fun c' now i rest loaded changed hc' => ?_, heditors ▸ inv.editors⟩
  rw [hcheckers] at hc'
  by_cases hne : c' = c
  · subst hne
    rw [Function.update_self] at hc'
    exact h now i rest loaded changed hc'
  · rw [Function.update_of_ne hne] at hc'
    exact inv.checkers c' now i rest loaded changed hc'

private theorem WorkflowSchedule.refreshed_prepared {row : WorkflowSchedule} {now : Time}
    (h : row.refreshed cron now = .committing loaded changed) : loaded.Prepared cron changed := by
  unfold refreshed at h
  split at h
  · split at h
    · cases h
      exact prepared_scheduled loaded now
    · split at h <;> cases h
  · cases h

private theorem Checker.next_ne_committing {now now' : Time} {ids rest : List ScheduleId} :
    Checker.next now ids ≠ .checking now' i rest (.committing loaded changed) :=
  fun h => by cases Checker.next_acquiring h

private theorem Coherent.checkMove (inv : Coherent cron s) {c : CheckerId} {now : Time} {rest : List ScheduleId}
    {place : CheckPlace} (hc : s.checkers c = .checking now i rest place)
    (h : CheckMove cron c now i s rest place s')
    (hcoupled : ∀ loaded changed stored, place = .committing loaded changed → s.rows i = some stored →
      loaded.Coupled changed stored) : Coherent cron s' := by
  cases h with
  | acquire free => exact inv.moved inv.rows rfl rfl (fun _ _ _ _ _ h => by cases h)
  | refuse taken => exact inv.moved inv.rows rfl rfl (fun _ _ _ _ _ h => absurd h Checker.next_ne_committing)
  | vanish gone => exact inv.moved inv.rows rfl rfl (fun _ _ _ _ _ h => by cases h)
  | refresh row read =>
    refine inv.moved inv.rows rfl rfl (fun now' j rest' loaded changed h => ?_)
    obtain ⟨-, -, -, hplace⟩ := Checker.checking.inj h
    exact WorkflowSchedule.refreshed_prepared hplace
  | found loaded active => exact inv.moved inv.rows rfl rfl (fun _ _ _ _ _ h => by cases h)
  | missing loaded inactive => exact inv.moved inv.rows rfl rfl (fun _ _ _ _ _ h => by cases h)
  | enqueue loaded =>
    refine inv.moved inv.rows rfl rfl (fun now' j rest' loaded' changed h => ?_)
    cases h
    exact WorkflowSchedule.prepared_triggered loaded now
  | commit loaded changed =>
    have hprepared := inv.checkers c now i rest loaded changed hc
    exact inv.moved (inv.commit hprepared (fun stored => hcoupled loaded changed stored rfl)) rfl rfl
      (fun _ _ _ _ _ h => by cases h)
  | release => exact inv.moved inv.rows rfl rfl (fun _ _ _ _ _ h => absurd h Checker.next_ne_committing)

private theorem Coherent.scheduleStep (inv : Coherent cron s) (hcoupled : CommitsCoupled cron s s')
    (h : ScheduleStep cron s s') : Coherent cron s' := by
  rcases h with h | h | h
  · cases h with
    | begin c now ids idle nodup active =>
      exact inv.moved inv.rows rfl rfl (fun _ _ _ _ _ h => absurd h Checker.next_ne_committing)
    | proceed c s' h =>
      obtain ⟨now, i, rest, place, hc, hmove⟩ := checkStep_move h
      refine inv.checkMove hc hmove (fun loaded changed stored hplace hstored => ?_)
      exact hcoupled i loaded changed stored (Or.inl ⟨c, now, rest, hplace ▸ hc, h⟩) hstored
    | raises c now i rest place hc raise => exact inv.moved inv.rows rfl rfl (fun _ _ _ _ _ h => by cases h)
  · cases h with
    | die c => exact inv.moved inv.rows rfl rfl (fun _ _ _ _ _ h => by cases h)
    | expire i c held dead => exact ⟨inv.rows, inv.checkers, inv.editors⟩
  · cases h with
    | create i data now sched new h =>
      refine ⟨fun j row hrow => ?_, inv.checkers, inv.editors⟩
      by_cases hj : j = i
      · subst hj
        obtain rfl : sched = row := by simpa [Scheduler.store] using hrow
        exact createSchedule_consistent h
      · exact inv.rows j row (by simpa [Scheduler.store, hj] using hrow)
    | load e i data now s' h =>
      unfold Scheduler.loadForUpdate at h
      repeat' split at h
      · next hchanged =>
        cases h
        refine ⟨inv.rows, inv.checkers, fun e' j loaded changed he' => ?_⟩
        by_cases hne : e' = e
        · subst hne
          simp only [Function.update_self] at he'
          cases he'
          exact updateSchedule_prepared hchanged
        · simp only [Function.update_of_ne hne] at he'
          exact inv.editors e' j loaded changed he'
      all_goals cases h
    | commit e s' h =>
      have hcommit := h
      unfold Scheduler.commitUpdate at h
      split at h
      · cases h
      · next i loaded changed he =>
        cases h
        have hprepared := inv.editors e i loaded changed he
        refine ⟨inv.commit hprepared (fun stored hstored => ?_), inv.checkers, fun e' j l c he' => ?_⟩
        · exact hcoupled i loaded changed stored (Or.inr ⟨e, he, hcommit⟩) hstored
        · by_cases hne : e' = e
          · subst hne
            simp only [Function.update_self] at he'
            cases he'
          · simp only [Function.update_of_ne hne] at he'
            exact inv.editors e' j l c he'

private theorem Coherent.faultStep (inv : Coherent cron s) (h : FaultStep s s') : Coherent cron s' := by
  cases h with
  | expire i => exact ⟨inv.rows, inv.checkers, inv.editors⟩
  | rollback c now i rest loaded changed hc => exact inv.moved inv.rows rfl rfl (fun _ _ _ _ _ h => by cases h)
  | abandon e =>
    refine ⟨inv.rows, inv.checkers, fun e' j loaded changed he' => ?_⟩
    by_cases hne : e' = e
    · subst hne
      simp only [Function.update_self] at he'
      cases he'
    · simp only [Function.update_of_ne hne] at he'
      exact inv.editors e' j loaded changed he'

private theorem Coherent.step (inv : Coherent cron s) (h : Where (CommitsCoupled cron) (UnguardedStep cron) s s') :
    Coherent cron s' := by
  obtain ⟨hcoupled, h | h⟩ := h
  · exact inv.scheduleStep hcoupled h
  · exact inv.faultStep h

structure Scheduler.Quiet (s : Scheduler) : Prop where
  checkers : ∀ c, s.checkers c = .idle
  editors : ∀ e, s.editors e = .idle

/-- In a run whose commits are all coupled with the rows that they write over, every committed next run
comes from the committed expression, whoever holds which lock. -/
theorem schedules_stay_consistent {s₀ s : Scheduler} (quiet : s₀.Quiet)
    (h : ∀ i row, s₀.rows i = some row → row.Consistent cron)
    (run : Run (Where (CommitsCoupled cron) (UnguardedStep cron)) s₀ s) :
    ∀ i row, s.rows i = some row → row.Consistent cron := by
  have hstart : Coherent cron s₀ := by
    refine ⟨h, fun c now i rest loaded changed hc => ?_, fun e i loaded changed he => ?_⟩
    · rw [quiet.checkers c] at hc
      cases hc
    · rw [quiet.editors e] at he
      cases he
  exact (run.invariant (fun _ _ inv h => Coherent.step inv h) hstart).rows

/-! ### An edit while a checker is at work -/

private def twoCrons : Croniter where
  reject := fun _ => none
  getNext := fun expr base =>
    if expr = "30 * * * *" then (base + 30) / 60 * 60 + 30 else (base / 60 + 1) * 60

private def fullHour : WorkflowSchedule where
  workflowId := "w"
  cronExpression := "0 * * * *"
  nextRunAt := some 60

private def beforeEdit : Scheduler where
  rows := fun i => if i = "s" then some fullHour else none
  workflows := fun _ => some true
  locks := fun _ => none
  queue := []
  checkers := fun _ => .idle
  editors := fun _ => .idle

private theorem beforeEdit_quiet : beforeEdit.Quiet := ⟨fun _ => rfl, fun _ => rfl⟩

private theorem beforeEdit_consistent (i : ScheduleId) (row : WorkflowSchedule)
    (h : beforeEdit.rows i = some row) : row.Consistent twoCrons := by
  by_cases hi : i = "s"
  · obtain rfl : fullHour = row := by simpa [beforeEdit, hi] using h
    exact fun v hv => ⟨0, (Option.some.inj hv).symm⟩
  · simp [beforeEdit, hi] at h

private theorem check_begins : UnguardedStep twoCrons beforeEdit (beforeEdit.move 0 (.next 61 ["s"])) := by
  refine Or.inl (Or.inl (.begin 0 61 ["s"] rfl (by simp) (fun i => ?_)))
  by_cases hi : i = "s" <;> simp [beforeEdit, hi, fullHour]

private inductive Turn where
  | check
  | expire
  | load
  | commit

private def turn : Turn → Scheduler → Option Scheduler
  | .check, s => checkStep twoCrons 0 s
  | .expire, s => some (s.lock "s" none)
  | .load, s => s.loadForUpdate twoCrons 0 "s" { cronExpression := some "30 * * * *" } 62
  | .commit, s => s.commitUpdate 0

private theorem turn_step (t : Turn) (s s' : Scheduler) (h : turn t s = some s') :
    UnguardedStep twoCrons s s' := by
  cases t with
  | check => exact Or.inl (Or.inl (.proceed 0 s' h))
  | expire =>
    cases h
    exact Or.inr (.expire "s")
  | load => exact Or.inl (Or.inr (Or.inr (.load 0 "s" { cronExpression := some "30 * * * *" } 62 s' h)))
  | commit => exact Or.inl (Or.inr (Or.inr (.commit 0 s' h)))

private structure Pair (s : Scheduler) : Prop where
  checkers : ∀ c ≠ 0, s.checkers c = .idle
  editors : ∀ e ≠ 0, s.editors e = .idle

private theorem Pair.after {t : Turn} (pair : Pair s) (h : turn t s = some s') : Pair s' := by
  cases t with
  | check =>
    obtain ⟨now, i, rest, place, -, hmove⟩ := checkStep_move h
    refine ⟨fun c hc => (hmove.checkers_of_ne c hc).trans (pair.checkers c hc), ?_⟩
    cases hmove <;> exact pair.editors
  | expire =>
    cases h
    exact ⟨pair.checkers, pair.editors⟩
  | load =>
    simp only [turn, Scheduler.loadForUpdate] at h
    repeat' split at h
    all_goals cases h
    exact ⟨pair.checkers, fun e he => (Function.update_of_ne he ..).trans (pair.editors e he)⟩
  | commit =>
    simp only [turn, Scheduler.commitUpdate] at h
    split at h <;> cases h
    exact ⟨pair.checkers, fun e he => (Function.update_of_ne he ..).trans (pair.editors e he)⟩

private def current (s : Scheduler) (i : ScheduleId) (loaded : WorkflowSchedule) : Bool :=
  (s.rows i).all fun row => row.cronExpression = loaded.cronExpression ∧ row.nextRunAt = loaded.nextRunAt

private def currentCopies (s : Scheduler) : Bool :=
  (match s.checkers 0 with
    | .checking _ i _ (.committing loaded _) => current s i loaded
    | _ => true) &&
  match s.editors 0 with
  | .updating i loaded _ => current s i loaded
  | .idle => true

private theorem Pair.coupled (pair : Pair s) (h : currentCopies s = true) : CommitsCoupled twoCrons s s' := by
  rw [currentCopies, Bool.and_eq_true] at h
  have hcoupled {i loaded changed stored} (hcurrent : current s i loaded = true) (hrow : s.rows i = some stored) :
      WorkflowSchedule.Coupled loaded changed stored := by
    simp only [current, hrow, Option.all_some, decide_eq_true_eq] at hcurrent
    exact ⟨fun _ _ => hcurrent.1, fun _ _ => hcurrent.2⟩
  rintro i loaded changed stored (⟨c, now, rest, hc, -⟩ | ⟨e, he, -⟩) hrow
  · by_cases h0 : c = 0
    · subst h0
      exact hcoupled (by simpa [hc] using h.1) hrow
    · rw [pair.checkers c h0] at hc
      cases hc
  · by_cases h0 : e = 0
    · subst h0
      exact hcoupled (by simpa [he] using h.2) hrow
    · rw [pair.editors e h0] at he
      cases he

private theorem Pair.run {ts : List Turn} (pair : Pair s)
    (h : execute (fun t s => if currentCopies s then turn t s else none) ts s = some s') :
    Run (Where (CommitsCoupled twoCrons) (UnguardedStep twoCrons)) s s' := by
  induction ts generalizing s with
  | nil =>
    cases h
    exact .refl
  | cons t ts ih =>
    obtain ⟨u, hu, hrest⟩ := Option.bind_eq_some_iff.mp h
    simp only at hu
    split at hu
    · next hcurrent => exact .head ⟨pair.coupled hcurrent, turn_step t s u hu⟩ (ih (pair.after hu) hrest)
    · cases hu

/-- The lock expires under the checker, which then commits; an edit comes after it. -/
theorem schedules_stay_consistent_expired : ∃ (s : Scheduler) (row : WorkflowSchedule),
    s.rows "s" = some row ∧ row.cronExpression = "30 * * * *" ∧ row.totalRuns = 1 ∧ row.nextRunAt = some 90 ∧
      row.Consistent twoCrons := by
  have hbegin : Where (CommitsCoupled twoCrons) (UnguardedStep twoCrons) beforeEdit
      (beforeEdit.move 0 (.next 61 ["s"])) := by
    have pair : Pair beforeEdit := ⟨fun _ _ => rfl, fun _ _ => rfl⟩
    exact ⟨pair.coupled rfl, check_begins⟩
  have pair : Pair (beforeEdit.move 0 (.next 61 ["s"])) :=
    ⟨fun c hc => Scheduler.move_of_ne _ _ _ hc, fun _ _ => rfl⟩
  have hedited : (execute (fun t s => if currentCopies s then turn t s else none)
      [.check, .check, .check, .expire, .check, .check, .load, .commit]
      (beforeEdit.move 0 (.next 61 ["s"]))).any (fun s => (s.rows "s").any (fun row =>
        row.cronExpression = "30 * * * *" ∧ row.totalRuns = 1 ∧ row.nextRunAt = some 90)) = true := by
    decide +kernel
  obtain ⟨s, hs, hrow⟩ := (Option.any_eq_true _ _).mp hedited
  obtain ⟨row, hrow, hfields⟩ := (Option.any_eq_true _ _).mp hrow
  obtain ⟨hexpr, htotal, hnext⟩ := of_decide_eq_true hfields
  exact ⟨s, row, hrow, hexpr, htotal, hnext, schedules_stay_consistent beforeEdit_quiet beforeEdit_consistent
    (.head hbegin (pair.run hs)) "s" row hrow⟩

/-- The checker sends the slot of the full hour, the API sets the expression to half past and commits, and
the checker then commits the next full hour. -/
theorem edit_during_a_check : ∃ s, Run (UnguardedStep twoCrons) beforeEdit s ∧
    ∃ row, s.rows "s" = some row ∧ row.cronExpression = "30 * * * *" ∧ ¬ row.Consistent twoCrons := by
  have hedited : (execute turn [.check, .check, .check, .check, .load, .commit, .check]
      (beforeEdit.move 0 (.next 61 ["s"]))).any (fun s =>
        (s.rows "s").any (fun row => row.cronExpression = "30 * * * *" ∧ row.nextRunAt = some 120)) = true := by
    decide +kernel
  obtain ⟨s, run, hs⟩ := exists_run_of_execute (fun t _ => turn_step t) hedited
  obtain ⟨row, hrow, hfields⟩ := (Option.any_eq_true _ _).mp hs
  obtain ⟨hexpr, hnext⟩ := of_decide_eq_true hfields
  refine ⟨s, .head check_begins run, row, hrow, hexpr, fun hconsistent => ?_⟩
  obtain ⟨t, ht⟩ := hconsistent 120 hnext
  rw [hexpr] at ht
  have hhalf : ∀ t : Nat, 120 ≠ (t + 30) / 60 * 60 + 30 := fun t => by omega
  exact hhalf t ht

end BackendProjects.Workflow
