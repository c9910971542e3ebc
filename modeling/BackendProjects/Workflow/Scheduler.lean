import BackendProjects.Library.Runs
import BackendProjects.Library.WriteBack
import BackendProjects.Workflow.Values
import Mathlib.Logic.Function.Basic

/-! Cron schedules: checkers that trigger what is due under a lock for each schedule, and API
sessions that edit schedules without it. A step ends at the next await. -/
namespace BackendProjects.Workflow
open Library

abbrev ScheduleId := String
abbrev WorkflowId := String
abbrev CheckerId := Nat
abbrev EditorId := Nat

structure WorkflowSchedule where
  workflowId : WorkflowId
  cronExpression : String
  isActive : Bool := true
  inputData : Option PyDict := none
  lastRunAt : Option Time := none
  nextRunAt : Option Time := none
  totalRuns : Nat := 0

/-- The croniter package: the text with which it rejects an expression, and the next time after a
base. -/
structure Croniter where
  reject : String → Option String
  getNext : String → Time → Time

def Croniter.computeNextCronRun (cron : Croniter) (cronExpression : String) (after : Time) : Time :=
  cron.getNext cronExpression after

namespace WorkflowSchedule
variable (cron : Croniter) (now : Time) (sched : WorkflowSchedule)

def scheduled : WorkflowSchedule :=
  { sched with nextRunAt := some (cron.computeNextCronRun sched.cronExpression now) }

def triggered : WorkflowSchedule :=
  { sched with
    lastRunAt := some now
    totalRuns := sched.totalRuns + 1
    nextRunAt := some (cron.computeNextCronRun sched.cronExpression now) }

/-- The columns that a session has changed since it loaded the row are written over the stored one. -/
def flush (loaded changed stored : WorkflowSchedule) : WorkflowSchedule where
  workflowId := stored.workflowId
  cronExpression := writeBack loaded.cronExpression changed.cronExpression stored.cronExpression
  isActive := writeBack loaded.isActive changed.isActive stored.isActive
  inputData := writeBack loaded.inputData changed.inputData stored.inputData
  lastRunAt := writeBack loaded.lastRunAt changed.lastRunAt stored.lastRunAt
  nextRunAt := writeBack loaded.nextRunAt changed.nextRunAt stored.nextRunAt
  totalRuns := writeBack loaded.totalRuns changed.totalRuns stored.totalRuns

/-- A session whose copy is current stores exactly its own values. -/
theorem flush_fresh (loaded changed : WorkflowSchedule) (h : changed.workflowId = loaded.workflowId) :
    flush loaded changed loaded = changed := by
  simp only [flush, writeBack_fresh, ← h]

end WorkflowSchedule

/-! ### Checkers -/

/-- A message to the worker that starts a scheduled workflow. The slot, the next_run_at that was
due, is not part of it. -/
structure Trigger where
  workflowId : WorkflowId
  scheduleId : ScheduleId
  inputData : PyDict
  slot : Option Time

inductive CheckPlace where
  | acquiring
  | refreshing
  | lookingUp (loaded : WorkflowSchedule)
  | enqueueing (loaded : WorkflowSchedule)
  | committing (loaded changed : WorkflowSchedule)
  | releasing

inductive Checker where
  | idle
  | checking (now : Time) (sched : ScheduleId) (rest : List ScheduleId) (place : CheckPlace)
  | dead

def Checker.next (now : Time) : List ScheduleId → Checker
  | [] => .idle
  | sched :: rest => .checking now sched rest .acquiring

inductive Editor where
  | idle
  | updating (sched : ScheduleId) (loaded changed : WorkflowSchedule)

/-- The tables, the locks in Redis, the queue of the broker, and the sessions. -/
structure Scheduler where
  rows : ScheduleId → Option WorkflowSchedule
  workflows : WorkflowId → Option Bool
  locks : ScheduleId → Option CheckerId
  queue : List Trigger
  checkers : CheckerId → Checker
  editors : EditorId → Editor

def WorkflowSchedule.refreshed (cron : Croniter) (now : Time) (sched : WorkflowSchedule) : CheckPlace :=
  if sched.isActive then
    match sched.nextRunAt with
    | none => .committing sched (sched.scheduled cron now)
    | some nxt => if now < nxt then .releasing else .lookingUp sched
  else .releasing

def WorkflowSchedule.trigger (sched : WorkflowSchedule) (id : ScheduleId) : Trigger :=
  ⟨sched.workflowId, id, sched.inputData.getD [], sched.nextRunAt⟩

namespace Scheduler

def move (s : Scheduler) (c : CheckerId) (checker : Checker) : Scheduler :=
  { s with checkers := Function.update s.checkers c checker }

def lock (s : Scheduler) (i : ScheduleId) (holder : Option CheckerId) : Scheduler :=
  { s with locks := Function.update s.locks i holder }

def store (s : Scheduler) (i : ScheduleId) (row : Option WorkflowSchedule) : Scheduler :=
  { s with rows := Function.update s.rows i row }

def enqueueWorkflowTrigger (s : Scheduler) (t : Trigger) : Scheduler := { s with queue := s.queue ++ [t] }

def commit (s : Scheduler) (i : ScheduleId) (loaded changed : WorkflowSchedule) : Scheduler :=
  s.store i ((s.rows i).map (WorkflowSchedule.flush loaded changed))

end Scheduler

/-- One step of check_and_trigger, from an await to the next. A refresh of a row that is gone raises,
and an exception ends the loop after the release. -/
def checkStep (cron : Croniter) (c : CheckerId) (s : Scheduler) : Option Scheduler :=
  match s.checkers c with
  | .idle | .dead => none
  | .checking now i rest place =>
    let goto (s : Scheduler) (place : CheckPlace) := s.move c (.checking now i rest place)
    match place with
    | .acquiring =>
      if s.locks i = none then some (goto (s.lock i (some c)) .refreshing)
      else some (s.move c (.next now rest))
    | .refreshing =>
      match s.rows i with
      | none => some (s.move c (.checking now i [] .releasing))
      | some row => some (goto s (row.refreshed cron now))
    | .lookingUp loaded =>
      if s.workflows loaded.workflowId = some true then some (goto s (.enqueueing loaded))
      else some (goto s .releasing)
    | .enqueueing loaded =>
      some (goto (s.enqueueWorkflowTrigger (loaded.trigger i))
        (.committing loaded (loaded.triggered cron now)))
    | .committing loaded changed => some (goto (s.commit i loaded changed) .releasing)
    | .releasing => some ((s.lock i none).move c (.next now rest))

/-- The awaits of the body that can raise; commits succeed. -/
def CheckPlace.MayRaise : CheckPlace → Prop
  | .refreshing | .lookingUp _ | .enqueueing _ => True
  | _ => False

/-- A step of the checkers; a call begins with a list of the active schedules and one look at its
clock. -/
inductive CheckerStep (cron : Croniter) (s : Scheduler) : Scheduler → Prop
  | begin (c : CheckerId) (now : Time) (ids : List ScheduleId) (idle : s.checkers c = .idle)
      (nodup : ids.Nodup) (active : ∀ i, i ∈ ids ↔ ∃ row, s.rows i = some row ∧ row.isActive = true) :
      CheckerStep cron s (s.move c (.next now ids))
  | proceed (c : CheckerId) (s' : Scheduler) (h : checkStep cron c s = some s') : CheckerStep cron s s'
  | raises (c : CheckerId) (now : Time) (i : ScheduleId) (rest : List ScheduleId) (place : CheckPlace)
      (h : s.checkers c = .checking now i rest place) (raise : place.MayRaise) :
      CheckerStep cron s (s.move c (.checking now i [] .releasing))

/-- A checker dies anywhere, and its lock expires some time later. -/
inductive DeathStep (s : Scheduler) : Scheduler → Prop
  | die (c : CheckerId) : DeathStep s (s.move c .dead)
  | expire (i : ScheduleId) (c : CheckerId) (held : s.locks i = some c) (dead : s.checkers c = .dead) :
      DeathStep s (s.lock i none)

/-! ### API sessions -/

structure ScheduleCreate where
  workflowId : WorkflowId
  cronExpression : String
  isActive : Bool := true
  inputData : Option PyDict := none

structure ScheduleUpdate where
  cronExpression : Option String := none
  isActive : Option Bool := none
  inputData : Option PyDict := none

def Croniter.validateCron (cron : Croniter) (expr : String) : Except PyError Unit :=
  match cron.reject expr with
  | none => .ok ()
  | some text => .error (.valueError text)

def createSchedule (cron : Croniter) (workflows : WorkflowId → Option Bool) (data : ScheduleCreate)
    (now : Time) : Except PyError WorkflowSchedule := do
  if workflows data.workflowId = none then
    throw (.valueError "Workflow not found")
  cron.validateCron data.cronExpression
  return {
    workflowId := data.workflowId
    cronExpression := data.cronExpression
    isActive := data.isActive
    inputData := data.inputData
    nextRunAt := some (cron.computeNextCronRun data.cronExpression now) }

def updateSchedule (cron : Croniter) (data : ScheduleUpdate) (now : Time) (sched : WorkflowSchedule) :
    Except PyError WorkflowSchedule := do
  let sched ← match data.cronExpression with
    | none => pure sched
    | some expr => do
      cron.validateCron expr
      pure { sched with
        cronExpression := expr
        nextRunAt := some (cron.computeNextCronRun expr now) }
  return {
    sched with
    isActive := data.isActive.getD sched.isActive
    inputData := data.inputData.or sched.inputData }

namespace Scheduler

def loadForUpdate (cron : Croniter) (e : EditorId) (i : ScheduleId) (data : ScheduleUpdate) (now : Time)
    (s : Scheduler) : Option Scheduler :=
  match s.editors e, s.rows i with
  | .idle, some loaded =>
    match updateSchedule cron data now loaded with
    | .ok changed => some { s with editors := Function.update s.editors e (.updating i loaded changed) }
    | .error _ => none
  | _, _ => none

def commitUpdate (e : EditorId) (s : Scheduler) : Option Scheduler :=
  match s.editors e with
  | .idle => none
  | .updating i loaded changed =>
    some { s.commit i loaded changed with editors := Function.update s.editors e .idle }

end Scheduler

/-- A step of an API session: the row of a new schedule, or a row loaded and changed, and its
commit. -/
inductive EditorStep (cron : Croniter) (s : Scheduler) : Scheduler → Prop
  | create (i : ScheduleId) (data : ScheduleCreate) (now : Time) (sched : WorkflowSchedule)
      (new : s.rows i = none) (h : createSchedule cron s.workflows data now = .ok sched) :
      EditorStep cron s (s.store i (some sched))
  | load (e : EditorId) (i : ScheduleId) (data : ScheduleUpdate) (now : Time) (s' : Scheduler)
      (h : s.loadForUpdate cron e i data now = some s') : EditorStep cron s s'
  | commit (e : EditorId) (s' : Scheduler) (h : s.commitUpdate e = some s') : EditorStep cron s s'

/-! ### What a step of a checker does -/

namespace Scheduler
variable (s : Scheduler) (c : CheckerId) (checker : Checker) (i : ScheduleId) (holder : Option CheckerId)
  (t : Trigger) (loaded changed : WorkflowSchedule)

@[simp] theorem move_rows : (s.move c checker).rows = s.rows := rfl
@[simp] theorem move_locks : (s.move c checker).locks = s.locks := rfl
@[simp] theorem move_queue : (s.move c checker).queue = s.queue := rfl
@[simp] theorem move_self : (s.move c checker).checkers c = checker := Function.update_self ..

@[simp] theorem move_of_ne {c' : CheckerId} (h : c' ≠ c) : (s.move c checker).checkers c' = s.checkers c' :=
  Function.update_of_ne h ..

@[simp] theorem lock_rows : (s.lock i holder).rows = s.rows := rfl
@[simp] theorem lock_queue : (s.lock i holder).queue = s.queue := rfl
@[simp] theorem lock_checkers : (s.lock i holder).checkers = s.checkers := rfl
@[simp] theorem lock_self : (s.lock i holder).locks i = holder := Function.update_self ..

@[simp] theorem lock_of_ne {j : ScheduleId} (h : j ≠ i) : (s.lock i holder).locks j = s.locks j :=
  Function.update_of_ne h ..

@[simp] theorem enqueue_rows : (s.enqueueWorkflowTrigger t).rows = s.rows := rfl
@[simp] theorem enqueue_locks : (s.enqueueWorkflowTrigger t).locks = s.locks := rfl
@[simp] theorem enqueue_checkers : (s.enqueueWorkflowTrigger t).checkers = s.checkers := rfl

@[simp] theorem commit_locks : (s.commit i loaded changed).locks = s.locks := rfl
@[simp] theorem commit_queue : (s.commit i loaded changed).queue = s.queue := rfl
@[simp] theorem commit_checkers : (s.commit i loaded changed).checkers = s.checkers := rfl

@[simp] theorem commit_self : (s.commit i loaded changed).rows i =
    (s.rows i).map (WorkflowSchedule.flush loaded changed) := Function.update_self ..

@[simp] theorem commit_of_ne {j : ScheduleId} (h : j ≠ i) :
    (s.commit i loaded changed).rows j = s.rows j := Function.update_of_ne h ..

end Scheduler

theorem Checker.next_acquiring {now now' : Time} {ids rest : List ScheduleId} {i : ScheduleId}
    {place : CheckPlace} (h : Checker.next now ids = .checking now' i rest place) : place = .acquiring := by
  cases ids with
  | nil => cases h
  | cons j ids =>
    cases h
    rfl

/-- The moves of a checker with one schedule. -/
inductive CheckMove (cron : Croniter) (c : CheckerId) (now : Time) (i : ScheduleId) (s : Scheduler) :
    List ScheduleId → CheckPlace → Scheduler → Prop
  | acquire (rest) (free : s.locks i = none) :
      CheckMove cron c now i s rest .acquiring ((s.lock i (some c)).move c (.checking now i rest .refreshing))
  | refuse (rest) (taken : s.locks i ≠ none) :
      CheckMove cron c now i s rest .acquiring (s.move c (.next now rest))
  | vanish (rest) (gone : s.rows i = none) :
      CheckMove cron c now i s rest .refreshing (s.move c (.checking now i [] .releasing))
  | refresh (rest) (row : WorkflowSchedule) (read : s.rows i = some row) :
      CheckMove cron c now i s rest .refreshing (s.move c (.checking now i rest (row.refreshed cron now)))
  | found (rest) (loaded : WorkflowSchedule) (active : s.workflows loaded.workflowId = some true) :
      CheckMove cron c now i s rest (.lookingUp loaded) (s.move c (.checking now i rest (.enqueueing loaded)))
  | missing (rest) (loaded : WorkflowSchedule) (inactive : s.workflows loaded.workflowId ≠ some true) :
      CheckMove cron c now i s rest (.lookingUp loaded) (s.move c (.checking now i rest .releasing))
  | enqueue (rest) (loaded : WorkflowSchedule) :
      CheckMove cron c now i s rest (.enqueueing loaded) ((s.enqueueWorkflowTrigger (loaded.trigger i)).move c
        (.checking now i rest (.committing loaded (loaded.triggered cron now))))
  | commit (rest) (loaded changed : WorkflowSchedule) :
      CheckMove cron c now i s rest (.committing loaded changed)
        ((s.commit i loaded changed).move c (.checking now i rest .releasing))
  | release (rest) :
      CheckMove cron c now i s rest .releasing ((s.lock i none).move c (.next now rest))

/-- A move of a checker leaves the others alone. -/
theorem CheckMove.checkers_of_ne {cron : Croniter} {c : CheckerId} {now : Time} {i : ScheduleId}
    {s s' : Scheduler} {rest : List ScheduleId} {place : CheckPlace}
    (h : CheckMove cron c now i s rest place s') : ∀ c' ≠ c, s'.checkers c' = s.checkers c' := by
  intro c' hc'
  cases h <;> simp [hc']

theorem checkStep_move {cron : Croniter} {c : CheckerId} {s s' : Scheduler}
    (h : checkStep cron c s = some s') : ∃ now i rest place,
      s.checkers c = .checking now i rest place ∧ CheckMove cron c now i s rest place s' := by
  unfold checkStep at h
  split at h
  · cases h
  · cases h
  · next now i rest place hc =>
    refine ⟨now, i, rest, place, hc, ?_⟩
    cases place with
    | acquiring =>
      simp only at h
      split at h
      · next free => exact Option.some.inj h ▸ .acquire rest free
      · next taken => exact Option.some.inj h ▸ .refuse rest taken
    | refreshing =>
      simp only at h
      split at h
      · next gone => exact Option.some.inj h ▸ .vanish rest gone
      · next row read => exact Option.some.inj h ▸ .refresh rest row read
    | lookingUp loaded =>
      simp only at h
      split at h
      · next active => exact Option.some.inj h ▸ .found rest loaded active
      · next inactive => exact Option.some.inj h ▸ .missing rest loaded inactive
    | enqueueing loaded => exact Option.some.inj h ▸ .enqueue rest loaded
    | committing loaded changed => exact Option.some.inj h ▸ .commit rest loaded changed
    | releasing => exact Option.some.inj h ▸ .release rest

end BackendProjects.Workflow
