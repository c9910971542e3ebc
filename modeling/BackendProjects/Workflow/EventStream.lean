import BackendProjects.Workflow.Works

/-! What a run publishes for its listeners, and the protocol that a listener may rely on: one start,
then the attempts of each task one after the other, and at most one end. -/
namespace BackendProjects.Workflow
open Library

/-- The payloads that `execute_workflow` broadcasts, without the ids of the execution and the workflow. -/
inductive Event where
  | executionStarted (status : ExecutionState)
  | executionCancelled (status : ExecutionState)
  | executionFailed (status : ExecutionState)
  | executionCompleted (status : ExecutionState)
  | taskRunning (t : TaskId) (attempt : Nat)
  | taskFailed (t : TaskId) (error : Option String)
  | taskCompleted (t : TaskId)
  | taskSkipped (t : TaskId)
  deriving DecidableEq

namespace Event

def task? : Event → Option TaskId
  | taskRunning t _ | taskFailed t _ | taskCompleted t | taskSkipped t => some t
  | _ => none

def status? : Event → Option ExecutionState
  | executionStarted status | executionCancelled status | executionFailed status
  | executionCompleted status => some status
  | _ => none

def Ends : Event → Prop
  | executionCancelled _ | executionFailed _ | executionCompleted _ => True
  | _ => False

end Event

abbrev Publisher := Option TaskId

def Choice.publisher : Choice → Publisher
  | .main _ | .propagate _ => none
  | .node t _ _ _ => some t

def bodyEvent (s s' : RunState) : Option Event :=
  match s.main, s'.main with
  | .loaded, .starting => some (.executionStarted s'.mem.execution.status)
  | .checking, .returned =>
      if s.mem.execution.status = .cancelled then some (.executionCancelled s.mem.execution.status)
      else some (.executionFailed s'.mem.execution.status)
  | .skipping (sid :: _), .skipping _ => some (.taskSkipped sid)
  | .skipCreating sid _, .skipping _ => some (.taskSkipped sid)
  | .final, .returned =>
      if s.mem.execution.status = .cancelled ∨ s.failed = true then none
      else some (.executionCompleted s'.mem.execution.status)
  | _, _ => none

def nodeEvent (t : TaskId) (s s' : RunState) : Option Event :=
  match s.pc t, s'.pc t with
  | .looping te _, .running _ _ => s'.mem.tasks[te]?.map fun row => .taskRunning t row.attempt
  | .handling _ _, .finishing _ _ => some (.taskCompleted t)
  | .handling te _, .attemptFailed _ _ => s'.mem.tasks[te]?.map fun row => .taskFailed t row.error
  | .branching (sid :: _), .branching _ => some (.taskSkipped sid)
  | .branchCreating sid _, .branching _ => some (.taskSkipped sid)
  | _, _ => none

def announced (who : Publisher) (s s' : RunState) : Option Event :=
  match who with
  | none => bodyEvent s s'
  | some t => nodeEvent t s s'

/-- A run with its channel: what the publishers have committed and not yet published, and what has
been published. -/
structure Feed where
  run : RunState
  pending : Publisher → Option Event
  sent : List Event

inductive FeedChoice where
  | own (c : Choice)
  | send (who : Publisher)
  /-- Other sessions leave these rows in the store. -/
  | others (db : Database)

namespace Feed
variable (E : Engine) (answers : Answers) (Others : Database → Database → Prop)

def start (db : Database) : Feed := ⟨.start E db, fun _ => none, []⟩

/-- A publisher that has something to publish goes no further before it is published. -/
def step : FeedChoice → Feed → Option Feed
  | .own c, f =>
      if f.pending c.publisher = none then
        (Workflow.step E c f.run).map fun s =>
          ⟨s, Function.update f.pending c.publisher (announced c.publisher f.run s), f.sent⟩
      else none
  | .send who, f => (f.pending who).map fun e =>
      { f with pending := Function.update f.pending who none, sent := f.sent ++ [e] }
  | .others db, f => some { f with run := { f.run with db := db } }

def Legal (f : Feed) : FeedChoice → Prop
  | .own c => Workflow.Legal E answers f.run c
  | .send _ => True
  | .others db => Others f.run.db db

def Step (f f' : Feed) : Prop := ∃ c, Legal E answers Others f c ∧ step E c f = some f'

inductive Move (f : Feed) : Feed → Prop
  | body {s : RunState} (hidle : f.pending none = none) (h : MainMove E f.run s) :
      Move f ⟨s, Function.update f.pending none (bodyEvent f.run s), f.sent⟩
  | node {s : RunState} {node : DAGNode} (hnode : E.dag.getTask node.taskId = .ok node)
      (hidle : f.pending (some node.taskId) = none) (h : NodeMove E answers node f.run s) :
      Move f ⟨s, Function.update f.pending (some node.taskId) (nodeEvent node.taskId f.run s), f.sent⟩
  | send {who : Publisher} {e : Event} (h : f.pending who = some e) :
      Move f { f with pending := Function.update f.pending who none, sent := f.sent ++ [e] }
  | others {db : Database} (h : Others f.run.db db) : Move f { f with run := { f.run with db := db } }

variable {E answers Others} {f f' : Feed}

theorem step_cases (h : Step E answers Others f f') : Move E answers Others f f' := by
  obtain ⟨c, legal, h⟩ := h
  cases c with
  | send who =>
    obtain ⟨e, he, rfl⟩ := Option.map_eq_some_iff.mp h
    exact .send he
  | others db =>
    cases h
    exact .others legal
  | own c =>
    simp only [step] at h
    split at h
    · next hidle =>
      obtain ⟨s, hs, rfl⟩ := Option.map_eq_some_iff.mp h
      cases c with
      | main now => exact .body hidle (mainStep_move hs)
      | propagate t =>
        simp only [Workflow.step] at hs
        split at hs
        · next e hmain hpc =>
          split at hs
          · next hwave => cases hs; exact .body hidle (.propagate hmain hwave hpc)
          · cases hs
        · cases hs
      | node t now sample outcome =>
        simp only [Workflow.step] at hs
        split at hs
        · next node hnode =>
          obtain rfl := (E.dag.getTask_ok hnode).2
          exact .node hnode hidle (nodeStep_move hs fun te input row hpc hrow =>
            legal te input node row hpc hnode hrow)
        · cases hs
    · cases h

end Feed

/-! ### The protocol -/

inductive Span where
  | ahead
  | opened
  | over
  deriving DecidableEq

inductive Trial where
  | none
  | running (attempt : Nat)
  | failed (attempt : Nat)
  | completed
  deriving DecidableEq

structure Listener where
  span : Span
  trial : TaskId → Trial

def Span.next : Span → Event → Option Span
  | .ahead, .executionStarted _ => some .opened
  | .ahead, _ => .none
  | .opened, .executionStarted _ => .none
  | .opened, .executionCancelled _ | .opened, .executionFailed _ | .opened, .executionCompleted _ =>
      some .over
  | .opened, _ => some .opened
  | .over, _ => .none

private theorem Span.next_ends {span next : Span} {e : Event} (h : span.next e = some next) (hends : e.Ends) :
    next = .over := by
  cases e with
  | executionCancelled status | executionFailed status | executionCompleted status =>
    cases span <;> cases h
    rfl
  | _ => exact hends.elim

private theorem Span.next_over (e : Event) : Span.over.next e = none := by
  cases e <;> rfl

/-- The attempts of a task are announced in order, each with its end before the next one. -/
def Trial.next : Trial → Event → Option Trial
  | .none, .taskRunning _ attempt => some (.running attempt)
  | .failed last, .taskRunning _ attempt => if attempt = last + 1 then some (.running attempt) else .none
  | .running attempt, .taskFailed _ _ => some (.failed attempt)
  | .running _, .taskCompleted _ => some .completed
  | trial, .taskSkipped _ => some trial
  | _, _ => .none

def announcedAttempts (t : TaskId) (es : List Event) : List Nat :=
  es.filterMap fun
    | .taskRunning u attempt => if u = t then some attempt else none
    | _ => none

namespace Listener

def initial : Listener := ⟨.ahead, fun _ => .none⟩

/-- Take in one event; a listener that is told what it cannot follow gives up. -/
def receive (l : Listener) (e : Event) : Option Listener := do
  let span ← l.span.next e
  match e.task? with
  | none => some { l with span := span }
  | some t => (l.trial t).next e |>.map fun trial => ⟨span, Function.update l.trial t trial⟩

def listen (es : List Event) : Option Listener := es.foldlM receive initial

@[simp] theorem listen_append (es : List Event) (e : Event) :
    listen (es ++ [e]) = (listen es).bind (receive · e) := by
  simp [listen]

variable {es : List Event} {l : Listener} {e : Event}

private theorem receive_some {l' : Listener} (h : l.receive e = some l') : l.span.next e = some l'.span ∧
    ∀ t, if e.task? = some t then (l.trial t).next e = some (l'.trial t) else l'.trial t = l.trial t := by
  obtain ⟨span, hspan, h⟩ := Option.bind_eq_some_iff.mp h
  split at h
  · next htask =>
    cases h
    exact ⟨hspan, fun t => by simp [htask]⟩
  · next u htask =>
    obtain ⟨trial, htrial, rfl⟩ := Option.map_eq_some_iff.mp h
    refine ⟨hspan, fun t => ?_⟩
    rw [htask]
    by_cases ht : u = t
    · subst ht
      simpa using htrial
    · simp [ht, Ne.symm ht]

/-- An event that ends the stream is its last one. -/
theorem listen_ends (h : listen es = some l) {before after : List Event}
    (hes : es = before ++ e :: after) (hends : e.Ends) : after = [] ∧ l.span = .over := by
  induction es using List.reverseRecOn generalizing l after with
  | nil => simp at hes
  | append_singleton es last ih =>
    rw [listen_append] at h
    obtain ⟨l₀, hes₀, hlast⟩ := Option.bind_eq_some_iff.mp h
    obtain ⟨hspan, _⟩ := receive_some hlast
    rcases List.eq_nil_or_concat after with rfl | ⟨after, x, rfl⟩
    · obtain ⟨rfl, hx⟩ := List.append_inj' hes rfl
      obtain rfl : last = e := by simpa using hx
      exact ⟨rfl, Span.next_ends hspan hends⟩
    · rw [List.concat_eq_append, ← List.cons_append, ← List.append_assoc] at hes
      have hover := (ih hes₀ (List.append_inj' hes rfl).1).2
      rw [hover, Span.next_over] at hspan
      cases hspan

structure Numbered (trial : Trial) (first n : Nat) : Prop where
  untold : trial = .none → n = 0
  last : ∀ attempt, trial = .running attempt ∨ trial = .failed attempt → first + n = attempt + 1

/-- The announced attempts of a task are numbered one by one. -/
theorem listen_attempts (h : listen es = some l) (t : TaskId) :
    ∃ first n, announcedAttempts t es = List.range' first n ∧ Numbered (l.trial t) first n := by
  induction es using List.reverseRecOn generalizing l with
  | nil =>
    cases h
    exact ⟨0, 0, rfl, fun _ => rfl, by simp [initial]⟩
  | append_singleton es last ih =>
    rw [listen_append] at h
    obtain ⟨l₀, hes₀, hlast⟩ := Option.bind_eq_some_iff.mp h
    obtain ⟨first, n, hes, numbered⟩ := ih hes₀
    have htrial := (receive_some hlast).2 t
    rw [announcedAttempts, List.filterMap_append, ← announcedAttempts, hes]
    by_cases htask : last.task? = some t
    · rw [if_pos htask] at htrial
      cases last with
      | taskRunning u attempt =>
        obtain rfl : u = t := Option.some.inj htask
        simp only [List.filterMap_cons, if_true, List.filterMap_nil]
        cases hl : l₀.trial u with
        | none =>
          rw [hl] at htrial
          rw [numbered.untold hl, ← Option.some.inj htrial]
          exact ⟨attempt, 1, rfl, by simp, by simp⟩
        | failed previous =>
          simp only [hl, Trial.next, Option.ite_none_right_eq_some, Option.some.injEq] at htrial
          obtain ⟨rfl, hnext⟩ := htrial
          have hlast := numbered.last previous (Or.inr hl)
          rw [← hnext]
          refine ⟨first, n + 1, ?_, by simp, by simp; omega⟩
          rw [List.range'_1_concat, hlast]
        | _ => rw [hl] at htrial; cases htrial
      | taskFailed u error =>
        refine ⟨first, n, by simp, ?_⟩
        cases hl : l₀.trial t with
        | running attempt =>
          rw [hl] at htrial
          rw [← Option.some.inj htrial]
          have hlast := numbered.last attempt (Or.inl hl)
          exact ⟨by simp, by simpa using hlast⟩
        | _ => rw [hl] at htrial; cases htrial
      | taskCompleted u =>
        refine ⟨first, n, by simp, ?_⟩
        cases hl : l₀.trial t with
        | running attempt =>
          rw [hl] at htrial
          rw [← Option.some.inj htrial]
          exact ⟨by simp, by simp⟩
        | _ => rw [hl] at htrial; cases htrial
      | taskSkipped u =>
        have hsame : l₀.trial t = l.trial t := by
          cases hl : l₀.trial t <;> rw [hl] at htrial <;> exact Option.some.inj htrial
        exact ⟨first, n, by simp, hsame ▸ numbered⟩
      | _ => cases htask
    · rw [if_neg htask] at htrial
      refine ⟨first, n, ?_, htrial ▸ numbered⟩
      cases last with
      | taskRunning u attempt =>
        have hu : u ≠ t := fun heq => htask (congrArg some heq)
        simp [hu]
      | _ => simp

end Listener

/-- The changes that other sessions make to rows in statuses and times. -/
def KeepsWork (old new : Database) : Prop :=
  new.tasks.map TaskExecution.work = old.tasks.map TaskExecution.work

/-- What a listener knows of a task once it has been told everything that its coroutine has committed. -/
def TrialFits (s : RunState) (t : TaskId) (trial : Trial) : Prop :=
  match s.pc t with
  | .waiting | .checking | .entering | .creating | .prepared _ => trial = .none
  | .looping te _ => trial = .none ∨ ∃ w last, s.works[te]? = some w ∧ trial = .failed last ∧
      w.attempt = last + 1
  | .running te _ | .handling te _ => ∃ w, s.works[te]? = some w ∧ trial = .running w.attempt
  | .attemptFailed te _ | .sleeping te _ => ∃ w, s.works[te]? = some w ∧ trial = .failed w.attempt
  | .finishing _ true => trial = .completed
  | .branching _ | .branchCreating _ _ => trial = .completed ∧ t ∈ s.completed
  | .finishing _ false | .raised _ => True
  | .done => trial = .none ∨ t ∈ s.completed ∨ s.failed = true

/-- What a listener knows of the execution, and what the body is about to publish. -/
def SpanFits (s : RunState) (pending : Option Event) (span : Span) : Prop :=
  match s.main with
  | .lookup | .loaded => span = .ahead ∧ pending = none
  | .starting => span = .ahead ∧ (∃ status, pending = some (.executionStarted status)) ∨
      span = .opened ∧ pending = none
  | .returned => span = .opened ∧ (pending = none ∨ ∃ e, pending = some e ∧ e.Ends) ∨
      span = .over ∧ pending = none
  | .skipping _ => span = .opened ∧ (pending = none ∨ ∃ t, pending = some (.taskSkipped t))
  | _ => span = .opened ∧ pending = none

def Trial.after (t : TaskId) (trial : Trial) : Option Event → Option Trial
  | some e => if e.task? = some t then trial.next e else some trial
  | Option.none => some trial

/-- The listener has followed the stream, and what is still to be published fits in. -/
structure Followed (f : Feed) (l : Listener) : Prop where
  idle : Idle f.run
  located : Located f.run
  flagged : f.run.failed = true → f.run.main.gathers = true ∨ f.run.main = .final ∨ f.run.main = .returned
  listened : Listener.listen f.sent = some l
  span : SpanFits f.run (f.pending none) l.span
  active : ∀ t e, f.pending (some t) = some e → f.run.pc t ≠ .done
  own : ∀ t e, f.pending (some t) = some e → e.task? = some t ∨ ∃ u, e = .taskSkipped u
  trial : ∀ t, ∃ trial, (l.trial t).after t (f.pending (some t)) = some trial ∧ TrialFits f.run t trial

variable {E : Engine} {answers : Answers} {s s' : RunState} {node : DAGNode} {t : TaskId} {f f' : Feed}
  {l : Listener} {span : Span} {trial : Trial}

/-! ### The body -/

private theorem SpanFits.mainMove (fits : SpanFits s none span) (h : MainMove E s s') :
    SpanFits s' (bodyEvent s s') span := by
  cases h
  case load hmain =>
    obtain ⟨_, _, _, h⟩ := foldl_loadRow s.mem.tasks s
    rw [h]
    simp_all [SpanFits, bodyEvent]
  case recordFailure hmain hlive hfailed => simp_all [SpanFits, bodyEvent, Event.Ends]
  case cancelled hmain hcancelled => simp_all [SpanFits, bodyEvent, Event.Ends]
  case complete hmain hlive hfailed hex => simp_all [SpanFits, bodyEvent, Event.Ends]
  all_goals simp_all [SpanFits, bodyEvent]

private theorem MainMove.completed_subset (h : MainMove E s s') : s.completed ⊆ s'.completed := by
  cases h
  case load => exact fun t ht => (mem_completed_load s.mem.tasks s t).mpr (Or.inl ht)
  all_goals exact Finset.Subset.refl _

/-- The body raises no flag, and it goes on past a wave only without one. -/
private theorem MainMove.flagged (h : MainMove E s s')
    (hs : s.failed = true → s.main.gathers = true ∨ s.main = .final ∨ s.main = .returned)
    (hf : s'.failed = true) : s'.main.gathers = true ∨ s'.main = .final ∨ s'.main = .returned := by
  have hfailed := hs (h.failed ▸ hf)
  cases h
  case load hmain => simp [hmain, MainPc.gathers] at hfailed
  all_goals simp_all [MainPc.gathers]

/-- What is known of a task stays true while its coroutine stands still with its row. -/
private theorem TrialFits.keep (fits : TrialFits s t trial) (hpc : s'.pc t = s.pc t)
    (hworks : ∀ te, (s.pc t).row? = some te → ∀ w, s.works[te]? = some w → s'.works[te]? = some w)
    (hcompleted : s.completed ⊆ s'.completed) (hfailed : s.failed = true → s'.failed = true) :
    TrialFits s' t trial := by
  simp only [TrialFits, hpc] at fits ⊢
  cases hs : s.pc t with
  | done =>
    rw [hs] at fits
    exact fits.imp_right (Or.imp (fun hc => hcompleted hc) hfailed)
  | looping te input =>
    rw [hs] at fits
    refine fits.imp_right ?_
    rintro ⟨w, last, hw, h⟩
    exact ⟨w, last, hworks te (by rw [hs]; rfl) w hw, h⟩
  | running te input | handling te input | attemptFailed te input | sleeping te input =>
    rw [hs] at fits
    obtain ⟨w, hw, h⟩ := fits
    exact ⟨w, hworks te (by rw [hs]; rfl) w hw, h⟩
  | finishing te ok =>
    rw [hs] at fits
    cases ok with
    | true => exact fits
    | false => trivial
  | branching toSkip | branchCreating sid toSkip =>
    rw [hs] at fits
    exact ⟨fits.1, hcompleted fits.2⟩
  | _ => rw [hs] at fits; exact fits

private theorem TrialFits.mainMove (fits : TrialFits s t trial) (h : MainMove E s s') (idle : Idle s)
    (located : Located s) (hpc : s'.pc t = s.pc t) : TrialFits s' t trial := by
  refine fits.keep hpc (fun te hte w hw => ?_) h.completed_subset (fun hf => h.failed ▸ hf)
  have hmain : s.main ≠ .lookup := by
    intro hmain
    rw [idle.between (by rw [hmain]; rfl) t] at hte
    cases hte
  exact h.works located.agrees hmain hw

theorem Followed.mainMove (inv : Followed f l) (hidle : f.pending none = none) (h : MainMove E f.run s) :
    Followed ⟨s, Function.update f.pending none (bodyEvent f.run s), f.sent⟩ l where
  idle := inv.idle.mainMove h
  located := inv.located.mainMove inv.idle h
  flagged := h.flagged inv.flagged
  listened := inv.listened
  span := by
    have fits := inv.span
    rw [hidle] at fits
    simpa using fits.mainMove h
  active := by
    intro t e he hdone
    have he : f.pending (some t) = some e := by simpa using he
    rcases h.pc with ⟨hpc, _⟩ | ⟨hmain, _, _, _⟩
    · exact inv.active t e he (hpc ▸ hdone)
    · exact inv.active t e he (inv.idle.between (by rw [hmain]; rfl) t)
  own := by
    intro t e he
    exact inv.own t e (by simpa using he)
  trial := by
    intro t
    obtain ⟨trial, hafter, fits⟩ := inv.trial t
    refine ⟨trial, by simpa using hafter, ?_⟩
    rcases h.pc with ⟨hpc, _⟩ | ⟨hmain, _, hwave, hpc⟩
    · exact fits.mainMove h inv.idle inv.located (congrFun hpc t)
    · have hdone : f.run.pc t = .done := inv.idle.between (by rw [hmain]; rfl) t
      have hs' := congrFun hpc t
      by_cases ht : t ∈ s.wave
      · rw [if_pos ht] at hs'
        have hnew : t ∉ f.run.completed := (E.dag.mem_readyIds.mp (hwave ▸ ht)).2.1
        simp only [TrialFits, hdone] at fits
        simp only [TrialFits, hs']
        rcases fits with h | h | h
        · exact h
        · exact absurd h hnew
        · have hflag := inv.flagged h
          simp [hmain, MainPc.gathers] at hflag
      · rw [if_neg ht] at hs'
        exact fits.mainMove h inv.idle inv.located (hs'.trans hdone.symm)

/-! ### The coroutines -/

/-- A coroutine leaves alone what is known of the other tasks. -/
private theorem TrialFits.nodeMove_of_ne (fits : TrialFits s t trial) (h : NodeMove E answers node s s')
    (located : Located s) (ht : t ≠ node.taskId) : TrialFits s' t trial := by
  refine fits.keep (h.pc_of_ne ht) (fun te hte w hw => ?_) h.completed_mono h.failed_mono
  obtain ⟨v, hv, hid⟩ := located.own t te hte
  rw [hw] at hv
  cases hv
  exact h.works_of_ne located hw (hid ▸ ht)

@[simp] theorem RunState.works_emit (s : RunState) (event : HandlerEvent) :
    (s.emit event).works = s.works := rfl

/-- What a coroutine commits is what its task's listeners are told next. -/
private theorem TrialFits.nodeMove (fits : TrialFits s node.taskId trial) (h : NodeMove E answers node s s') :
    ∃ next, trial.after node.taskId (nodeEvent node.taskId s s') = some next ∧
      TrialFits s' node.taskId next := by
  cases h
  case begin now te input row taskClass hpc hrow hle hlive hclass =>
    have hw : s.works[te]? = some row.work := s.getElem?_works hrow
    have hevent : nodeEvent node.taskId s ((s.saveTask te (·.begin now)).goto node.taskId
        (.running te input)) = some (.taskRunning node.taskId row.attempt) := by
      simp [nodeEvent, hpc, hrow, TaskExecution.begin]
    simp only [TrialFits, hpc] at fits
    rw [hevent]
    refine ⟨.running row.attempt, ?_, ?_⟩
    · rcases fits with rfl | ⟨w, last, hw', rfl, hattempt⟩
      · simp [Trial.after, Trial.next, Event.task?]
      · rw [hw] at hw'
        cases hw'
        have hnext : row.attempt = last + 1 := hattempt
        simp [Trial.after, Trial.next, Event.task?, hnext]
    · simp only [TrialFits, RunState.goto_pc, Function.update_self]
      exact ⟨row.work, by simpa using hw, rfl⟩
  case answer now te input row outcome hpc hrow hlegal hcaught =>
    obtain ⟨w, hw, rfl⟩ : ∃ w, s.works[te]? = some w ∧ trial = .running w.attempt := by
      simpa [TrialFits, hpc] using fits
    rw [s.getElem?_works hrow] at hw
    cases hw
    cases hok : outcome.ok with
    | true => exact ⟨.completed, by simp [nodeEvent, hpc, Trial.after, Trial.next, Event.task?],
        by simp [TrialFits]⟩
    | false =>
      refine ⟨.failed row.attempt, ?_, ?_⟩
      · simp [nodeEvent, hpc, hrow, Trial.after, Trial.next, Event.task?, TaskExecution.work]
      · simp only [TrialFits, RunState.goto_pc, Function.update_self, Bool.false_eq_true, if_false,
          RunState.works_goto]
        exact ⟨_, RunState.works_saveTask_self _ te _ hrow, by simp [TaskExecution.work]⟩
  case again te input hpc =>
    obtain ⟨w, hw, rfl⟩ : ∃ w, s.works[te]? = some w ∧ trial = .failed w.attempt := by
      simpa [TrialFits, hpc] using fits
    obtain ⟨row, hrow, rfl⟩ := RunState.row_of_works hw
    refine ⟨.failed row.attempt, by simp [nodeEvent, hpc, Trial.after, TaskExecution.work], ?_⟩
    simp only [TrialFits, RunState.goto_pc, Function.update_self, RunState.works_goto]
    exact Or.inr ⟨_, row.attempt, s.works_saveTask_self te _ hrow, rfl, rfl⟩
  case branchFound hpc hfound =>
    obtain ⟨rfl, hc⟩ : trial = .completed ∧ node.taskId ∈ s.completed := by
      simpa [TrialFits, hpc] using fits
    exact ⟨.completed, by simp [nodeEvent, hpc, Trial.after, Trial.next], by simp [TrialFits, hc]⟩
  case branchCreate hpc htarget =>
    obtain ⟨rfl, hc⟩ : trial = .completed ∧ node.taskId ∈ s.completed := by
      simpa [TrialFits, hpc] using fits
    exact ⟨.completed, by simp [nodeEvent, hpc, Trial.after, Trial.next], by simp [TrialFits, hc]⟩
  case call hpc hrow => exact ⟨trial, by simp [nodeEvent, hpc, Trial.after], by simpa [TrialFits, hpc] using fits⟩
  case backOff hpc hrow hlt hdelay =>
    exact ⟨trial, by simp [nodeEvent, hpc, Trial.after], by simpa [TrialFits, hpc] using fits⟩
  all_goals simp_all [TrialFits, nodeEvent, Trial.after]

/-- A coroutine that has something to publish has not come to its end, and publishes of its own task
or of one that it skips. -/
theorem NodeMove.event (h : NodeMove E answers node s s') {e : Event}
    (he : nodeEvent node.taskId s s' = some e) : s'.pc node.taskId ≠ .done ∧
      (e.task? = some node.taskId ∨ ∃ u, e = .taskSkipped u) := by
  cases h
  case throw h => cases h <;> simp_all [nodeEvent]
  case begin hpc hrow hle hlive hclass =>
    simp only [nodeEvent, hpc, RunState.goto_pc, Function.update_self, Option.map_eq_some_iff] at he
    obtain ⟨row, _, rfl⟩ := he
    exact ⟨by simp, Or.inl rfl⟩
  case answer now te input row outcome hpc hrow hlegal hcaught =>
    cases hok : outcome.ok with
    | true =>
      simp only [nodeEvent, hpc, hok, RunState.goto_pc, Function.update_self, if_true,
        Option.some.injEq] at he
      subst he
      exact ⟨by simp, Or.inl rfl⟩
    | false =>
      simp only [nodeEvent, hpc, hok, RunState.goto_pc, Function.update_self, Bool.false_eq_true, if_false,
        Option.map_eq_some_iff] at he
      obtain ⟨row, _, rfl⟩ := he
      exact ⟨by simp, Or.inl rfl⟩
  case branchFound hpc hfound =>
    simp only [nodeEvent, hpc, RunState.goto_pc, Function.update_self, Option.some.injEq] at he
    exact ⟨by simp, Or.inr ⟨_, he.symm⟩⟩
  case branchCreate hpc htarget =>
    simp only [nodeEvent, hpc, RunState.goto_pc, Function.update_self, Option.some.injEq] at he
    exact ⟨by simp, Or.inr ⟨_, he.symm⟩⟩
  all_goals simp_all [nodeEvent]

theorem Followed.nodeMove (inv : Followed f l) (hidle : f.pending (some node.taskId) = none)
    (h : NodeMove E answers node f.run s) :
    Followed ⟨s, Function.update f.pending (some node.taskId) (nodeEvent node.taskId f.run s), f.sent⟩ l where
  idle := inv.idle.nodeMove h
  located := inv.located.nodeMove h
  flagged := by
    intro _
    rw [h.main]
    exact Or.inl (inv.idle.gathers h.pc_ne_done)
  listened := inv.listened
  span := by
    have hmain := h.main
    have fits := inv.span
    simp only [SpanFits, hmain] at fits ⊢
    simpa using fits
  active := by
    intro t e he
    by_cases ht : t = node.taskId
    · subst ht
      exact (h.event (by simpa using he)).1
    · rw [h.pc_of_ne ht]
      exact inv.active t e (by simpa [ht] using he)
  own := by
    intro t e he
    by_cases ht : t = node.taskId
    · subst ht
      exact (h.event (by simpa using he)).2
    · exact inv.own t e (by simpa [ht] using he)
  trial := by
    intro t
    obtain ⟨trial, hafter, fits⟩ := inv.trial t
    by_cases ht : t = node.taskId
    · subst ht
      rw [hidle] at hafter
      obtain rfl : l.trial node.taskId = trial := by simpa [Trial.after] using hafter
      simpa using fits.nodeMove h
    · exact ⟨trial, by simpa [ht] using hafter, fits.nodeMove_of_ne h inv.located ht⟩

/-! ### The channel -/

private theorem Span.next_task {e : Event} (h : e.task?.isSome) : Span.opened.next e = some .opened := by
  cases e <;> first | rfl | cases h

/-- A listener in the middle of the stream takes in an event that fits its task's trial. -/
private theorem Listener.receive_task {e : Event} (hspan : l.span = .opened) (htask : e.task? = some t)
    (htrial : (l.trial t).next e = some trial) :
    l.receive e = some ⟨.opened, Function.update l.trial t trial⟩ := by
  have hnext : l.span.next e = some .opened := by
    rw [hspan]
    exact Span.next_task (by simp [htask])
  simp [receive, hnext, htask, htrial]

/-- A skip tells a listener nothing about attempts. -/
private theorem Listener.receive_skip (hspan : l.span = .opened) (t : TaskId) :
    l.receive (.taskSkipped t) = some l := by
  have hnext : (l.trial t).next (.taskSkipped t) = some (l.trial t) := by
    cases l.trial t <;> rfl
  rw [receive_task hspan rfl hnext, Function.update_eq_self, ← hspan]

private theorem Followed.opened (inv : Followed f l) (h : f.run.pc t ≠ .done) : l.span = .opened := by
  have fits := inv.span
  rcases inv.idle.main_of_active h with hmain | ⟨e, hmain⟩ <;>
    (simp only [SpanFits, hmain] at fits; exact fits.1)

/-- What the body publishes. -/
private theorem Followed.sendBody (inv : Followed f l) {e : Event} (he : f.pending none = some e) :
    ∃ next, l.receive e = some ⟨next, l.trial⟩ ∧ SpanFits f.run none next := by
  have fits := inv.span
  rw [he] at fits
  cases hmain : f.run.main with
  | starting =>
    simp only [SpanFits, hmain, Option.some.injEq, reduceCtorEq, and_false, or_false] at fits ⊢
    obtain ⟨hspan, status, rfl⟩ := fits
    exact ⟨.opened, by simp [Listener.receive, hspan, Span.next, Event.task?], by simp⟩
  | returned =>
    simp only [SpanFits, hmain, Option.some.injEq, reduceCtorEq, and_false, or_false, false_or] at fits ⊢
    obtain ⟨hspan, _, rfl, hends⟩ := fits
    refine ⟨.over, ?_, by simp⟩
    cases e <;> first | exact hends.elim | simp [Listener.receive, hspan, Span.next, Event.task?]
  | skipping sids =>
    simp only [SpanFits, hmain, Option.some.injEq, reduceCtorEq, false_or] at fits ⊢
    obtain ⟨hspan, t, rfl⟩ := fits
    refine ⟨.opened, ?_, by simp⟩
    rw [Listener.receive_skip hspan, ← hspan]
  | _ => simp [SpanFits, hmain] at fits

theorem Followed.send (inv : Followed f l) {who : Publisher} {e : Event} (he : f.pending who = some e) :
    ∃ l', Followed { f with pending := Function.update f.pending who none, sent := f.sent ++ [e] } l' := by
  have hactive (t : TaskId) (e' : Event) (h : Function.update f.pending who none (some t) = some e') :
      f.pending (some t) = some e' := by
    by_cases ht : some t = who
    · rw [ht, Function.update_self] at h
      cases h
    · rwa [Function.update_of_ne ht] at h
  have follow (l' : Listener) (hreceive : l.receive e = some l')
      (hspan : SpanFits f.run (Function.update f.pending who none none) l'.span)
      (htrial : ∀ t, ∃ trial, (l'.trial t).after t (Function.update f.pending who none (some t)) = some trial ∧
        TrialFits f.run t trial) :
      Followed { f with pending := Function.update f.pending who none, sent := f.sent ++ [e] } l' :=
    ⟨inv.idle, inv.located, inv.flagged, by simp [inv.listened, hreceive], hspan,
      fun t e' h => inv.active t e' (hactive t e' h), fun t e' h => inv.own t e' (hactive t e' h), htrial⟩
  cases who with
  | none =>
    obtain ⟨next, hreceive, hspan⟩ := inv.sendBody he
    exact ⟨_, follow ⟨next, l.trial⟩ hreceive (by simpa using hspan) (fun t => by simpa using inv.trial t)⟩
  | some t =>
    have hopened := inv.opened (inv.active t e he)
    have hspan : SpanFits f.run (Function.update f.pending (some t) none none) l.span := by
      simpa using inv.span
    have hother (u : TaskId) (hu : u ≠ t) : ∃ trial,
        (l.trial u).after u (Function.update f.pending (some t) none (some u)) = some trial ∧
          TrialFits f.run u trial := by simpa [hu] using inv.trial u
    obtain ⟨trial, hafter, fits⟩ := inv.trial t
    rw [he] at hafter
    by_cases htask : e.task? = some t
    · have htrial : (l.trial t).next e = some trial := by simpa [Trial.after, htask] using hafter
      refine ⟨_, follow _ (Listener.receive_task hopened htask htrial) (hopened ▸ hspan) (fun u => ?_)⟩
      by_cases hu : u = t
      · subst hu
        exact ⟨trial, by simp [Trial.after], fits⟩
      · simpa [hu] using hother u hu
    · obtain ⟨u, rfl⟩ := (inv.own t e he).resolve_left htask
      have htrial : l.trial t = trial := by simpa [Trial.after, htask] using hafter
      refine ⟨l, follow l (Listener.receive_skip hopened u) hspan (fun v => ?_)⟩
      by_cases hv : v = t
      · subst hv
        exact ⟨trial, by simp [Trial.after, htrial], fits⟩
      · exact hother v hv

private theorem Followed.others (inv : Followed f l) {db : Database} (h : KeepsWork f.run.db db) :
    Followed { f with run := { f.run with db := db } } l :=
  ⟨⟨inv.idle.outside, inv.idle.between⟩,
    ⟨by rw [Agrees, AgreesOn, h]; exact inv.located.agrees, inv.located.own⟩,
    inv.flagged, inv.listened, inv.span, inv.active, inv.own, inv.trial⟩

theorem Followed.start (E : Engine) (db : Database) : Followed (.start E db) .initial where
  idle := .start E db
  located := .start E db
  flagged := by simp [Feed.start, RunState.start]
  listened := rfl
  span := ⟨rfl, rfl⟩
  active := by simp [Feed.start]
  own := by simp [Feed.start]
  trial := fun t => ⟨.none, rfl, Or.inl rfl⟩

theorem Followed.step (inv : Followed f l) (h : Feed.Step E answers KeepsWork f f') :
    ∃ l', Followed f' l' := by
  cases Feed.step_cases h with
  | body hidle hmove => exact ⟨l, inv.mainMove hidle hmove⟩
  | node hnode hidle hmove => exact ⟨l, inv.nodeMove hidle hmove⟩
  | send he => exact inv.send he
  | others hkeeps => exact ⟨l, inv.others hkeeps⟩

/-- After the end of the stream the run has returned, and nothing is left to publish. -/
private theorem Followed.over (inv : Followed f l) (h : l.span = .over) :
    f.run.main = .returned ∧ ∀ who, f.pending who = none := by
  have fits := inv.span
  rw [h] at fits
  have hmain : f.run.main = .returned := by
    cases hm : f.run.main <;> simp [SpanFits, hm] at fits
    rfl
  refine ⟨hmain, fun who => ?_⟩
  cases who with
  | none => simpa [SpanFits, hmain] using fits
  | some t =>
    cases he : f.pending (some t) with
    | none => rfl
    | some e => exact absurd (inv.idle.between (by rw [hmain]; rfl) t) (inv.active t e he)

/-- Whatever the handlers answer, however the coroutines interleave and whatever statuses and times
other sessions write: a listener can follow what a run publishes. Nothing comes after its end, which
comes when the run has returned, and the attempts of each task are announced one by one. -/
theorem stream_follows_protocol {db : Database}
    (run : Run (Feed.Step E answers KeepsWork) (.start E db) f) :
    ∃ l, Listener.listen f.sent = some l ∧
      (∀ before e after, f.sent = before ++ e :: after → e.Ends →
        after = [] ∧ f.run.main = .returned ∧ ∀ who, f.pending who = none) ∧
      ∀ t, ∃ first n, announcedAttempts t f.sent = List.range' first n := by
  have hstep (f f' : Feed) (inv : ∃ l, Followed f l) (h : Feed.Step E answers KeepsWork f f') :
      ∃ l, Followed f' l := inv.elim fun _ followed => followed.step h
  obtain ⟨l, inv⟩ : ∃ l, Followed f l := run.invariant hstep ⟨_, .start E db⟩
  refine ⟨l, inv.listened, fun before e after hsent hends => ?_, fun t => ?_⟩
  · obtain ⟨hafter, hover⟩ := Listener.listen_ends inv.listened hsent hends
    exact ⟨hafter, inv.over hover⟩
  · obtain ⟨first, n, hes, _⟩ := Listener.listen_attempts inv.listened t
    exact ⟨first, n, hes⟩

/-! ### Two delays in a row -/

/-- A replayed schedule of own steps and publications. -/
theorem Feed.exists_run (E : Engine) (answers : Answers) (Others : Database → Database → Prop)
    (cs : List FeedChoice) (f : Feed) (P : Feed → Bool)
    (possible : ∀ c ∈ cs, match c with
      | .own c => c.Possible answers
      | .send _ => True
      | .others _ => False)
    (h : (execute (Feed.step E) cs f).any P = true) :
    ∃ f', Run (Feed.Step E answers Others) f f' ∧ P f' = true := by
  refine exists_run_of_execute (fun c hc f f' hstep => ⟨c, ?_, hstep⟩) h
  have hpossible := possible c hc
  cases c with
  | own c =>
    cases c with
    | node t now sample outcome => exact fun te input node row _ _ _ => hpossible node row.attempt input
    | main now => trivial
    | propagate t => trivial
  | send who => trivial
  | others db => exact hpossible.elim

private def delayed : Outcome := .result ⟨true, .none, none, 0⟩

private def announcedTask (t : TaskId) : List FeedChoice :=
  (coroutine t 6 delayed).map .own ++ [.send (some t)] ++ (coroutine t 2 delayed).map .own ++
    [.send (some t)] ++ (coroutine t 1 delayed).map .own

def chainAnnounced : List FeedChoice :=
  (body 2).map .own ++ [.send none] ++ (body 4).map .own ++ announcedTask "a" ++ (body 4).map .own ++
    announcedTask "b" ++ (body 3).map .own ++ [.send none]

theorem chainAnnounced_possible : ∀ c ∈ chainAnnounced, match c with
    | .own c => c.Possible anyAnswer
    | .send _ => True
    | .others _ => False := by
  intro c hc
  cases c with
  | own c =>
    cases c with
    | node t now sample outcome => exact fun _ _ _ => trivial
    | main now => trivial
    | propagate t => trivial
  | send who => trivial
  | others db => exact absurd hc (by simp [chainAnnounced, announcedTask, coroutine, body])

theorem stream_follows_protocol_chain : ∃ f : Feed,
    f.sent = [.executionStarted .running, .taskRunning "a" 1, .taskCompleted "a", .taskRunning "b" 1,
      .taskCompleted "b", .executionCompleted .completed] ∧
    ∃ l, Listener.listen f.sent = some l ∧
      (∀ before e after, f.sent = before ++ e :: after → e.Ends →
        after = [] ∧ f.run.main = .returned ∧ ∀ who, f.pending who = none) ∧
      ∀ t, ∃ first n, announcedAttempts t f.sent = List.range' first n := by
  obtain ⟨f, run, hf⟩ := Feed.exists_run (chainEngine .repaired) anyAnswer KeepsWork chainAnnounced
    (.start (chainEngine .repaired) ⟨{}, []⟩)
    (fun f => f.sent = [.executionStarted .running, .taskRunning "a" 1, .taskCompleted "a",
      .taskRunning "b" 1, .taskCompleted "b", .executionCompleted .completed])
    chainAnnounced_possible (by decide +kernel)
  exact ⟨f, of_decide_eq_true hf, stream_follows_protocol run⟩

end BackendProjects.Workflow
