import BackendProjects.Anomaly.DetectionCalls
import Mathlib.Data.List.Sort

/-! Ingestions and runs of the batch worker, one after the other. The worker scores the last member of a
window again for every row of the last fifteen minutes, and only a cooldown keeps it from another record. -/
namespace BackendProjects.Anomaly
open Library Workflow

def ScoredRecord.windowKey (rec : ScoredRecord) : String := slidingWindowKey rec.sourceId rec.metricName

def ScoredRecord.SamePoint (rec other : ScoredRecord) : Prop :=
  rec.windowKey = other.windowKey ∧ rec.scored = other.scored ∧ rec.detectorType = other.detectorType

private theorem ScoredRecord.cooldownKey_eq (rec : ScoredRecord) :
    rec.cooldownKey = "cd:" ++ (rec.sourceId ++ ":" ++ rec.metricName) ++ ":" ++ rec.detectorType := by
  simp only [ScoredRecord.cooldownKey, Anomaly.cooldownKey, String.append_assoc]

private theorem ScoredRecord.SamePoint.cooldownKey {rec other : ScoredRecord} (h : rec.SamePoint other) :
    rec.cooldownKey = other.cooldownKey := by
  obtain ⟨hwindow, -, hdetector⟩ := h
  have hsame : rec.sourceId ++ ":" ++ rec.metricName = other.sourceId ++ ":" ++ other.metricName := by
    simpa [windowKey, slidingWindowKey, String.append_assoc] using hwindow
  rw [ScoredRecord.cooldownKey_eq, ScoredRecord.cooldownKey_eq, hsame, hdetector]

namespace Platform
variable (P : Platform)

def detectionCall (st : Stores) (sourceName metricName : String) (recordId : String → RecordId) :
    Option DetectionCall := do
  let source ← st.source sourceName
  let window := (st.windows (slidingWindowKey source.id metricName)).zrange (-P.detectionWindowSize) (-1)
  let scored ← window.getLast?
  return {
    sourceId := source.id
    metricName := metricName
    scored := scored
    recordId := recordId
    results := P.detectWithAll (window.dropLast.map (·.payload.value)) scored.payload.value }

/-- The results are those of the sequential call. -/
theorem detectionCall_results {st : Stores} {sourceName metricName : String} {recordId : String → RecordId}
    {call : DetectionCall} (h : P.detectionCall st sourceName metricName recordId = some call) :
    ∃ source, st.source sourceName = some source ∧ call.sourceId = source.id ∧
      ∃ values, P.scored st source metricName = some (values, call.scored.payload.value) ∧
        call.results = P.detectWithAll values call.scored.payload.value := by
  obtain ⟨source, hsource, h⟩ := Option.bind_eq_some_iff.mp h
  obtain ⟨scored, hscored, h⟩ := Option.bind_eq_some_iff.mp h
  cases h
  refine ⟨source, hsource, rfl, _, ?_, rfl⟩
  rw [Platform.scored, Stores.getSlidingWindow, List.getLast?_map, hscored, ← List.map_dropLast]
  rfl

end Platform

abbrev BatchRow := MetricDataPoint × String

/-- The stores while one call after the other is made in a session. A batch run has rows left to go
through. -/
structure Reprocessing where
  stores : Stores
  ingestedAt : PointId → Timestamp
  calls : DetectionCalls Nat
  session : Nat := 0
  isOpen : Bool := false
  /-- When the open session was opened. -/
  since : Timestamp
  rows : List BatchRow := []

namespace Reprocessing

/-- Nothing has been ingested or detected yet; windows may have members. -/
def start (stores : Stores) (now : Timestamp) : Reprocessing where
  stores := stores
  ingestedAt _ := now
  calls := {
    throttle := { now := now, deadline := fun _ => none, place := fun _ => .outside, acts := [] }
    calls := fun _ => none }
  since := now

variable (s : Reprocessing)

def records : List (ThrottledAct Nat ScoredRecord Timestamp) := s.calls.records

def resting : Bool := (s.calls.calls s.session).all (fun call => call.results.isEmpty)

def openSession : Reprocessing :=
  { s with isOpen := true, session := s.session + 1, since := s.calls.throttle.now, rows := [] }

def detect (call : Option DetectionCall) : Reprocessing :=
  match call with
  | none => s
  | some call => { s with calls := s.calls.setCall s.session call }

/-- `ingested_at` is the time at which the transaction has begun. -/
def store (P : Platform) (a : Arrival) : Reprocessing where
  __ := s
  stores := s.stores.after (P.storeMetric s.stores a)
  ingestedAt := Function.update s.ingestedAt a.pointId s.since

def ingest (P : Platform) (a : Arrival) : Reprocessing :=
  let stored := s.store P a
  stored.detect (P.detectionCall stored.stores a.sourceName a.metricName a.recordId)

def recentRows : List BatchRow :=
  (s.stores.session.points.filterMap (fun point =>
    (s.stores.session.sources.find? (fun source => source.id = point.sourceId)).map
      (fun source => (point, source.name)))).filter (fun row => s.since - 15 * 60 ≤ s.ingestedAt row.1.id)

/-- The latest 500 rows; those of one time come in any order. -/
def Selects (rows : List BatchRow) : Prop :=
  ∃ ordered : List BatchRow, ordered.Perm s.recentRows ∧
    ordered.Pairwise (fun row row' => s.ingestedAt row'.1.id ≤ s.ingestedAt row.1.id) ∧
    rows = ordered.take 500

def commit : Reprocessing :=
  { s with isOpen := false, stores := { s.stores with committed := s.stores.session } }

def rollback : Reprocessing where
  __ := s
  isOpen := false
  stores := s.stores.rollback
  calls := s.calls.rollback s.session

/-- Calls do not overlap, but take time, and may be cut off at any moment. A session is one for ingestions or
for a batch run. -/
inductive Step (P : Platform) (cooldownSeconds : Int) (s : Reprocessing) : Reprocessing → Prop
  | tick (now : Timestamp) (later : s.calls.throttle.now ≤ now) :
      Step P cooldownSeconds s
        { s with calls := { s.calls with throttle := { s.calls.throttle with now := now } } }
  | openSession (closed : s.isOpen = false) : Step P cooldownSeconds s s.openSession
  | ingest (a : Arrival) (isOpen : s.isOpen = true) (resting : s.resting = true) (norows : s.rows = [])
      (now : a.now = s.calls.throttle.now) : Step P cooldownSeconds s (s.ingest P a)
  | select (rows : List BatchRow) (isOpen : s.isOpen = true) (resting : s.resting = true)
      (norows : s.rows = []) (selects : s.Selects rows) : Step P cooldownSeconds s { s with rows := rows }
  | row (row : BatchRow) (rows : List BatchRow) (recordId : String → RecordId) (isOpen : s.isOpen = true)
      (resting : s.resting = true) (hrows : s.rows = row :: rows) :
      Step P cooldownSeconds s ({ s with rows := rows }.detect
        (P.detectionCall s.stores row.2 row.1.metricName recordId))
  | next (calls : DetectionCalls Nat) (isOpen : s.isOpen = true)
      (h : s.calls.next cooldownSeconds s.session = some calls) :
      Step P cooldownSeconds s { s with calls := calls }
  | commit (isOpen : s.isOpen = true) (resting : s.resting = true) (norows : s.rows = []) :
      Step P cooldownSeconds s s.commit
  | rollback (isOpen : s.isOpen = true) : Step P cooldownSeconds s s.rollback

variable {P : Platform} {cooldownSeconds : Int} {s s' : Reprocessing}

structure Inv (cooldownSeconds : Int) (s : Reprocessing) : Prop where
  orderly : DetectionCalls.Orderly cooldownSeconds s.calls
  others : ∀ c, c ≠ s.session → s.calls.throttle.place c = .outside
  resting : s.resting = true → s.calls.throttle.place s.session = .outside
  closed : s.isOpen = false → s.resting = true
  fresh : ∀ c, s.session < c → s.calls.calls c = none

private theorem Inv.start (stores : Stores) (now : Timestamp) : Inv cooldownSeconds (.start stores now) where
  orderly := .start (fun _ => rfl) rfl
  others _ _ := rfl
  resting _ := rfl
  closed _ := rfl
  fresh _ _ := rfl

private theorem Inv.openSession (inv : Inv cooldownSeconds s) (closed : s.isOpen = false) :
    Inv cooldownSeconds s.openSession where
  orderly := inv.orderly
  others c _ := by
    by_cases hc : c = s.session
    · exact hc ▸ inv.resting (inv.closed closed)
    · exact inv.others c hc
  resting _ := inv.others (s.session + 1) (by omega)
  closed h := by cases h
  fresh c hc := inv.fresh c (Nat.lt_of_succ_lt hc)

/-- A detection begins when the one before it in the session has come to its end. -/
private theorem Inv.detect (inv : Inv cooldownSeconds s) (isOpen : s.isOpen = true) (resting : s.resting = true)
    (call : Option DetectionCall) : Inv cooldownSeconds (s.detect call) := by
  cases call with
  | none => exact inv
  | some call =>
    refine ⟨inv.orderly, inv.others, fun _ => inv.resting resting,
      fun hclosed => absurd isOpen (ne_true_of_eq_false hclosed), fun c hc => ?_⟩
    have hlt : s.session < c := hc
    change Function.update s.calls.calls s.session (some call) c = none
    rw [Function.update_of_ne hlt.ne']
    exact inv.fresh c hlt

private theorem Inv.next (inv : Inv cooldownSeconds s) {calls : DetectionCalls Nat} (isOpen : s.isOpen = true)
    (h : s.calls.next cooldownSeconds s.session = some calls) :
    Inv cooldownSeconds { s with calls := calls } where
  orderly := inv.orderly.step ⟨DetectionCalls.alone_of_next h inv.others, .next s.session h⟩
  others c hc := (DetectionCalls.next_place h hc).trans (inv.others c hc)
  resting := DetectionCalls.next_outside h
  closed hclosed := absurd isOpen (ne_true_of_eq_false hclosed)
  fresh c hc := (DetectionCalls.next_calls h (ne_of_gt hc)).trans (inv.fresh c hc)

private theorem Inv.rollback (inv : Inv cooldownSeconds s) : Inv cooldownSeconds s.rollback where
  orderly := inv.orderly.abort s.session
  others c hc := by
    have hne : c ≠ s.session := hc
    exact (Throttle.abort_place _ _ c).trans ((if_neg hne).trans (inv.others c hne))
  resting _ := Function.update_self _ _ _
  closed _ := by
    change ((Function.update s.calls.calls s.session _) s.session).all _ = true
    rw [Function.update_self]
    cases s.calls.calls s.session <;> rfl
  fresh c hc := by
    have hlt : s.session < c := hc
    change Function.update s.calls.calls s.session _ c = none
    rw [Function.update_of_ne hlt.ne']
    exact inv.fresh c hlt

private theorem Inv.step (inv : Inv cooldownSeconds s) (h : Step P cooldownSeconds s s') :
    Inv cooldownSeconds s' := by
  cases h with
  | tick now later => exact ⟨inv.orderly.tick later, inv.others, inv.resting, inv.closed, inv.fresh⟩
  | openSession closed => exact inv.openSession closed
  | ingest a isOpen resting norows now =>
    have stored : Inv cooldownSeconds (s.store P a) :=
      ⟨inv.orderly, inv.others, inv.resting, inv.closed, inv.fresh⟩
    exact stored.detect isOpen resting _
  | select rows isOpen resting norows selects =>
    exact ⟨inv.orderly, inv.others, inv.resting, inv.closed, inv.fresh⟩
  | row row rows recordId isOpen resting hrows =>
    have left : Inv cooldownSeconds { s with rows := rows } :=
      ⟨inv.orderly, inv.others, inv.resting, inv.closed, inv.fresh⟩
    exact left.detect isOpen resting _
  | next calls isOpen hnext => exact inv.next isOpen hnext
  | commit isOpen resting norows =>
    exact ⟨inv.orderly, inv.others, inv.resting, fun _ => resting, inv.fresh⟩
  | rollback isOpen => exact inv.rollback

end Reprocessing

/-- Of two records of one detector for one member of a window, the later one comes after the cooldown of the
earlier one. -/
theorem records_of_a_point_keep_apart {P : Platform} {cooldownSeconds : Int} {stores : Stores}
    {now : Timestamp} {s : Reprocessing}
    (run : Run (Reprocessing.Step P cooldownSeconds) (.start stores now) s) :
    s.records.Pairwise (fun a b => a.what.SamePoint b.what →
      ∃ t : Timestamp, a.armedAt = some t ∧ t + cooldownSeconds ≤ b.since) := by
  have inv := run.invariant (fun _ _ inv h => inv.step h) (Reprocessing.Inv.start stores now)
  exact inv.orderly.apart.imp (fun {a b} h hsame => h hsame.cooldownKey)

/-! ### A point with one record -/

namespace Reprocessing
variable {P : Platform} {cooldownSeconds : Int} {s s' : Reprocessing}

def Asks (cooldownSeconds : Int) (s s' : Reprocessing) (rec : ScoredRecord) : Prop :=
  ∃ call det, s.calls.calls s.session = some call ∧ call.results.head? = some det ∧ det.isAnomaly = true ∧
    s.calls.throttle.place s.session = .outside ∧ rec = call.record det ∧
    s.calls.next cooldownSeconds s.session = some s'.calls

/-- Whenever a detection asks for a detector that has a record for the point already, the key was armed for
that record less than the cooldown ago. -/
def Prompt (cooldownSeconds : Int) (s s' : Reprocessing) : Prop :=
  ∀ rec, s.Asks cooldownSeconds s' rec →
    s.calls.throttle.Recent ScoredRecord.SamePoint (cooldownSeconds : Timestamp) rec

private theorem once_next (inv : Inv cooldownSeconds s) (once : s.calls.throttle.Once ScoredRecord.SamePoint)
    {calls : DetectionCalls Nat} (prompt : s.Prompt cooldownSeconds { s with calls := calls })
    (h : s.calls.next cooldownSeconds s.session = some calls) :
    calls.throttle.Once ScoredRecord.SamePoint := by
  rcases (DetectionCalls.Step.next s.session h).throttle with hsame | hstep
  · rw [hsame]
    exact once
  · refine once.step inv.orderly (fun _ _ => ScoredRecord.SamePoint.cooldownKey) ?_ hstep
    intro c rec hout hpassed
    obtain ⟨rfl, call, det, hcall, hdet, hanomaly, hrec⟩ := DetectionCalls.passed_of_next h hout hpassed
    exact prompt rec ⟨call, det, hcall, hdet, hanomaly, hout, hrec, h⟩

private theorem once_step (inv : Inv cooldownSeconds s) (once : s.calls.throttle.Once ScoredRecord.SamePoint)
    (h : Where (Prompt cooldownSeconds) (Step P cooldownSeconds) s s') :
    s'.calls.throttle.Once ScoredRecord.SamePoint := by
  obtain ⟨prompt, hstep⟩ := h
  have hdetect (r : Reprocessing) (call : Option DetectionCall) :
      (r.detect call).calls.throttle = r.calls.throttle := by
    cases call <;> rfl
  cases hstep with
  | tick now later => exact ⟨once.passed, once.once⟩
  | ingest a isOpen resting norows now =>
    rw [ingest, hdetect]
    exact once
  | row row rows recordId isOpen resting hrows =>
    rw [hdetect]
    exact once
  | next calls isOpen hnext => exact once_next inv once prompt hnext
  | rollback isOpen => exact once.abort s.session
  | _ => exact once

end Reprocessing

/-- A member of a window is the scored point of at most one record for each detector in a run whose detections
ask for a recorded point only within the cooldown of its record. -/
theorem one_record_per_point {P : Platform} {cooldownSeconds : Int} {stores : Stores} {now : Timestamp}
    {s : Reprocessing} (run : Run (Where (Reprocessing.Prompt cooldownSeconds)
      (Reprocessing.Step P cooldownSeconds)) (.start stores now) s) :
    s.records.Pairwise (fun a b => ¬ a.what.SamePoint b.what) := by
  let Both (s : Reprocessing) : Prop :=
    Reprocessing.Inv cooldownSeconds s ∧ s.calls.throttle.Once ScoredRecord.SamePoint
  have hstart : Both (.start stores now) := ⟨.start stores now, .start (fun _ => rfl) rfl⟩
  have hstep (s s' : Reprocessing) (h : Both s) (hs : Where (Reprocessing.Prompt cooldownSeconds)
      (Reprocessing.Step P cooldownSeconds) s s') : Both s' :=
    ⟨h.1.step hs.2, Reprocessing.once_step h.1 h.2 hs⟩
  exact (run.invariant hstep hstart).2.once

/-! ### A spike and a batch run -/

private def Reprocessing.latest (s : Reprocessing) : List BatchRow :=
  (s.recentRows.insertionSort (fun row row' => s.ingestedAt row'.1.id ≤ s.ingestedAt row.1.id)).take 500

private theorem Reprocessing.selects_latest (s : Reprocessing) : s.Selects s.latest := by
  let order (row row' : BatchRow) : Prop := s.ingestedAt row'.1.id ≤ s.ingestedAt row.1.id
  have : Std.Total order := ⟨fun row row' => le_total _ _⟩
  have : IsTrans BatchRow order := ⟨fun _ _ _ h h' => h'.trans h⟩
  exact ⟨s.recentRows.insertionSort order, List.perm_insertionSort order _,
    List.pairwise_insertionSort order _, rfl⟩

private inductive Move where
  | tick (now : Timestamp)
  | openSession
  | ingest (a : Arrival)
  | select
  | row (id : RecordId)
  | next
  | commit

private def move (P : Platform) (cooldownSeconds : Int) : Move → Reprocessing → Option Reprocessing
  | .tick now, s => if s.calls.throttle.now ≤ now then
      some { s with calls := { s.calls with throttle := { s.calls.throttle with now := now } } } else none
  | .openSession, s => if s.isOpen then none else some s.openSession
  | .ingest a, s =>
    if s.isOpen ∧ s.resting ∧ s.rows.isEmpty ∧ a.now = s.calls.throttle.now then some (s.ingest P a) else none
  | .select, s => if s.isOpen ∧ s.resting ∧ s.rows.isEmpty then some { s with rows := s.latest } else none
  | .row id, s => if s.isOpen ∧ s.resting then
      match s.rows with
      | [] => none
      | row :: rows => some ({ s with rows := rows }.detect
          (P.detectionCall s.stores row.2 row.1.metricName (fun _ => id)))
    else none
  | .next, s => if s.isOpen then
      (s.calls.next cooldownSeconds s.session).map (fun calls => { s with calls := calls }) else none
  | .commit, s => if s.isOpen ∧ s.resting ∧ s.rows.isEmpty then some s.commit else none

private theorem move_legal (P : Platform) (cooldownSeconds : Int) (ks : List Move) : ∀ k ∈ ks, ∀ s s',
    move P cooldownSeconds k s = some s' → Reprocessing.Step P cooldownSeconds s s' := by
  intro k _ s s' h
  cases k with
  | tick now =>
    simp only [move, Option.ite_none_right_eq_some, Option.some.injEq] at h
    exact h.2 ▸ .tick now h.1
  | openSession =>
    simp only [move, Option.ite_none_left_eq_some, Option.some.injEq] at h
    exact h.2 ▸ .openSession (eq_false_of_ne_true h.1)
  | ingest a =>
    simp only [move, Option.ite_none_right_eq_some, Option.some.injEq, List.isEmpty_iff] at h
    obtain ⟨⟨isOpen, resting, norows, now⟩, rfl⟩ := h
    exact .ingest a isOpen resting norows now
  | select =>
    simp only [move, Option.ite_none_right_eq_some, Option.some.injEq, List.isEmpty_iff] at h
    obtain ⟨⟨isOpen, resting, norows⟩, rfl⟩ := h
    exact .select s.latest isOpen resting norows s.selects_latest
  | row id =>
    simp only [move, Option.ite_none_right_eq_some] at h
    obtain ⟨⟨isOpen, resting⟩, h⟩ := h
    split at h
    · cases h
    · next row rows hrows =>
      cases h
      exact .row row rows _ isOpen resting hrows
  | next =>
    simp only [move, Option.ite_none_right_eq_some, Option.map_eq_some_iff] at h
    obtain ⟨isOpen, calls, hnext, rfl⟩ := h
    exact .next calls isOpen hnext
  | commit =>
    simp only [move, Option.ite_none_right_eq_some, Option.some.injEq, List.isEmpty_iff] at h
    obtain ⟨⟨isOpen, resting, norows⟩, rfl⟩ := h
    exact .commit isOpen resting norows

private def aboveTen : Platform where
  reprFloat
    | .finite q => toString q.num ++ ".0"
    | _ => "NaN"
  detectors := [{
    detect _ current := {
      isAnomaly := match current with
        | .finite q => 10 < q
        | _ => false
      score := .finite 1, expectedValue := none, actualValue := current
      deviation := .finite 0, detectorName := "zscore", severity := "high", reason := "" }
    actual _ _ := rfl }]

private def noStores : Stores where
  committed := ⟨[], [], []⟩
  session := ⟨[], [], []⟩
  rules := []
  windows _ := .empty
  cooldowns _ := none

private def spikeArrival : Arrival where
  sourceName := "api"
  metricName := "latency"
  value := .finite 90
  now := 0
  sourceId := "s"
  pointId := "p"
  memberId := "m"
  recordId _ := "r"

private def spikeAndBatch : List Move :=
  [.openSession, .ingest spikeArrival, .next, .next, .next, .commit,
    .tick 600, .openSession, .select, .row "q", .next, .next, .next, .commit]

/-- The second record comes 600 seconds after the first one. -/
theorem records_of_a_point_keep_apart_spike : ∃ s : Reprocessing,
    Run (Reprocessing.Step aboveTen 300) (.start noStores 0) s ∧ s.records.length = 2 ∧
    s.records.Pairwise (fun a b => a.what.SamePoint b.what →
      ∃ t : Timestamp, a.armedAt = some t ∧ t + (300 : Int) ≤ b.since) := by
  have hreplay : (execute (move aboveTen 300) spikeAndBatch (.start noStores 0)).any
      (fun s => s.records.length = 2) = true := by decide +kernel
  obtain ⟨s, run, hs⟩ := exists_run_of_execute (move_legal aboveTen 300 _) hreplay
  exact ⟨s, run, by simpa using hs, records_of_a_point_keep_apart run⟩

/-- The key has expired, but the point is one of the last fifteen minutes. -/
theorem batch_records_a_point_again : ∃ s : Reprocessing,
    Run (Reprocessing.Step aboveTen 300) (.start noStores 0) s ∧
    ∃ a b, s.records = [a, b] ∧ a.what.SamePoint b.what ∧ b.since = 600 := by
  have hreplay : (execute (move aboveTen 300) spikeAndBatch (.start noStores 0)).any
      (fun s => match s.records with
        | [a, b] => a.what.windowKey = b.what.windowKey ∧ a.what.scored = b.what.scored ∧
            a.what.detectorType = b.what.detectorType ∧ b.since = 600
        | _ => false) = true := by
    decide +kernel
  obtain ⟨s, run, hs⟩ := exists_run_of_execute (move_legal aboveTen 300 _) hreplay
  split at hs
  · next a b hrecords =>
    simp only [decide_eq_true_eq] at hs
    obtain ⟨hwindow, hscored, hdetector, hsince⟩ := hs
    exact ⟨s, run, a, b, hrecords, ⟨hwindow, hscored, hdetector⟩, hsince⟩
  · cases hs

end BackendProjects.Anomaly
