import BackendProjects.Anomaly.Ingest
import BackendProjects.Library.Throttle

/-! Detections that run at the same time: between finding a cooldown key free and arming it, a call flushes
its record, and another call may find the key free, too. -/
namespace BackendProjects.Anomaly
open Library Workflow
variable {C : Type}

structure ScoredRecord extends AnomalyRecord where
  scored : WindowMember

def ScoredRecord.cooldownKey (rec : ScoredRecord) : String :=
  Anomaly.cooldownKey rec.sourceId rec.metricName rec.detectorType

/-- A call of `run_detection` once the detectors have been run, with the results that are left. -/
structure DetectionCall where
  sourceId : SourceId
  metricName : String
  scored : WindowMember
  recordId : String → RecordId
  results : List DetectionResult

namespace DetectionCall

def record (call : DetectionCall) (det : DetectionResult) : ScoredRecord where
  toAnomalyRecord := det.record call.sourceId call.metricName (call.recordId det.detectorName)
  scored := call.scored

def goOn (call : DetectionCall) : DetectionCall := { call with results := call.results.tail }

/-- It is the record that the sequential call writes. -/
theorem record_written_iff (call : DetectionCall) {source : MetricSource} (hsource : source.id = call.sourceId)
    (rules : List AlertRule) (st : Stores) (det : DetectionResult) :
    Write.record (call.record det).toAnomalyRecord ∈
        recordAnomaly source call.metricName call.recordId rules st det ↔
      det.isAnomaly = true ∧ st.checkCooldown (call.record det).cooldownKey = false := by
  unfold recordAnomaly
  rw [hsource]
  dsimp only
  split
  · next h => simpa [record, DetectionResult.record, ScoredRecord.cooldownKey] using h
  · next h => simpa [record, DetectionResult.record, ScoredRecord.cooldownKey] using h

end DetectionCall

/-- The calls, with the cooldown keys in Redis and the rows of `anomaly_records`. -/
structure DetectionCalls (C : Type) where
  throttle : Throttle C String ScoredRecord Timestamp
  calls : C → Option DetectionCall

namespace DetectionCalls
variable [DecidableEq C]

def setCall (s : DetectionCalls C) (c : C) (call : DetectionCall) : DetectionCalls C :=
  { s with calls := Function.update s.calls c (some call) }

/-- A call up to its next await: the check of a key, the flush of a record, or the arming of the key. What
follows for the rules leaves these keys alone. -/
def next (cooldownSeconds : Int) (c : C) (s : DetectionCalls C) : Option (DetectionCalls C) := do
  let call ← s.calls c
  let det ← call.results.head?
  match s.throttle.place c with
  | .outside =>
    let cooldownKey := cooldownKey call.sourceId call.metricName det.detectorName
    if det.isAnomaly ∧ ¬ s.throttle.cooling cooldownKey then
      return { s with throttle := s.throttle.goTo c (.passed (call.record det)) }
    else return s.setCall c call.goOn
  | .passed rec => return { s with throttle := s.throttle.act c rec }
  | .acted rec =>
    if 0 < cooldownSeconds then
      return { s.setCall c call.goOn with
        throttle := s.throttle.arm c ScoredRecord.cooldownKey cooldownSeconds rec }
    -- SETEX raises, and only the rollback is left
    else none

/-- A rollback drops the records of a call, also when the call itself has returned. -/
def rollback (s : DetectionCalls C) (c : C) : DetectionCalls C where
  throttle := s.throttle.abort c
  calls := Function.update s.calls c ((s.calls c).map (fun call => { call with results := [] }))

inductive Step (cooldownSeconds : Int) (s : DetectionCalls C) : DetectionCalls C → Prop
  | tick (now : Timestamp) (later : s.throttle.now ≤ now) :
      Step cooldownSeconds s { s with throttle := { s.throttle with now := now } }
  | begin (c : C) (call : DetectionCall) (new : s.calls c = none) : Step cooldownSeconds s (s.setCall c call)
  | next (c : C) {s' : DetectionCalls C} (h : next cooldownSeconds c s = some s') : Step cooldownSeconds s s'
  | rollback (c : C) : Step cooldownSeconds s (s.rollback c)

def Alone (s s' : DetectionCalls C) : Prop := Throttle.Alone ScoredRecord.cooldownKey s.throttle s'.throttle

variable {cooldownSeconds : Int} {s s' : DetectionCalls C} {c : C}

/-- What a call does up to its next await. -/
theorem next_cases (h : next cooldownSeconds c s = some s') : ∃ call det, s.calls c = some call ∧
    call.results.head? = some det ∧
    ((s.throttle.place c = .outside ∧ det.isAnomaly = true ∧
        s.throttle.cooling (call.record det).cooldownKey = false ∧
        s' = { s with throttle := s.throttle.goTo c (.passed (call.record det)) }) ∨
      (s.throttle.place c = .outside ∧ s' = s.setCall c call.goOn) ∨
      (∃ rec, s.throttle.place c = .passed rec ∧ s' = { s with throttle := s.throttle.act c rec }) ∨
      ∃ rec, s.throttle.place c = .acted rec ∧ s' = { s.setCall c call.goOn with
        throttle := s.throttle.arm c ScoredRecord.cooldownKey cooldownSeconds rec }) := by
  unfold next at h
  obtain ⟨call, hcall, h⟩ := Option.bind_eq_some_iff.mp h
  obtain ⟨det, hdet, h⟩ := Option.bind_eq_some_iff.mp h
  refine ⟨call, det, hcall, hdet, ?_⟩
  split at h
  · next hplace =>
    dsimp only at h
    split at h
    · next hfree => exact Or.inl ⟨hplace, hfree.1, eq_false_of_ne_true hfree.2, (Option.some.inj h).symm⟩
    · exact Or.inr (Or.inl ⟨hplace, (Option.some.inj h).symm⟩)
  · next rec hplace => exact Or.inr (Or.inr (Or.inl ⟨rec, hplace, (Option.some.inj h).symm⟩))
  · next rec hplace =>
    split at h
    · exact Or.inr (Or.inr (Or.inr ⟨rec, hplace, (Option.some.inj h).symm⟩))
    · cases h

/-- Only the call itself moves. -/
theorem next_place (h : next cooldownSeconds c s = some s') {d : C} (hd : d ≠ c) :
    s'.throttle.place d = s.throttle.place d := by
  obtain ⟨call, det, -, -, hcases⟩ := next_cases h
  rcases hcases with ⟨-, -, -, rfl⟩ | ⟨-, rfl⟩ | ⟨rec, -, rfl⟩ | ⟨rec, -, rfl⟩
  · exact Function.update_of_ne hd _ _
  · rfl
  · exact Function.update_of_ne hd _ _
  · exact Function.update_of_ne hd _ _

theorem next_calls (h : next cooldownSeconds c s = some s') {d : C} (hd : d ≠ c) : s'.calls d = s.calls d := by
  obtain ⟨call, det, -, -, hcases⟩ := next_cases h
  rcases hcases with ⟨-, -, -, rfl⟩ | ⟨-, rfl⟩ | ⟨rec, -, rfl⟩ | ⟨rec, -, rfl⟩
  · rfl
  · exact Function.update_of_ne hd _ _
  · rfl
  · exact Function.update_of_ne hd _ _

/-- A call has results left while it is in between. -/
theorem next_outside (h : next cooldownSeconds c s = some s')
    (hended : (s'.calls c).all (fun call => call.results.isEmpty) = true) :
    s'.throttle.place c = .outside := by
  obtain ⟨call, det, hcall, hdet, hcases⟩ := next_cases h
  have hleft : (s.calls c).all (fun call => call.results.isEmpty) = false := by
    rw [hcall]
    cases hresults : call.results with
    | nil => simp [hresults] at hdet
    | cons det rest => simp [hresults]
  rcases hcases with ⟨-, -, -, rfl⟩ | ⟨hplace, rfl⟩ | ⟨rec, -, rfl⟩ | ⟨rec, -, rfl⟩
  · rw [hleft] at hended
    cases hended
  · exact hplace
  · rw [hleft] at hended
    cases hended
  · exact Function.update_self _ _ _

/-- What is found free is the record for the result that the call has come to. -/
theorem passed_of_next (h : next cooldownSeconds c s = some s') {d : C} {rec : ScoredRecord}
    (hout : s.throttle.place d = .outside) (hpassed : s'.throttle.place d = .passed rec) :
    d = c ∧ ∃ call det, s.calls c = some call ∧ call.results.head? = some det ∧ det.isAnomaly = true ∧
      rec = call.record det := by
  have hdc : d = c := by
    by_contra hne
    rw [next_place h hne, hout] at hpassed
    cases hpassed
  subst hdc
  refine ⟨rfl, ?_⟩
  obtain ⟨call, det, hcall, hdet, hcases⟩ := next_cases h
  rcases hcases with ⟨-, hanomaly, -, rfl⟩ | ⟨-, rfl⟩ | ⟨rec', hplace, -⟩ | ⟨rec', hplace, -⟩
  · refine ⟨call, det, hcall, hdet, hanomaly, ?_⟩
    rw [Throttle.goTo_place, if_pos rfl] at hpassed
    exact (ThrottlePlace.passed.inj hpassed).symm
  · change s.throttle.place d = _ at hpassed
    rw [hout] at hpassed
    cases hpassed
  · rw [hout] at hplace
    cases hplace
  · rw [hout] at hplace
    cases hplace

/-- A call that moves while no other one is in between is alone. -/
theorem alone_of_next (h : next cooldownSeconds c s = some s')
    (hothers : ∀ d, d ≠ c → s.throttle.place d = .outside) : Alone s s' := by
  intro e what hout hpassed d other hd
  obtain ⟨hec, -⟩ := passed_of_next h hout hpassed
  by_cases hdc : d = c
  · rw [hdc, ← hec, hout] at hd
    cases hd
  · rw [hothers d hdc] at hd
    cases hd

/-- A step is one of the throttle, or does not touch it. -/
theorem Step.throttle (h : Step cooldownSeconds s s') : s'.throttle = s.throttle ∨
    Throttle.Step ScoredRecord.cooldownKey (cooldownSeconds : Timestamp) s.throttle s'.throttle := by
  cases h with
  | tick now later => exact Or.inr (.tick now later)
  | begin c call new => exact Or.inl rfl
  | next c hnext =>
    obtain ⟨call, det, -, -, hcases⟩ := next_cases hnext
    rcases hcases with ⟨hplace, -, hfree, rfl⟩ | ⟨-, rfl⟩ | ⟨rec, hplace, rfl⟩ | ⟨rec, hplace, rfl⟩
    · exact Or.inr (.pass c (call.record det) hplace hfree)
    · exact Or.inl rfl
    · exact Or.inr (.act c rec hplace)
    · exact Or.inr (.arm c rec hplace)
  | rollback c => exact Or.inr (.abort c)

def Orderly (cooldownSeconds : Int) (s : DetectionCalls C) : Prop :=
  Throttle.Inv ScoredRecord.cooldownKey (cooldownSeconds : Timestamp) s.throttle

theorem Orderly.step (inv : Orderly cooldownSeconds s)
    (h : Where Alone (Step cooldownSeconds) s s') : Orderly cooldownSeconds s' := by
  obtain ⟨alone, hstep⟩ := h
  rcases hstep.throttle with hsame | hthrottle
  · rw [Orderly, hsame]
    exact inv
  · exact Throttle.Inv.step inv ⟨alone, hthrottle⟩

end DetectionCalls

def DetectionCalls.records (s : DetectionCalls C) : List (ThrottledAct C ScoredRecord Timestamp) :=
  s.throttle.acts

/-- In a run where every call that finds a cooldown key free is alone until it has armed it, the later of
two records of one detector for one source and metric comes after the cooldown of the earlier one. -/
theorem one_record_per_cooldown [DecidableEq C] {cooldownSeconds : Int} {s s' : DetectionCalls C}
    (hidle : ∀ c, s.throttle.place c = .outside) (hnone : s.records = [])
    (run : Run (Where DetectionCalls.Alone (DetectionCalls.Step cooldownSeconds)) s s') :
    s'.records.Pairwise (fun a b => a.what.sourceId = b.what.sourceId →
      a.what.metricName = b.what.metricName → a.what.detectorType = b.what.detectorType →
      ∃ t : Timestamp, a.armedAt = some t ∧ t + cooldownSeconds ≤ b.since) := by
  have hstart : DetectionCalls.Orderly cooldownSeconds s := .start hidle hnone
  have inv := run.invariant (fun _ _ inv h => inv.step h) hstart
  refine inv.apart.imp (fun {a b} h hsource hmetric hdetector => h ?_)
  rw [ScoredRecord.cooldownKey, ScoredRecord.cooldownKey, hsource, hmetric, hdetector]

/-! ### Two calls -/

private inductive Choice where
  | tick (now : Timestamp)
  | begin (c : Bool) (call : DetectionCall)
  | next (c : Bool)

private def choose (cooldownSeconds : Int) : Choice → DetectionCalls Bool → Option (DetectionCalls Bool)
  | .tick now, s =>
    if s.throttle.now ≤ now then some { s with throttle := { s.throttle with now := now } } else none
  | .begin c call, s => if (s.calls c).isNone then some (s.setCall c call) else none
  | .next c, s => DetectionCalls.next cooldownSeconds c s

private theorem choose_legal (cooldownSeconds : Int) (ks : List Choice) : ∀ k ∈ ks, ∀ s s',
    choose cooldownSeconds k s = some s' → DetectionCalls.Step cooldownSeconds s s' := by
  intro k _ s s' h
  cases k with
  | tick now =>
    simp only [choose, Option.ite_none_right_eq_some, Option.some.injEq] at h
    exact h.2 ▸ .tick now h.1
  | begin c call =>
    simp only [choose, Option.ite_none_right_eq_some, Option.some.injEq] at h
    exact h.2 ▸ .begin c call (by simpa using h.1)
  | next c => exact .next c h

private def othersOutside : Choice → DetectionCalls Bool → Bool
  | .next c, s => match s.throttle.place (!c) with
    | .outside => true
    | _ => false
  | _, _ => true

private theorem othersOutside_sound (k : Choice) (s s' : DetectionCalls Bool)
    (hcheck : othersOutside k s = true) (h : choose 300 k s = some s') : DetectionCalls.Alone s s' := by
  have hsame (heq : s'.throttle.place = s.throttle.place) : DetectionCalls.Alone s s' := by
    intro c what hout hpassed
    rw [heq, hout] at hpassed
    cases hpassed
  cases k with
  | tick now =>
    simp only [choose, Option.ite_none_right_eq_some, Option.some.injEq] at h
    exact hsame (by rw [← h.2])
  | begin c call =>
    simp only [choose, Option.ite_none_right_eq_some, Option.some.injEq] at h
    exact hsame (by rw [← h.2]; rfl)
  | next c =>
    refine DetectionCalls.alone_of_next h (fun d hd => ?_)
    simp only [othersOutside] at hcheck
    split at hcheck
    · next hplace => rw [Bool.eq_not_of_ne hd, hplace]
    · cases hcheck

private def spike (scored : WindowMember) (id : RecordId) : DetectionCall where
  sourceId := "s"
  metricName := "latency"
  scored := scored
  recordId _ := id
  results := [{
    isAnomaly := true, score := .finite 5, expectedValue := none, actualValue := scored.payload.value
    deviation := .finite 5, detectorName := "zscore", severity := "high", reason := "" }]

private def spikeMember : WindowMember := ⟨0, "m", ⟨.finite 9, "p"⟩⟩

private def noCalls : DetectionCalls Bool where
  throttle := { now := 0, deadline := fun _ => none, place := fun _ => .outside, acts := [] }
  calls _ := none

/-- A second call finds the key free when it has expired. -/
theorem one_record_per_cooldown_of_two : ∃ s : DetectionCalls Bool,
    Run (Where DetectionCalls.Alone (DetectionCalls.Step 300)) noCalls s ∧ s.records.length = 2 ∧
    s.records.Pairwise (fun a b => a.what.sourceId = b.what.sourceId →
      a.what.metricName = b.what.metricName → a.what.detectorType = b.what.detectorType →
      ∃ t : Timestamp, a.armedAt = some t ∧ t + (300 : Int) ≤ b.since) := by
  have hreplay : (execute (fun k s => if othersOutside k s then choose 300 k s else none)
      [.begin true (spike spikeMember "r"), .next true, .next true, .next true, .tick 300,
        .begin false (spike spikeMember "q"), .next false, .next false, .next false]
      noCalls).any (fun s => s.records.length = 2) = true := by decide +kernel
  obtain ⟨s, run, hs⟩ := exists_run_where (choose_legal 300 _) othersOutside othersOutside_sound hreplay
  exact ⟨s, run, by simpa using hs, one_record_per_cooldown (fun _ => rfl) rfl run⟩

/-- Both calls find the key free before one has armed it. -/
theorem two_records_in_one_cooldown : ∃ s : DetectionCalls Bool,
    Run (DetectionCalls.Step 300) noCalls s ∧ ∃ a b, s.records = [a, b] ∧
    a.what.cooldownKey = b.what.cooldownKey ∧ a.since = 0 ∧ b.since = 0 ∧ a.armedAt = some 0 ∧
    ¬ s.records.Pairwise (fun a b => a.what.sourceId = b.what.sourceId →
      a.what.metricName = b.what.metricName → a.what.detectorType = b.what.detectorType →
      ∃ t : Timestamp, a.armedAt = some t ∧ t + (300 : Int) ≤ b.since) := by
  have hreplay : (execute (choose 300) [
      .begin true (spike spikeMember "r"), .begin false (spike spikeMember "q"),
      .next true, .next false, .next true, .next false, .next true, .next false] noCalls).any
        (fun s => match s.records with
          | [a, b] => a.what.sourceId = b.what.sourceId ∧ a.what.metricName = b.what.metricName ∧
              a.what.detectorType = b.what.detectorType ∧ a.since = 0 ∧ b.since = 0 ∧ a.armedAt = some 0
          | _ => false) = true := by decide +kernel
  obtain ⟨s, run, hs⟩ := exists_run_of_execute (choose_legal 300 _) hreplay
  split at hs
  · next a b hrecords =>
    simp only [decide_eq_true_eq] at hs
    obtain ⟨hsource, hmetric, hdetector, ha, hb, harmed⟩ := hs
    refine ⟨s, run, a, b, hrecords, ?_, ha, hb, harmed, fun hpairwise => ?_⟩
    · rw [ScoredRecord.cooldownKey, ScoredRecord.cooldownKey, hsource, hmetric, hdetector]
    · rw [hrecords] at hpairwise
      obtain ⟨t, ht, hle⟩ := List.rel_of_pairwise_cons hpairwise List.mem_cons_self hsource hmetric hdetector
      rw [harmed] at ht
      cases ht
      rw [hb] at hle
      exact absurd hle (by decide +kernel)
  · cases hs

end BackendProjects.Anomaly
