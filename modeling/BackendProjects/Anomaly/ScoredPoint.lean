import BackendProjects.Anomaly.Ingest

/-! The value that an ingestion has scored: the greatest member of the window by timestamp and text, which
is another point's whenever the new one comes late. -/
namespace BackendProjects.Anomaly
open Library Workflow
variable {P : Platform} {st : Stores} {a : Arrival}

/-! ### What the parts of a call do -/

private theorem find?_append_self {sources : List MetricSource} {name : String} {row : MetricSource}
    (hnone : sources.find? (fun s => s.name = name) = none) (hrow : row.name = name) :
    (sources ++ [row]).find? (fun s => s.name = name) = some row := by
  simp [List.find?_append, hnone, hrow]

/-- Storing a metric makes its source known and pushes its member to the window of that source. -/
theorem storeMetric_after (P : Platform) (st : Stores) (a : Arrival) :
    (st.after (P.storeMetric st a)).source a.sourceName = some (a.source st) ∧
    (st.after (P.storeMetric st a)).windows = Function.update st.windows (a.windowKey st)
      ((st.windows (a.windowKey st)).push P.detectionWindowSize (a.member P)) := by
  have hcreated : (st.after (getOrCreateSource st a)).source a.sourceName = some (a.source st) ∧
      (st.after (getOrCreateSource st a)).windows = st.windows := by
    unfold getOrCreateSource
    split
    · next source hsource => exact ⟨by rw [Stores.after_nil, hsource, Arrival.source, hsource]; rfl, rfl⟩
    · next hnone =>
      refine ⟨find?_append_self hnone ?_, rfl⟩
      rw [Arrival.source, hnone]
      rfl
  rw [Platform.storeMetric, Stores.after_append]
  refine ⟨hcreated.1, ?_⟩
  rw [← hcreated.2]
  simp [Platform.addToSlidingWindow, Stores.apply, SortedSet.push]

theorem ingestMetric_after (P : Platform) (st : Stores) (a : Arrival) :
    (st.after (P.ingestMetric st a)).source a.sourceName = some (a.source st) ∧
    (st.after (P.ingestMetric st a)).windows = Function.update st.windows (a.windowKey st)
      ((st.windows (a.windowKey st)).push P.detectionWindowSize (a.member P)) := by
  obtain ⟨hsource, hwindows⟩ := storeMetric_after P st a
  obtain ⟨hsame, hsources⟩ := after_detects (st.after (P.storeMetric st a))
    (runDetection_detects P _ a.sourceName a.metricName a.value a.recordId)
  rw [Platform.ingestMetric, Stores.after_append, hsame, Stores.source, hsources]
  exact ⟨hsource, hwindows⟩

/-- Ingestions into one window push their members one after the other. -/
theorem ingestBatch_after {source : MetricSource} {earlier : List Arrival}
    (same : ∀ b ∈ earlier, b.sourceName = a.sourceName ∧ b.metricName = a.metricName)
    (hsource : st.source a.sourceName = some source) :
    (st.after (P.ingestBatch st earlier)).source a.sourceName = some source ∧
    (st.after (P.ingestBatch st earlier)).windows (slidingWindowKey source.id a.metricName) =
      (earlier.map (·.member P)).foldl (SortedSet.push P.detectionWindowSize)
        (st.windows (slidingWindowKey source.id a.metricName)) := by
  induction earlier generalizing st with
  | nil => exact ⟨hsource, rfl⟩
  | cons b earlier ih =>
    obtain ⟨⟨hname, hmetric⟩, hrest⟩ := List.forall_mem_cons.mp same
    obtain ⟨hknown, hwindows⟩ := ingestMetric_after P st b
    have hb : b.source st = source := by rw [Arrival.source, hname, hsource]; rfl
    rw [hname, hb] at hknown
    obtain ⟨hafter, hwindow⟩ := ih hrest hknown
    rw [Platform.ingestBatch_cons, Stores.after_append]
    refine ⟨hafter, ?_⟩
    rw [hwindow, hwindows, Arrival.windowKey, hb, hmetric, Function.update_self, List.map_cons, List.foldl_cons]

/-! ### What is scored -/

def Platform.scoredValue (P : Platform) (st : Stores) (a : Arrival) : Option PyFloat := do
  let stored := st.after (P.storeMetric st a)
  let source ← stored.source a.sourceName
  let (_, current) ← P.scored stored source a.metricName
  return current

def firstWindowKey (st : Stores) (earlier : List Arrival) (a : Arrival) : String :=
  ((earlier ++ [a]).head (by simp)).windowKey st

private theorem ingestBatch_window (P : Platform) (st : Stores) {earlier : List Arrival}
    (same : ∀ b ∈ earlier, b.sourceName = a.sourceName ∧ b.metricName = a.metricName) :
    a.windowKey (st.after (P.ingestBatch st earlier)) = firstWindowKey st earlier a ∧
    (st.after (P.ingestBatch st earlier)).windows (firstWindowKey st earlier a) =
      (earlier.map (·.member P)).foldl (SortedSet.push P.detectionWindowSize)
        (st.windows (firstWindowKey st earlier a)) := by
  cases earlier with
  | nil => exact ⟨rfl, rfl⟩
  | cons b earlier =>
    obtain ⟨⟨hname, hmetric⟩, hrest⟩ := List.forall_mem_cons.mp same
    obtain ⟨hknown, hwindows⟩ := ingestMetric_after P st b
    rw [hname] at hknown
    obtain ⟨hafter, hwindow⟩ := ingestBatch_after hrest hknown
    have hkey : firstWindowKey st (b :: earlier) a = slidingWindowKey (b.source st).id a.metricName := by
      rw [← hmetric]
      rfl
    rw [Platform.ingestBatch_cons, Stores.after_append, hkey]
    refine ⟨?_, ?_⟩
    · rw [Arrival.windowKey, Arrival.source, hafter, Option.getD_some]
    · rw [hwindow, hwindows, Arrival.windowKey, hmetric, Function.update_self, List.map_cons, List.foldl_cons]

/-- The scored value is that of the last member of the window with all points pushed. -/
theorem scoredValue_eq (P : Platform) (st : Stores) {earlier : List Arrival}
    (same : ∀ b ∈ earlier, b.sourceName = a.sourceName ∧ b.metricName = a.metricName) :
    P.scoredValue (st.after (P.ingestBatch st earlier)) a =
      (((((earlier ++ [a]).map (·.member P)).foldl (SortedSet.push P.detectionWindowSize)
        (st.windows (firstWindowKey st earlier a))).zrange (-P.detectionWindowSize) (-1)).getLast?).map
          (fun m => m.payload.value) := by
  obtain ⟨hkey, hwindow⟩ := ingestBatch_window P st same
  obtain ⟨hsource, hwindows⟩ := storeMetric_after P (st.after (P.ingestBatch st earlier)) a
  have hpushed : ((st.after (P.ingestBatch st earlier)).after
      (P.storeMetric (st.after (P.ingestBatch st earlier)) a)).windows
        (slidingWindowKey (a.source (st.after (P.ingestBatch st earlier))).id a.metricName) =
      ((earlier ++ [a]).map (·.member P)).foldl (SortedSet.push P.detectionWindowSize)
        (st.windows (firstWindowKey st earlier a)) := by
    rw [hwindows, ← Arrival.windowKey, Function.update_self, hkey, hwindow, List.map_append, List.foldl_append]
    rfl
  simp only [Platform.scoredValue, Option.bind_eq_bind, hsource, Option.bind_some, Platform.scored,
    Stores.getSlidingWindow, hpushed, List.getLast?_map]
  cases (((((earlier ++ [a]).map (·.member P)).foldl (SortedSet.push P.detectionWindowSize)
    (st.windows (firstWindowKey st earlier a))).zrange (-P.detectionWindowSize) (-1)).getLast?) <;> rfl

/-- All members that the window of an arrival has been given: those before the first of a sequence of
arrivals, and one for each arrival. -/
def Platform.history (P : Platform) (st : Stores) (earlier : List Arrival) (a : Arrival) :
    List WindowMember :=
  (st.windows (firstWindowKey st earlier a)).members ++ (earlier ++ [a]).map (·.member P)

/-- The detectors are run with the value that is ingested, and every anomaly is recorded with it. -/
def Platform.ScoresItself (P : Platform) (st : Stores) (a : Arrival) : Prop :=
  P.scoredValue st a = some a.value ∧
    ∀ row, Write.record row ∈ P.ingestMetric st a → row.actualValue = a.value

/-- Records have the value that was scored. -/
theorem records_of_scoredValue {value : PyFloat} (h : P.scoredValue st a = some value) {row : AnomalyRecord}
    (hrow : Write.record row ∈ P.ingestMetric st a) : row.actualValue = value := by
  have hstored : Write.record row ∉ P.storeMetric st a := by
    unfold Platform.storeMetric getOrCreateSource
    split <;> simp [Platform.addToSlidingWindow]
  have hdetected := (List.mem_append.mp hrow).resolve_left hstored
  refine runDetection_forall (Q := fun w => ∀ row, w = .record row → row.actualValue = value) ?_ ?_
    _ hdetected row rfl
  · intro source values current d hsource hscored _ _ row hrow
    simp only [Platform.scoredValue, Option.bind_eq_bind, hsource, Option.bind_some, hscored] at h
    rw [← Write.record.inj hrow]
    exact (d.actual values current).trans (Option.some.inj h)
  · exact fun _ _ _ _ hrow' => nomatch hrow'

private theorem scoresItself_iff : P.ScoresItself st a ↔ P.scoredValue st a = some a.value :=
  ⟨fun h => h.1, fun h => ⟨h, fun _ => records_of_scoredValue h⟩⟩

/-- A point is scored by the ingestion that stores it exactly when the greatest of all members by timestamp
and text, the point's own included, has its value. -/
theorem point_scored_iff_latest (P : Platform) (st : Stores) (earlier : List Arrival) (a : Arrival)
    (same : ∀ b ∈ earlier, b.sourceName = a.sourceName ∧ b.metricName = a.metricName)
    (distinct : ((P.history st earlier a).map ScoredMember.text).Nodup) :
    P.ScoresItself (st.after (P.ingestBatch st earlier)) a ↔ 0 < P.detectionWindowSize ∧
      ∃ m ∈ P.history st earlier a, (∀ m' ∈ P.history st earlier a, m'.key ≤ m.key) ∧
        m.payload.value = a.value := by
  rw [scoresItself_iff, scoredValue_eq P st same, Option.map_eq_some_iff]
  simp only [SortedSet.greatest_pushed (by simp) distinct]
  constructor
  · rintro ⟨m, ⟨hsize, hm, hmax⟩, hvalue⟩
    exact ⟨hsize, m, hm, hmax, hvalue⟩
  · rintro ⟨hsize, m, hm, hmax, hvalue⟩
    exact ⟨m, ⟨hsize, hm, hmax⟩, hvalue⟩

private def reporting : Platform where
  reprFloat
    | .finite q => toString q.num ++ ".0"
    | _ => "NaN"
  detectors := [.always]

private def nothingStored : Stores where
  committed := ⟨[], [], []⟩
  session := ⟨[], [], []⟩
  rules := []
  windows _ := .empty
  cooldowns _ := none

private def arrival (ts : Timestamp) (value : Rat) (id : String) : Arrival where
  sourceName := "api"
  metricName := "latency"
  value := .finite value
  timestamp := some ts
  now := ts
  sourceId := "s"
  pointId := id
  memberId := id
  recordId name := name ++ id

theorem point_scored_iff_latest_on_time :
    reporting.ScoresItself (nothingStored.after (reporting.ingestBatch nothingStored [arrival 50 1 "p"]))
      (arrival 100 9 "q") :=
  (point_scored_iff_latest reporting nothingStored [arrival 50 1 "p"] (arrival 100 9 "q")
    (by simp [arrival]) (by decide +kernel)).mpr (by decide +kernel)

/-- A point that comes late has the value of the latest one recorded as its anomaly. -/
theorem late_point_scores_another :
    ¬ reporting.ScoresItself (nothingStored.after (reporting.ingestBatch nothingStored [arrival 100 1 "p"]))
      (arrival 50 9 "q") := by
  intro h
  have hscored : reporting.scoredValue (nothingStored.after (reporting.ingestBatch nothingStored
      [arrival 100 1 "p"])) (arrival 50 9 "q") = some (.finite 1) := by decide +kernel
  rw [Platform.ScoresItself, hscored] at h
  exact absurd h.1 (by decide)

end BackendProjects.Anomaly
