import BackendProjects.Anomaly.Stores

/-! Ingestion and detection as the writes that an undisturbed call makes, in order. A call that raises has
made the first few of them. -/
namespace BackendProjects.Anomaly
open Library Workflow

structure DetectionResult where
  isAnomaly : Bool
  score : PyFloat
  expectedValue : Option PyFloat
  actualValue : PyFloat
  deviation : PyFloat
  detectorName : String
  severity : String
  reason : String

/-- A detector reports the value that it was asked about. -/
structure Detector where
  detect : List PyFloat → PyFloat → DetectionResult
  actual : ∀ values current, (detect values current).actualValue = current

def Detector.always : Detector where
  detect _ current := {
    isAnomaly := true, score := .finite 1, expectedValue := none, actualValue := current
    deviation := .finite 0, detectorName := "zscore", severity := "high", reason := "" }
  actual _ _ := rfl

/-- The settings and the registered detectors; `reprFloat` is what `json.dumps` writes for a float. -/
structure Platform where
  detectionWindowSize : Int := 100
  reprFloat : PyFloat → String
  detectors : List Detector

structure MetricIngest where
  sourceName : String
  metricName : String
  value : PyFloat
  unit : Option String := none
  tags : Option PyDict := none
  timestamp : Option Timestamp := none

/-- A metric at the moment of its ingestion, with the clock and the UUIDs that the call draws. -/
structure Arrival extends MetricIngest where
  now : Timestamp
  sourceId : SourceId
  pointId : PointId
  memberId : String
  recordId : String → RecordId

def slidingWindowKey (sourceId : SourceId) (metricName : String) : String :=
  "sw:" ++ sourceId ++ ":" ++ metricName

def cooldownKey (sourceId : SourceId) (metricName detectorName : String) : String :=
  "cd:" ++ sourceId ++ ":" ++ metricName ++ ":" ++ detectorName

def ruleCooldownKey (ruleId : String) (sourceId : SourceId) (metricName : String) : String :=
  "rulecd:" ++ ruleId ++ ":" ++ sourceId ++ ":" ++ metricName

def severityRank : String → Option Nat
  | "low" => some 1
  | "medium" => some 2
  | "high" => some 3
  | "critical" => some 4
  | _ => none

def severityMeetsThreshold (severity threshold : String) : Bool :=
  (severityRank threshold).getD 99 ≤ (severityRank severity).getD 0

namespace Platform
variable (P : Platform)

def memberText (value : PyFloat) (ts : Timestamp) (id : String) : String :=
  "\x7b\"v\": " ++ P.reprFloat value ++ ", \"t\": " ++ P.reprFloat (.finite ts) ++
    ", \"id\": \"" ++ id ++ "\"\x7d"

def addToSlidingWindow (key : String) (member : WindowMember) : List Write :=
  [.zadd key member, .trim key P.detectionWindowSize]

def detectWithAll (values : List PyFloat) (current : PyFloat) : List DetectionResult :=
  P.detectors.map (fun d => d.detect values current)

end Platform

/-! ### Detection -/

section Detection
variable (source : MetricSource) (metricName : String)

def DetectionResult.record (det : DetectionResult) (sourceId : SourceId) (metricName : String)
    (id : RecordId) : AnomalyRecord where
  id := id
  sourceId := sourceId
  metricName := metricName
  detectorType := det.detectorName
  severity := det.severity
  score := det.score
  expectedValue := det.expectedValue
  actualValue := det.actualValue
  deviation := det.deviation
  reason := det.reason

def armRule (det : DetectionResult) (st : Stores) (rule : AlertRule) : List Write :=
  let key := ruleCooldownKey rule.id source.id metricName
  if rule.sourceId.all (· = source.id) ∧ rule.metricName.all (· = metricName) ∧
      rule.detectorType = det.detectorName ∧ severityMeetsThreshold det.severity rule.severityThreshold ∧
      ¬ st.checkCooldown key then [.armCooldown key none]
  else []

def recordAnomaly (recordId : String → RecordId) (rules : List AlertRule) (st : Stores)
    (det : DetectionResult) : List Write :=
  let key := cooldownKey source.id metricName det.detectorName
  if det.isAnomaly ∧ ¬ st.checkCooldown key then
    let record : AnomalyRecord := {
      id := recordId det.detectorName
      sourceId := source.id
      metricName := metricName
      detectorType := det.detectorName
      severity := det.severity
      score := det.score
      expectedValue := det.expectedValue
      actualValue := det.actualValue
      deviation := det.deviation
      reason := det.reason }
    let recorded := [.record record, .armCooldown key (some record.id)]
    recorded ++ sequentially (armRule source metricName det) (st.after recorded) rules
  else []

end Detection

namespace Platform
variable (P : Platform)

/-- The history and the value that the detectors are run with: the last member of the window is taken
for the current one. -/
def scored (st : Stores) (source : MetricSource) (metricName : String) : Option (List PyFloat × PyFloat) :=
  let window := st.getSlidingWindow (slidingWindowKey source.id metricName) P.detectionWindowSize
  window.getLast?.map (fun current => (window.dropLast, current))

/-- The value of the call is not looked at. -/
def runDetection (st : Stores) (sourceName metricName : String) (_value : PyFloat)
    (recordId : String → RecordId) : List Write :=
  match st.source sourceName with
  | none => []
  | some source =>
    match P.scored st source metricName with
    | none => []
    | some (values, current) =>
      sequentially (recordAnomaly source metricName recordId (st.rules.filter AlertRule.enabled)) st
        (P.detectWithAll values current)

end Platform

/-! ### Ingestion -/

namespace Arrival
variable (a : Arrival)

def ts : Timestamp := a.timestamp.getD a.now

def source (st : Stores) : MetricSource :=
  (st.source a.sourceName).getD { id := a.sourceId, name := a.sourceName }

def point (st : Stores) : MetricDataPoint where
  id := a.pointId
  sourceId := (a.source st).id
  metricName := a.metricName
  value := a.value
  unit := a.unit
  tags := a.tags
  timestamp := a.ts

def member (P : Platform) : WindowMember where
  score := a.ts
  text := P.memberText a.value a.ts a.memberId
  payload := ⟨a.value, a.pointId⟩

def windowKey (st : Stores) : String := slidingWindowKey (a.source st).id a.metricName

end Arrival

def getOrCreateSource (st : Stores) (a : Arrival) : List Write :=
  match st.source a.sourceName with
  | some _ => []
  | none => [.source (a.source st)]

namespace Platform
variable (P : Platform)

def storeMetric (st : Stores) (a : Arrival) : List Write :=
  getOrCreateSource st a ++ .point (a.point st) :: P.addToSlidingWindow (a.windowKey st) (a.member P)

def ingestMetric (st : Stores) (a : Arrival) : List Write :=
  P.storeMetric st a ++
    P.runDetection (st.after (P.storeMetric st a)) a.sourceName a.metricName a.value a.recordId

def ingestBatch (st : Stores) (batch : List Arrival) : List Write := sequentially P.ingestMetric st batch

theorem ingestBatch_cons (st : Stores) (a : Arrival) (batch : List Arrival) :
    P.ingestBatch st (a :: batch) =
      P.ingestMetric st a ++ P.ingestBatch (st.after (P.ingestMetric st a)) batch := rfl

end Platform

/-! ### Which writes there are -/

/-- Of all parts of a sequence, what holds of the writes of each. -/
theorem sequentially_forall {α : Type} {part : Stores → α → List Write} {P : Write → Prop} (as : List α)
    (h : ∀ st, ∀ a ∈ as, ∀ w ∈ part st a, P w) (st : Stores) : ∀ w ∈ sequentially part st as, P w := by
  refine sequentially_induction (fun _ ws => ∀ w ∈ ws, P w) (fun _ w hw => by cases hw) ?_ as h st
  intro _ ws ws' hws hws' w hw
  exact (List.mem_append.mp hw).elim (hws w) (hws' w)

/-- A rule is armed for no record, and only out of its cooldown. -/
theorem armRule_writes (source : MetricSource) (metricName : String) (det : DetectionResult) (st : Stores)
    (rule : AlertRule) : armRule source metricName det st rule = [] ∨
      ∃ key, armRule source metricName det st rule = [.armCooldown key none] ∧ st.cooldowns key = none := by
  unfold armRule
  dsimp only
  split
  · next h => exact Or.inr ⟨_, rfl, by simpa [Stores.checkCooldown] using h.2.2.2.2⟩
  · exact Or.inl rfl

/-- An anomaly is recorded, its cooldown is armed for the record if it was not, and then the rules are gone
through. -/
theorem recordAnomaly_writes (source : MetricSource) (metricName : String) (recordId : String → RecordId)
    (rules : List AlertRule) (st : Stores) (det : DetectionResult) :
    recordAnomaly source metricName recordId rules st det = [] ∨
      ∃ record key, record = det.record source.id metricName (recordId det.detectorName) ∧
        det.isAnomaly = true ∧ st.cooldowns key = none ∧
        recordAnomaly source metricName recordId rules st det =
          [.record record, .armCooldown key (some record.id)] ++ sequentially (armRule source metricName det)
            (st.after [.record record, .armCooldown key (some record.id)]) rules := by
  unfold recordAnomaly
  dsimp only
  split
  · next h =>
    refine Or.inr ⟨_, cooldownKey source.id metricName det.detectorName, rfl, h.1, ?_, rfl⟩
    simpa [Stores.checkCooldown] using h.2
  · exact Or.inl rfl

/-- What holds of the record of every flagged result and of every armed cooldown holds of the writes of a
detection. -/
theorem runDetection_forall {P : Platform} {st : Stores} {sourceName metricName : String} {value : PyFloat}
    {recordId : String → RecordId} {Q : Write → Prop}
    (record : ∀ source values current d, st.source sourceName = some source →
      P.scored st source metricName = some (values, current) → d ∈ P.detectors →
      (d.detect values current).isAnomaly = true → Q (.record ((d.detect values current).record source.id
        metricName (recordId (d.detect values current).detectorName))))
    (arm : ∀ key r, (∀ id, r = some id → ∃ name, id = recordId name) → Q (.armCooldown key r)) :
    ∀ w ∈ P.runDetection st sourceName metricName value recordId, Q w := by
  unfold Platform.runDetection
  split
  · exact fun w hw => by cases hw
  · next source hsource =>
    split
    · exact fun w hw => by cases hw
    · next values current hscored =>
      refine sequentially_forall _ (fun st' det hdet w hw => ?_) _
      obtain ⟨d, hd, rfl⟩ := List.mem_map.mp hdet
      rcases recordAnomaly_writes source metricName recordId (st.rules.filter AlertRule.enabled) st'
        (d.detect values current) with hnone | ⟨row, key, hrow, hflag, -, hwrites⟩
      · rw [hnone] at hw
        cases hw
      · rw [hwrites] at hw
        rcases List.mem_append.mp hw with hw | hw
        · simp only [List.mem_cons, List.not_mem_nil, or_false] at hw
          rcases hw with rfl | rfl
          · exact hrow ▸ record source values current d hsource hscored hd hflag
          · exact arm key _ (fun id h => ⟨_, (Option.some.inj h).symm.trans (congrArg AnomalyRecord.id hrow)⟩)
        · refine sequentially_forall _ (fun st'' rule _ w hw => ?_) _ w hw
          rcases armRule_writes source metricName (d.detect values current) st'' rule with
            hnone | ⟨key', harm, -⟩
          · rw [hnone] at hw
            cases hw
          · rw [harm, List.mem_singleton] at hw
            exact hw ▸ arm key' none (fun id h => by cases h)

def Write.Detects : Write → Prop
  | .record _ | .armCooldown _ _ => True
  | _ => False

theorem after_detects (st : Stores) {ws : List Write} (h : ∀ w ∈ ws, w.Detects) :
    (st.after ws).windows = st.windows ∧ (st.after ws).session.sources = st.session.sources := by
  induction ws generalizing st with
  | nil => exact ⟨rfl, rfl⟩
  | cons w ws ih =>
    obtain ⟨hw, hws⟩ := List.forall_mem_cons.mp h
    obtain ⟨hwindows, hsources⟩ := ih (st.apply w) hws
    rw [Stores.after_cons, hwindows, hsources]
    cases w with
    | record row => exact ⟨rfl, rfl⟩
    | armCooldown key record => exact ⟨rfl, rfl⟩
    | _ => exact hw.elim

theorem runDetection_detects (P : Platform) (st : Stores) (sourceName metricName : String) (value : PyFloat)
    (recordId : String → RecordId) :
    ∀ w ∈ P.runDetection st sourceName metricName value recordId, w.Detects :=
  runDetection_forall (fun _ _ _ _ _ _ _ _ => trivial) (fun _ _ _ => trivial)

end BackendProjects.Anomaly
