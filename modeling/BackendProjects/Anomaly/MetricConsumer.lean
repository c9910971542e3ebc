import BackendProjects.Anomaly.ScoredPoint

/-! The consumer of raw metrics beside the ingestion over HTTP. Its module never binds two names that its
handler looks up, so that it swallows every message. -/
namespace BackendProjects.Anomaly
open Library Workflow

/-- What the handler takes from Python: `str`, `float` and `datetime.fromisoformat`. -/
structure Parsing where
  str : PyValue → String
  float : PyValue → Except PyError PyFloat
  fromisoformat : String → Except PyError Timestamp

/-- A message with the metric that it stands for, and the cooldown keys that expire before it comes. -/
structure RawMessage extends Arrival where
  payload : PyDict
  expired : String → Bool := fun _ => false

namespace RawMessage
variable (m : RawMessage)

def get (key : String) (default : PyValue) : PyValue := (m.payload.get? (.str key)).getD default

/-- The payload is that of the metric: its names are not empty, its value and its timestamp can be parsed. -/
structure Carries (L : Parsing) (m : RawMessage) : Prop where
  sourceName : L.str (m.get "source_name" (.str "")) = m.sourceName
  metricName : L.str (m.get "metric_name" (.str "")) = m.metricName
  named : m.sourceName ≠ "" ∧ m.metricName ≠ ""
  value : L.float (m.get "value" (.float (.finite 0))) = .ok m.value
  timestamped : (m.get "timestamp" .none).truthy = true
  timestamp : L.fromisoformat ((L.str (m.get "timestamp" .none)).replace "Z" "+00:00") = .ok m.ts

end RawMessage

namespace Stores
variable (st : Stores)

def expire (expired : String → Bool) : Stores :=
  { st with cooldowns := fun key => if expired key then none else st.cooldowns key }

def commit : Stores := { st with committed := st.session }

/-- The stores that a session finds which is opened when a message comes. -/
def opened (m : RawMessage) : Stores := (st.expire m.expired).rollback

end Stores

def consumerNames : List String :=
  ["asyncio", "logging", "datetime", "timezone", "Any", "settings", "KafkaConsumerClient",
    "async_session_factory", "run_detection", "logger", "MetricConsumer"]

/-- `_handle`: the writes that it has made when it returns or raises. -/
def handle (names : List String) (L : Parsing) (P : Platform) (st : Stores) (m : RawMessage) :
    List Write × Option PyError :=
  let sourceName := L.str (m.get "source_name" (.str ""))
  let metricName := L.str (m.get "metric_name" (.str ""))
  match L.float (m.get "value" (.float (.finite 0))) with
  | .error e => ([], some e)
  | .ok value =>
    if sourceName = "" ∨ metricName = "" then ([], none) else
    match ["select", "MetricSource"].find? (fun name => name ∉ names) with
    | some name => ([], some (.nameError ("name '" ++ name ++ "' is not defined")))
    | none =>
      match st.source sourceName with
      | none => ([], none)
      | some source =>
        let tsRaw := m.get "timestamp" .none
        match if tsRaw.truthy then L.fromisoformat ((L.str tsRaw).replace "Z" "+00:00") else .ok m.now with
        | .error e => ([], some e)
        | .ok ts =>
          let member : WindowMember := ⟨ts, P.memberText value ts m.memberId, ⟨value, m.pointId⟩⟩
          let added := P.addToSlidingWindow (slidingWindowKey source.id metricName) member
          (added ++ P.runDetection (st.after added) sourceName metricName value m.recordId, none)

/-- One round of `_loop`, which swallows what `_handle` raises; the session of the message is not committed
then. -/
def consumeOne (names : List String) (L : Parsing) (P : Platform) (st : Stores) (m : RawMessage) : Stores :=
  match handle names L P (st.opened m) m with
  | (writes, none) => ((st.opened m).after writes).commit
  | (writes, some _) => ((st.opened m).after writes).rollback

def ingestOne (P : Platform) (st : Stores) (m : RawMessage) : Stores :=
  ((st.opened m).after (P.ingestMetric (st.opened m) m.toArrival)).commit

structure SameEffect (st st' : Stores) : Prop where
  windows : st.windows = st'.windows
  records : st.committed.records = st'.committed.records
  cooldowns : st.cooldowns = st'.cooldowns

/-- An ingestion would change nothing: the window is not too long and has as many members as it may above the
new one, and all that its last member is an anomaly for is in its cooldown. -/
def Platform.Ignores (P : Platform) (st : Stores) (m : RawMessage) : Prop :=
  ((st.windows (m.windowKey st)).zcard : Int) ≤ max P.detectionWindowSize 0 ∧
  P.detectionWindowSize ≤ (st.windows (m.windowKey st)).above (m.member P).key ∧
  ∀ values current, P.scored st (m.source st) m.metricName = some (values, current) →
    ∀ det ∈ P.detectWithAll values current, det.isAnomaly = true →
      st.checkCooldown (cooldownKey (m.source st).id m.metricName det.detectorName) = true

/-- Every message of a sequence is one that an ingestion would ignore, in the stores before the first one but
for the keys that have expired. -/
def Platform.IgnoresAll (P : Platform) (st : Stores) : List RawMessage → Prop
  | [] => True
  | m :: rest => P.Ignores (st.opened m) m ∧ P.IgnoresAll (st.opened m) rest

variable {L : Parsing} {P : Platform} {st st' : Stores} {m : RawMessage} {messages : List RawMessage}

/-! ### The records of a call -/

def recordsOf (writes : List Write) : List AnomalyRecord :=
  writes.filterMap (fun
    | .record row => some row
    | _ => none)

private theorem recordsOf_append (ws ws' : List Write) : recordsOf (ws ++ ws') = recordsOf ws ++ recordsOf ws' :=
  List.filterMap_append

private theorem after_records (st : Stores) (ws : List Write) :
    (st.after ws).session.records = st.session.records ++ recordsOf ws := by
  induction ws generalizing st with
  | nil => simp [recordsOf]
  | cons w ws ih =>
    rw [Stores.after_cons, ih]
    cases w <;> simp [Stores.apply, recordsOf]

/-- Parts that write no record when they write nothing else, either, write nothing if there is no record. -/
theorem sequentially_eq_nil {α : Type} {part : Stores → α → List Write}
    (hpart : ∀ st a, recordsOf (part st a) = [] → part st a = []) (as : List α) (st : Stores)
    (h : recordsOf (sequentially part st as) = []) : ∀ a ∈ as, part st a = [] := by
  induction as generalizing st with
  | nil => exact fun a ha => by cases ha
  | cons a as ih =>
    rw [sequentially, recordsOf_append, List.append_eq_nil_iff] at h
    have hfirst : part st a = [] := hpart st a h.1
    rw [hfirst, Stores.after_nil] at h
    exact List.forall_mem_cons.mpr ⟨hfirst, ih st h.2⟩

private theorem sequentially_of_nil {α : Type} {part : Stores → α → List Write} (as : List α) (st : Stores)
    (h : ∀ a ∈ as, part st a = []) : sequentially part st as = [] := by
  induction as with
  | nil => rfl
  | cons a as ih =>
    obtain ⟨hfirst, hrest⟩ := List.forall_mem_cons.mp h
    rw [sequentially, hfirst, Stores.after_nil, ih hrest, List.append_nil]

/-- A result is recorded unless it is no anomaly or in its cooldown. -/
theorem recordAnomaly_eq_nil_iff (source : MetricSource) (metricName : String) (recordId : String → RecordId)
    (rules : List AlertRule) (st : Stores) (det : DetectionResult) :
    recordAnomaly source metricName recordId rules st det = [] ↔ (det.isAnomaly = true →
      st.checkCooldown (cooldownKey source.id metricName det.detectorName) = true) := by
  unfold recordAnomaly
  dsimp only
  split
  · next h => simp [h.1, h.2]
  · next h => simpa using h

private theorem recordsOf_recordAnomaly (source : MetricSource) (metricName : String)
    (recordId : String → RecordId)
    (rules : List AlertRule) (st : Stores) (det : DetectionResult)
    (h : recordsOf (recordAnomaly source metricName recordId rules st det) = []) :
    recordAnomaly source metricName recordId rules st det = [] := by
  rcases recordAnomaly_writes source metricName recordId rules st det with
    hnone | ⟨row, key, -, -, -, hwrites⟩
  · exact hnone
  · rw [hwrites] at h
    simp [recordsOf] at h

/-- A detection in a known source records nothing exactly when all anomalies are in their cooldown, and writes
nothing then. -/
theorem runDetection_silent {source : MetricSource} {sourceName : String} (metricName : String)
    (value : PyFloat) (recordId : String → RecordId) (hsource : st.source sourceName = some source) :
    (recordsOf (P.runDetection st sourceName metricName value recordId) = [] →
      ∀ values current, P.scored st source metricName = some (values, current) →
        ∀ det ∈ P.detectWithAll values current, det.isAnomaly = true →
          st.checkCooldown (cooldownKey source.id metricName det.detectorName) = true) ∧
    ((∀ values current, P.scored st source metricName = some (values, current) →
      ∀ det ∈ P.detectWithAll values current, det.isAnomaly = true →
        st.checkCooldown (cooldownKey source.id metricName det.detectorName) = true) →
      P.runDetection st sourceName metricName value recordId = []) := by
  rw [Platform.runDetection, hsource]
  dsimp only
  cases hscored : P.scored st source metricName with
  | none => simp
  | some scored =>
    obtain ⟨values, current⟩ := scored
    dsimp only
    constructor
    · intro h values' current' heq det hdet
      cases heq
      have hnil := sequentially_eq_nil (recordsOf_recordAnomaly source metricName recordId _) _ st h det hdet
      exact (recordAnomaly_eq_nil_iff ..).mp hnil
    · intro h
      exact sequentially_of_nil _ st (fun det hdet =>
        (recordAnomaly_eq_nil_iff ..).mpr (h values current rfl det hdet))

/-! ### One ingestion -/

private theorem windowKey_congr (h : st.session.sources = st'.session.sources) (a : Arrival) :
    a.source st = a.source st' ∧ a.windowKey st = a.windowKey st' := by
  have hsource : a.source st = a.source st' := by
    rw [Arrival.source, Arrival.source, Stores.source, Stores.source, h]
  exact ⟨hsource, by rw [Arrival.windowKey, Arrival.windowKey, hsource]⟩

/-- Storing a metric of a known source records nothing. -/
theorem storeMetric_known (hsource : (st.source m.sourceName).isSome = true) :
    recordsOf (P.storeMetric st m.toArrival) = [] ∧
      (st.after (P.storeMetric st m.toArrival)).cooldowns = st.cooldowns ∧
      (st.after (P.storeMetric st m.toArrival)).rules = st.rules ∧
      (st.after (P.storeMetric st m.toArrival)).session.sources = st.session.sources := by
  obtain ⟨source, hsource⟩ := Option.isSome_iff_exists.mp hsource
  have hknown : getOrCreateSource st m.toArrival = [] := by rw [getOrCreateSource, hsource]
  rw [Platform.storeMetric, hknown]
  exact ⟨rfl, rfl, rfl, rfl⟩

private theorem ingestMetric_records (hsource : (st.source m.sourceName).isSome = true) :
    (st.after (P.ingestMetric st m.toArrival)).session.records = st.session.records ++
      recordsOf (P.runDetection (st.after (P.storeMetric st m.toArrival)) m.sourceName m.metricName m.value
        m.recordId) := by
  rw [after_records, Platform.ingestMetric, recordsOf_append, (storeMetric_known hsource).1, List.nil_append]

/-- What an ingestion of a known source does to the stores. -/
theorem ingestOne_after (P : Platform) (st : Stores)
    (hsource : ((st.opened m).source m.sourceName).isSome = true) :
    (ingestOne P st m).windows = Function.update st.windows (m.windowKey st.rollback)
      ((st.windows (m.windowKey st.rollback)).push P.detectionWindowSize (m.member P)) ∧
    (ingestOne P st m).committed.sources = st.committed.sources ∧
    ∃ rows, (ingestOne P st m).committed.records = st.committed.records ++ rows := by
  obtain ⟨-, hwindows⟩ := ingestMetric_after P (st.opened m) m.toArrival
  obtain ⟨-, -, -, hsources⟩ := storeMetric_known (P := P) hsource
  obtain ⟨-, hdetected⟩ := after_detects ((st.opened m).after (P.storeMetric (st.opened m) m.toArrival))
    (runDetection_detects P _ m.sourceName m.metricName m.value m.recordId)
  refine ⟨hwindows, ?_, _, ingestMetric_records hsource⟩
  change ((st.opened m).after (P.ingestMetric (st.opened m) m.toArrival)).session.sources = _
  rw [Platform.ingestMetric, Stores.after_append, hdetected, hsources]
  rfl

structure Alike (st st' : Stores) : Prop extends SameEffect st st' where
  rules : st.rules = st'.rules
  sources : st.committed.sources = st'.committed.sources

private theorem Alike.opened (h : Alike st st') (m : RawMessage) : Alike (st.opened m) (st'.opened m) where
  windows := h.windows
  records := h.records
  cooldowns := by
    change (fun key => if m.expired key then none else st.cooldowns key) = _
    rw [h.cooldowns]
    rfl
  rules := h.rules
  sources := h.sources

def RawMessage.New (m : RawMessage) (P : Platform) (st : Stores) : Prop :=
  ∀ key, ∀ a ∈ (st.windows key).members, a.text ≠ (m.member P).text

private theorem push_eq_self_iff (hnew : m.New P st) (key : String) :
    (st.windows key).push P.detectionWindowSize (m.member P) = st.windows key ↔
      ((st.windows key).zcard : Int) ≤ max P.detectionWindowSize 0 ∧
        P.detectionWindowSize ≤ (st.windows key).above (m.member P).key := by
  have hdistinct : (((st.windows key).members ++ [m.member P]).map ScoredMember.text).Nodup := by
    rw [List.map_append, List.nodup_append]
    refine ⟨(st.windows key).distinct, by simp, fun text htext text' htext' => ?_⟩
    obtain ⟨a, ha, rfl⟩ := List.mem_map.mp htext
    obtain rfl := List.mem_singleton.mp htext'
    exact hnew key a ha
  have hsingle : [m.member P] ≠ [] := List.cons_ne_nil _ _
  simpa using SortedSet.pushed_eq_self_iff hsingle hdistinct

/-- With the window as it was, the detection asks about the same results as before the metric was stored. -/
theorem silent_after_store (hsource : (st.source m.sourceName).isSome = true)
    (hwindows : (st.after (P.storeMetric st m.toArrival)).windows = st.windows) :
    let run := P.runDetection (st.after (P.storeMetric st m.toArrival)) m.sourceName m.metricName m.value
      m.recordId
    let silent := ∀ values current, P.scored st (m.source st) m.metricName = some (values, current) →
      ∀ det ∈ P.detectWithAll values current, det.isAnomaly = true →
        st.checkCooldown (cooldownKey (m.source st).id m.metricName det.detectorName) = true
    (recordsOf run = [] → silent) ∧ (silent → run = []) := by
  obtain ⟨hknown, -⟩ := storeMetric_after P st m.toArrival
  obtain ⟨-, hcooldowns, -, -⟩ := storeMetric_known (P := P) hsource
  have hsilent := runDetection_silent (P := P) m.metricName m.value m.recordId hknown
  simpa only [Platform.scored, Stores.getSlidingWindow, Stores.checkCooldown, hwindows, hcooldowns]
    using hsilent

/-- An ingestion that is ignored leaves the stores alike. -/
theorem alike_of_ignores (hsource : ((st.opened m).source m.sourceName).isSome = true)
    (hnew : m.New P (st.opened m)) (h : P.Ignores (st.opened m) m) :
    Alike (st.opened m) (ingestOne P st m) := by
  obtain ⟨hcard, habove, hsilent⟩ := h
  have hpush := (push_eq_self_iff hnew _).mpr ⟨hcard, habove⟩
  obtain ⟨hknown, hstored⟩ := storeMetric_after P (st.opened m) m.toArrival
  rw [hpush, Function.update_eq_self] at hstored
  obtain ⟨hnone, hcooldowns, hrules, hsources⟩ := storeMetric_known (P := P) hsource
  have hrun := (silent_after_store hsource hstored).2 hsilent
  have hwrites : P.ingestMetric (st.opened m) m.toArrival = P.storeMetric (st.opened m) m.toArrival := by
    rw [Platform.ingestMetric, hrun, List.append_nil]
  refine ⟨⟨?_, ?_, ?_⟩, ?_, ?_⟩
  · rw [ingestOne, hwrites]
    exact hstored.symm
  · rw [ingestOne, hwrites]
    change _ = ((st.opened m).after _).session.records
    rw [after_records, hnone, List.append_nil]
    rfl
  · rw [ingestOne, hwrites]
    exact hcooldowns.symm
  · rw [ingestOne, hwrites]
    exact hrules.symm
  · rw [ingestOne, hwrites]
    exact hsources.symm

/-- An ingestion that changes neither a window nor the records is ignored. -/
theorem ignores_of_same (hsource : ((st.opened m).source m.sourceName).isSome = true)
    (hnew : m.New P (st.opened m)) (hwindows : (ingestOne P st m).windows = st.windows)
    (hrecords : (ingestOne P st m).committed.records = st.committed.records) : P.Ignores (st.opened m) m := by
  have hpush : ((st.opened m).windows (m.windowKey (st.opened m))).push P.detectionWindowSize (m.member P) =
      (st.opened m).windows (m.windowKey (st.opened m)) := by
    rw [(ingestOne_after P st hsource).1, Function.update_eq_self_iff] at hwindows
    exact hwindows
  obtain ⟨hcard, habove⟩ := (push_eq_self_iff hnew _).mp hpush
  obtain ⟨-, hstored⟩ := storeMetric_after P (st.opened m) m.toArrival
  rw [hpush, Function.update_eq_self] at hstored
  have hrun := ingestMetric_records (P := P) hsource
  change (ingestOne P st m).committed.records = st.committed.records ++ _ at hrun
  rw [hrecords, List.self_eq_append_right] at hrun
  exact ⟨hcard, habove, (silent_after_store hsource hstored).1 hrun⟩

/-! ### Sequences -/

def Known (st : Stores) (messages : List RawMessage) : Prop :=
  ∀ m ∈ messages, (st.rollback.source m.sourceName).isSome = true

private theorem Known.of_sources (h : Known st messages)
    (hsources : st'.committed.sources = st.committed.sources) :
    Known st' messages := by
  intro m hm
  have hknown := h m hm
  rw [Stores.source, Stores.rollback] at hknown ⊢
  rw [hsources]
  exact hknown

/-- Each window after a sequence of ingestions has been pushed the members of its own messages. -/
theorem ingest_windows (known : Known st messages) (key : String) :
    (messages.foldl (ingestOne P) st).windows key =
      ((messages.filter (fun m => m.windowKey st.rollback = key)).map (·.member P)).foldl
        (SortedSet.push P.detectionWindowSize) (st.windows key) := by
  induction messages generalizing st with
  | nil => rfl
  | cons m rest ih =>
    obtain ⟨hfirst, hrest⟩ := List.forall_mem_cons.mp known
    obtain ⟨hwindows, hsources, -⟩ := ingestOne_after P st hfirst
    have hkeys (m' : RawMessage) : m'.windowKey (ingestOne P st m).rollback = m'.windowKey st.rollback :=
      (windowKey_congr hsources m'.toArrival).2
    rw [List.foldl_cons, ih (Known.of_sources hrest hsources), hwindows]
    simp only [hkeys]
    by_cases hkey : m.windowKey st.rollback = key
    · rw [List.filter_cons_of_pos (by simpa using hkey), List.map_cons, List.foldl_cons, hkey,
        Function.update_self]
    · rw [List.filter_cons_of_neg (by simpa using hkey), Function.update_of_ne (Ne.symm hkey)]

private theorem ingest_records (P : Platform) (known : Known st messages) :
    ∃ rows, (messages.foldl (ingestOne P) st).committed.records = st.committed.records ++ rows := by
  induction messages generalizing st with
  | nil => exact ⟨[], (List.append_nil _).symm⟩
  | cons m rest ih =>
    obtain ⟨hfirst, hrest⟩ := List.forall_mem_cons.mp known
    obtain ⟨-, hsources, rows, hrows⟩ := ingestOne_after P st hfirst
    obtain ⟨rows', hrows'⟩ := ih (Known.of_sources hrest hsources)
    exact ⟨rows ++ rows', by rw [List.foldl_cons, hrows', hrows, List.append_assoc]⟩

/-- The handler comes to a name that its module does not bind. -/
theorem consumeOne_eq (carries : m.Carries L) (st : Stores) :
    consumeOne consumerNames L P st m = st.opened m := by
  have hunbound : ["select", "MetricSource"].find? (fun name => name ∉ consumerNames) = some "select" := by
    decide
  have hnamed : ¬ (m.sourceName = "" ∨ m.metricName = "") := not_or.mpr carries.named
  have hraises : handle consumerNames L P (st.opened m) m =
      ([], some (.nameError "name 'select' is not defined")) := by
    rw [handle, carries.value, carries.sourceName, carries.metricName]
    dsimp only
    rw [if_neg hnamed, hunbound]
    rfl
  rw [consumeOne, hraises]
  rfl

private theorem consume_same (carries : ∀ m ∈ messages, m.Carries L) (st : Stores) :
    (messages.foldl (consumeOne consumerNames L P) st).windows = st.windows ∧
      (messages.foldl (consumeOne consumerNames L P) st).committed = st.committed := by
  induction messages generalizing st with
  | nil => exact ⟨rfl, rfl⟩
  | cons m rest ih =>
    obtain ⟨hfirst, hrest⟩ := List.forall_mem_cons.mp carries
    rw [List.foldl_cons, consumeOne_eq hfirst]
    exact ih hrest (st.opened m)

structure Fresh (P : Platform) (st : Stores) (messages : List RawMessage) : Prop where
  new : ∀ m ∈ messages, m.New P st
  distinct : (messages.map (fun m => (m.member P).text)).Nodup

/-- If the first of some ingestions pushes a member that its window does not keep as it was, no later one
restores the window. -/
theorem push_of_same_windows {rest : List RawMessage} (known : Known st (m :: rest))
    (fresh : Fresh P st (m :: rest)) (h : ((m :: rest).foldl (ingestOne P) st).windows = st.windows) :
    (st.windows (m.windowKey st.rollback)).push P.detectionWindowSize (m.member P) =
      st.windows (m.windowKey st.rollback) := by
  let own := (m :: rest).filter (fun m' => m'.windowKey st.rollback = m.windowKey st.rollback)
  have hown : m ∈ own := List.mem_filter.mpr ⟨List.mem_cons_self, by simp⟩
  have hpushed : (own.map (·.member P)).foldl (SortedSet.push P.detectionWindowSize)
      (st.windows (m.windowKey st.rollback)) = st.windows (m.windowKey st.rollback) := by
    rw [← ingest_windows known, h]
  have hdistinct : (((st.windows (m.windowKey st.rollback)).members ++ own.map (·.member P)).map
      ScoredMember.text).Nodup := by
    rw [List.map_append, List.nodup_append, List.map_map]
    refine ⟨SortedSet.distinct _, fresh.distinct.sublist (List.filter_sublist.map _), ?_⟩
    intro text htext text' htext'
    obtain ⟨a, ha, rfl⟩ := List.mem_map.mp htext
    obtain ⟨m', hm', rfl⟩ := List.mem_map.mp htext'
    exact fresh.new m' (List.mem_filter.mp hm').1 _ a ha
  obtain ⟨hcard, habove⟩ := (SortedSet.pushed_eq_self_iff
    (fun hnil => List.ne_nil_of_mem hown (List.map_eq_nil_iff.mp hnil)) hdistinct).mp hpushed
  exact (push_eq_self_iff (fresh.new m List.mem_cons_self) _).mpr
    ⟨hcard, habove _ (List.mem_map_of_mem hown)⟩

private theorem Fresh.of_windows {rest : List RawMessage} (fresh : Fresh P st (m :: rest))
    (hwindows : st'.windows = st.windows) : Fresh P st' rest where
  new m' hm' := by
    rw [RawMessage.New, hwindows]
    exact fresh.new m' (List.mem_cons_of_mem _ hm')
  distinct := (List.nodup_cons.mp fresh.distinct).2

/-- Ingestions that leave the windows and the records as they were are ignored from the first one on. -/
theorem ignores_of_same_end {rest : List RawMessage} (known : Known st (m :: rest))
    (fresh : Fresh P st (m :: rest)) (hwindows : ((m :: rest).foldl (ingestOne P) st).windows = st.windows)
    (hrecords : ((m :: rest).foldl (ingestOne P) st).committed.records = st.committed.records) :
    P.Ignores (st.opened m) m := by
  obtain ⟨hfirst, hrest⟩ := List.forall_mem_cons.mp known
  obtain ⟨hafter, hsources, rows, hrows⟩ := ingestOne_after P st hfirst
  obtain ⟨rows', hrows'⟩ := ingest_records P (Known.of_sources hrest hsources)
  have hpush := push_of_same_windows known fresh hwindows
  rw [hpush, Function.update_eq_self] at hafter
  rw [List.foldl_cons, hrows', hrows, List.append_assoc, List.append_right_eq_self,
    List.append_eq_nil_iff] at hrecords
  refine ignores_of_same hfirst (fresh.new m List.mem_cons_self) hafter ?_
  rw [hrows, hrecords.1, List.append_nil]

private theorem Alike.ignores_iff (h : Alike st st') (m : RawMessage) :
    P.Ignores (st.opened m) m ↔ P.Ignores (st'.opened m) m := by
  have hopened := h.opened m
  have hsources : (st.opened m).session.sources = (st'.opened m).session.sources := h.sources
  obtain ⟨hsource, hkey⟩ := windowKey_congr hsources m.toArrival
  simp only [Platform.Ignores, Platform.scored, Stores.getSlidingWindow, Stores.checkCooldown, hsource, hkey,
    hopened.windows, hopened.cooldowns]

private theorem Alike.trans {st'' : Stores} (h : Alike st st') (h' : Alike st' st'') : Alike st st'' where
  windows := h.windows.trans h'.windows
  records := h.records.trans h'.records
  cooldowns := h.cooldowns.trans h'.cooldowns
  rules := h.rules.trans h'.rules
  sources := h.sources.trans h'.sources

/-- From stores that are alike, the two paths agree as long as all messages are ignored. -/
theorem agrees_iff_of_alike (h : Alike st st') (carries : ∀ m ∈ messages, m.Carries L)
    (known : Known st' messages) (fresh : Fresh P st' messages) :
    SameEffect (messages.foldl (consumeOne consumerNames L P) st) (messages.foldl (ingestOne P) st') ↔
      P.IgnoresAll st messages := by
  induction messages generalizing st st' with
  | nil => exact iff_of_true h.toSameEffect trivial
  | cons m rest ih =>
    obtain ⟨hfirst, hrest⟩ := List.forall_mem_cons.mp carries
    by_cases hignores : P.Ignores (st'.opened m) m
    · have hquiet : Alike (st'.opened m) (ingestOne P st' m) :=
        alike_of_ignores (known m List.mem_cons_self) (fresh.new m List.mem_cons_self) hignores
      have hnext := ih ((h.opened m).trans hquiet) hrest
        (Known.of_sources (fun m' hm' => known m' (List.mem_cons_of_mem _ hm')) hquiet.sources.symm)
        (fresh.of_windows hquiet.windows.symm)
      rw [List.foldl_cons, List.foldl_cons, consumeOne_eq hfirst, hnext]
      exact (and_iff_right ((h.ignores_iff m).mpr hignores)).symm
    · refine iff_of_false (fun heffect => hignores ?_) (fun hall => hignores ((h.ignores_iff m).mp hall.1))
      obtain ⟨hwindows, hcommitted⟩ := consume_same (P := P) carries st
      refine ignores_of_same_end known fresh ?_ ?_
      · rw [← heffect.windows, hwindows, h.windows]
      · rw [← heffect.records, hcommitted, h.records]

/-- The consumer does what the ingestion over HTTP does for a sequence of messages exactly when each of them
is one that an ingestion would ignore. -/
theorem consumer_agrees_iff (L : Parsing) (P : Platform) (st : Stores) {messages : List RawMessage}
    (carries : ∀ m ∈ messages, m.Carries L) (known : Known st messages) (fresh : Fresh P st messages) :
    SameEffect (messages.foldl (consumeOne consumerNames L P) st) (messages.foldl (ingestOne P) st) ↔
      P.IgnoresAll st messages :=
  agrees_iff_of_alike ⟨⟨rfl, rfl, rfl⟩, rfl, rfl⟩ carries known fresh

private def pythonParsing : Parsing where
  str
    | .str s => s
    | _ => ""
  float
    | .float f => .ok f
    | _ => .error (.valueError "could not convert string to float")
  fromisoformat _ := .ok 50

private def rawLatency : RawMessage where
  sourceName := "api"
  metricName := "latency"
  value := .finite 9
  timestamp := some 50
  now := 100
  sourceId := "unused"
  pointId := "p"
  memberId := "m"
  recordId _ := "r"
  payload := [(.str "source_name", .str "api"), (.str "metric_name", .str "latency"),
    (.str "value", .float (.finite 9)), (.str "timestamp", .str "1970-01-01T00:00:50+00:00")]

private theorem rawLatency_carries : rawLatency.Carries pythonParsing where
  sourceName := by decide +kernel
  metricName := by decide +kernel
  named := by decide +kernel
  value := by decide +kernel
  timestamped := by decide +kernel
  timestamp := rfl

private def oneWindow (size : Int) : Platform where
  detectionWindowSize := size
  reprFloat _ := "0.0"
  detectors := []

private def apiStores : Stores where
  committed := ⟨[{ id := "s", name := "api" }], [], []⟩
  session := ⟨[{ id := "s", name := "api" }], [], []⟩
  rules := []
  windows _ := SortedSet.empty.zadd ⟨100, "a", ⟨.finite 1, "q"⟩⟩
  cooldowns _ := none

private theorem rawLatency_fresh (size : Int) : Fresh (oneWindow size) apiStores [rawLatency] where
  new m hm key := by
    have hnew : ∀ a ∈ (SortedSet.empty.zadd ⟨100, "a", ⟨.finite 1, "q"⟩⟩ : SlidingWindow).members,
        a.text ≠ (rawLatency.member (oneWindow 0)).text := by decide +kernel
    rw [List.mem_singleton.mp hm]
    exact hnew
  distinct := by simp

/-- The message comes too late for a window that is full. -/
theorem consumer_agrees_iff_late :
    SameEffect ([rawLatency].foldl (consumeOne consumerNames pythonParsing (oneWindow 1)) apiStores)
      ([rawLatency].foldl (ingestOne (oneWindow 1)) apiStores) := by
  refine (consumer_agrees_iff pythonParsing (oneWindow 1) apiStores
    (List.forall_mem_singleton.mpr rawLatency_carries) (List.forall_mem_singleton.mpr (by decide +kernel))
    (rawLatency_fresh 1)).mpr ⟨⟨by decide +kernel, by decide +kernel, ?_⟩, trivial⟩
  intro values current _ det hdet
  cases hdet

/-- The window has room, but the consumer adds nothing to it. -/
theorem consumer_drops_a_metric : rawLatency.Carries pythonParsing ∧ Known apiStores [rawLatency] ∧
    ¬ SameEffect ([rawLatency].foldl (consumeOne consumerNames pythonParsing (oneWindow 100)) apiStores)
      ([rawLatency].foldl (ingestOne (oneWindow 100)) apiStores) := by
  refine ⟨rawLatency_carries, List.forall_mem_singleton.mpr (by decide +kernel), fun h => ?_⟩
  have hconsumed : (([rawLatency].foldl (consumeOne consumerNames pythonParsing (oneWindow 100))
      apiStores).windows "sw:s:latency").zcard = 1 := by decide +kernel
  have hingested : (([rawLatency].foldl (ingestOne (oneWindow 100)) apiStores).windows
      "sw:s:latency").zcard = 2 := by decide +kernel
  rw [h.windows, hingested] at hconsumed
  cases hconsumed

/-! ### The handler with its names -/

/-- Writes go to the keys that they name. -/
theorem after_cooldowns_congr (h : st.cooldowns = st'.cooldowns) (ws : List Write) :
    (st.after ws).cooldowns = (st'.after ws).cooldowns := by
  induction ws generalizing st st' with
  | nil => exact h
  | cons w ws ih =>
    rw [Stores.after_cons, Stores.after_cons]
    refine ih ?_
    cases w with
    | armCooldown key record => exact congrArg (Function.update · key (some record)) h
    | _ => exact h

private theorem after_rules (st : Stores) (ws : List Write) : (st.after ws).rules = st.rules := by
  induction ws generalizing st with
  | nil => rfl
  | cons w ws ih =>
    rw [Stores.after_cons, ih]
    cases w <;> rfl

/-- Parts that look at nothing but cooldown keys write the same for the same keys. -/
theorem sequentially_congr {α : Type} (part : Stores → α → List Write)
    (hpart : ∀ st st' : Stores, st.cooldowns = st'.cooldowns → ∀ a, part st a = part st' a) (as : List α)
    (h : st.cooldowns = st'.cooldowns) : sequentially part st as = sequentially part st' as := by
  induction as generalizing st st' with
  | nil => rfl
  | cons a as ih => rw [sequentially, sequentially, hpart st st' h a, ih (after_cooldowns_congr h _)]

private theorem checkCooldown_congr (h : st.cooldowns = st'.cooldowns) : st.checkCooldown = st'.checkCooldown := by
  funext key
  rw [Stores.checkCooldown, Stores.checkCooldown, h]

private theorem armRule_congr (source : MetricSource) (metricName : String) (det : DetectionResult)
    (h : st.cooldowns = st'.cooldowns) (rule : AlertRule) :
    armRule source metricName det st rule = armRule source metricName det st' rule := by
  unfold armRule
  rw [checkCooldown_congr h]

private theorem recordAnomaly_congr (source : MetricSource) (metricName : String) (recordId : String → RecordId)
    (rules : List AlertRule) (h : st.cooldowns = st'.cooldowns) (det : DetectionResult) :
    recordAnomaly source metricName recordId rules st det =
      recordAnomaly source metricName recordId rules st' det := by
  have hrules (ws : List Write) := sequentially_congr (armRule source metricName det)
    (fun _ _ h => armRule_congr source metricName det h) rules (after_cooldowns_congr h ws)
  unfold recordAnomaly
  dsimp only
  rw [checkCooldown_congr h, hrules]

private theorem runDetection_congr (hsources : st.session.sources = st'.session.sources)
    (hrules : st.rules = st'.rules) (hwindows : st.windows = st'.windows)
    (hcooldowns : st.cooldowns = st'.cooldowns)
    (sourceName metricName : String) (value : PyFloat) (recordId : String → RecordId) :
    P.runDetection st sourceName metricName value recordId =
      P.runDetection st' sourceName metricName value recordId := by
  have hsource : st.source sourceName = st'.source sourceName := by
    rw [Stores.source, Stores.source, hsources]
  have hscored (source : MetricSource) : P.scored st source metricName = P.scored st' source metricName := by
    rw [Platform.scored, Platform.scored, Stores.getSlidingWindow, Stores.getSlidingWindow, hwindows]
  simp only [Platform.runDetection, hsource, hscored, hrules]
  split
  · rfl
  · split
    · rfl
    · exact sequentially_congr _ (fun _ _ h => recordAnomaly_congr _ _ _ _ h) _ hcooldowns

/-- A handler whose module binds the names does what the ingestion over HTTP does, but for the data point. -/
theorem handle_of_named {names : List String} (hnames : "select" ∈ names ∧ "MetricSource" ∈ names)
    (carries : m.Carries L) {source : MetricSource} (hsource : st.source m.sourceName = some source) :
    handle names L P st m = (P.addToSlidingWindow (m.windowKey st) (m.member P) ++
      P.runDetection (st.after (P.addToSlidingWindow (m.windowKey st) (m.member P))) m.sourceName m.metricName
        m.value m.recordId, none) := by
  have hbound : ["select", "MetricSource"].find? (fun name => name ∉ names) = none := by
    simp [hnames.1, hnames.2]
  have hnamed : ¬ (m.sourceName = "" ∨ m.metricName = "") := not_or.mpr carries.named
  have hkey : m.windowKey st = slidingWindowKey source.id m.metricName := by
    rw [Arrival.windowKey, Arrival.source, hsource, Option.getD_some]
  rw [handle, carries.value, carries.sourceName, carries.metricName]
  dsimp only
  rw [if_neg hnamed, hbound, hsource]
  dsimp only
  rw [if_pos carries.timestamped, carries.timestamp, hkey]
  rfl

/-- The stores of the handler and of the ingestion before they run the detection. -/
theorem stored_alike (h : Alike st st') (known : ((st'.opened m).source m.sourceName).isSome = true) :
    let added := (st.opened m).after (P.addToSlidingWindow (m.windowKey (st.opened m)) (m.member P))
    let stored := (st'.opened m).after (P.storeMetric (st'.opened m) m.toArrival)
    added.windows = stored.windows ∧ added.cooldowns = stored.cooldowns ∧
      added.session.sources = stored.session.sources ∧ added.session.records = stored.session.records := by
  have hopened := h.opened m
  obtain ⟨hnone, hcooldowns, -, hsources⟩ := storeMetric_known (P := P) known
  obtain ⟨-, hwindows⟩ := storeMetric_after P (st'.opened m) m.toArrival
  have hopenedSources : (st.opened m).session.sources = (st'.opened m).session.sources := h.sources
  have hkey := (windowKey_congr hopenedSources m.toArrival).2
  refine ⟨?_, ?_, ?_, ?_⟩
  · rw [hwindows, ← hkey, ← hopened.windows]
    simp [Platform.addToSlidingWindow, Stores.apply, SortedSet.push]
  · rw [hcooldowns, ← hopened.cooldowns]
    rfl
  · rw [hsources]
    exact h.sources
  · rw [after_records (st'.opened m), hnone, List.append_nil]
    exact h.records

private theorem consumeOne_alike {names : List String} (hnames : "select" ∈ names ∧ "MetricSource" ∈ names)
    (h : Alike st st') (carries : m.Carries L) (known : ((st'.opened m).source m.sourceName).isSome = true) :
    Alike (consumeOne names L P st m) (ingestOne P st' m) := by
  obtain ⟨hwindows, hcooldowns, hsources, hrecords⟩ := stored_alike (P := P) h known
  have hsource : (st.opened m).source m.sourceName = (st'.opened m).source m.sourceName := by
    change st.committed.sources.find? _ = st'.committed.sources.find? _
    rw [h.sources]
  obtain ⟨source, hfound⟩ := Option.isSome_iff_exists.mp known
  have hrules : ((st.opened m).after (P.addToSlidingWindow (m.windowKey (st.opened m)) (m.member P))).rules =
      ((st'.opened m).after (P.storeMetric (st'.opened m) m.toArrival)).rules := by
    rw [after_rules, after_rules]
    exact h.rules
  have hrun := runDetection_congr (P := P) hsources hrules hwindows hcooldowns m.sourceName m.metricName
    m.value m.recordId
  rw [consumeOne, handle_of_named hnames carries (hsource.trans hfound)]
  dsimp only
  rw [hrun, ingestOne, Platform.ingestMetric, Stores.after_append, Stores.after_append]
  have hdetects := runDetection_detects P ((st'.opened m).after (P.storeMetric (st'.opened m) m.toArrival))
    m.sourceName m.metricName m.value m.recordId
  obtain ⟨hw, hs⟩ := after_detects ((st.opened m).after
    (P.addToSlidingWindow (m.windowKey (st.opened m)) (m.member P))) hdetects
  obtain ⟨hw', hs'⟩ :=
    after_detects ((st'.opened m).after (P.storeMetric (st'.opened m) m.toArrival)) hdetects
  refine ⟨⟨?_, ?_, ?_⟩, ?_, ?_⟩
  · exact hw.trans (hwindows.trans hw'.symm)
  · exact (after_records _ _).trans ((congrArg (· ++ _) hrecords).trans (after_records _ _).symm)
  · exact after_cooldowns_congr hcooldowns _
  · exact (after_rules _ _).trans (hrules.trans (after_rules _ _).symm)
  · exact hs.trans (hsources.trans hs'.symm)

/-- The two paths agree on all sequences of messages if the module of the consumer binds the names. -/
theorem named_consumer_agrees {names : List String} (hnames : "select" ∈ names ∧ "MetricSource" ∈ names)
    (h : Alike st st') (carries : ∀ m ∈ messages, m.Carries L) (known : Known st' messages) :
    Alike (messages.foldl (consumeOne names L P) st) (messages.foldl (ingestOne P) st') := by
  induction messages generalizing st st' with
  | nil => exact h
  | cons m rest ih =>
    obtain ⟨hfirst, hrest⟩ := List.forall_mem_cons.mp carries
    obtain ⟨hknown, hknowns⟩ := List.forall_mem_cons.mp known
    obtain ⟨-, hsources, -⟩ := ingestOne_after P st' hknown
    exact ih (consumeOne_alike hnames h hfirst hknown) hrest (Known.of_sources hknowns hsources)

end BackendProjects.Anomaly
