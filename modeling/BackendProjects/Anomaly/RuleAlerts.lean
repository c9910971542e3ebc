import BackendProjects.Anomaly.Ingest
import BackendProjects.Workflow.JsonValues

/-! The rules that an anomaly goes to: their cooldown keys in Redis, their notifications in Postgres, and when
one of these writes is refused and the ingestion raises. -/
namespace BackendProjects.Anomaly
open Library Workflow

/-- A rule with its channels; an update may have set them to null. -/
structure RuleRow extends AlertRule where
  notificationChannels : Option (List PyDict) := some []

/-- What the columns of `alert_rules` take: a row that `create_rule` or `update_rule` has written. -/
structure RuleRow.Accepted (rule : RuleRow) : Prop where
  metricName : ∀ name, rule.metricName = some name → name.length ≤ 255
  detectorType : rule.detectorType.length ≤ 64
  severityThreshold : rule.severityThreshold.length ≤ 32
  cooldownSeconds : -2 ^ 31 ≤ rule.cooldownSeconds ∧ rule.cooldownSeconds < 2 ^ 31
  channels : ∀ channels, rule.notificationChannels = some channels → ∀ ch ∈ channels,
    (PyValue.dict ch).Encodable

/-- What a notification needs from outside: `str` and `lower` of Python, how `json.dumps` writes a float,
the clock, and the error of a POST, if there is one. -/
structure AlertEnv where
  str : PyValue → String
  lower : String → String
  reprFloat : Rat → String
  now : Timestamp
  post : PyValue → PyDict → Option String

structure AlertNotification where
  anomalyId : RecordId
  channel : String
  payload : PyDict
  status : String
  error : Option String := none
  sentAt : Option Timestamp := none

/-- The columns of `alert_notifications`: a `varchar(32)` and a JSON document. -/
def AlertNotification.fits (reprFloat : Rat → String) (row : AlertNotification) : Bool :=
  row.channel.length ≤ 32 && (PyValue.dumps reprFloat (.dict row.payload)).isSome

inductive RuleError where
  | invalidExpireTime (key : String)
  | refused (row : AlertNotification)
  | notIterable

structure AlertSession where
  cooling : String → Bool
  pending : List AlertNotification := []
  stored : List AlertNotification := []

namespace AlertSession
variable (st : AlertSession)

def armed (key : String) : AlertSession := { st with cooling := Function.update st.cooling key true }

/-- SETEX refuses a time to live that is not positive. -/
def armCooldown (key : String) (ttlSeconds : Int) : Except RuleError AlertSession :=
  if ttlSeconds ≤ 0 then .error (.invalidExpireTime key) else .ok (st.armed key)

def add (row : AlertNotification) : AlertSession := { st with pending := st.pending ++ [row] }

def flush (E : AlertEnv) : Except RuleError AlertSession :=
  match st.pending.find? (fun row => !row.fits E.reprFloat) with
  | some row => .error (.refused row)
  | none => .ok { st with pending := [], stored := st.stored ++ st.pending }

/-- The row that was flushed last gets the outcome of its POST. -/
def answered (row : AlertNotification) (now : Timestamp) : Option String → AlertSession
  | none => { st with stored := st.stored.dropLast ++ [{ row with status := "sent", sentAt := some now }] }
  | some error =>
    { st with stored := st.stored.dropLast ++ [{ row with status := "failed", error := some error }] }

end AlertSession

def basePayload (anomaly : AnomalyRecord) : PyDict := [
  (.str "anomaly_id", .str anomaly.id), (.str "source_id", .str anomaly.sourceId),
  (.str "metric_name", .str anomaly.metricName), (.str "detector_type", .str anomaly.detectorType),
  (.str "severity", .str anomaly.severity), (.str "score", .float anomaly.score),
  (.str "actual_value", .float anomaly.actualValue),
  (.str "expected_value", (anomaly.expectedValue).elim .none .float)]

namespace AlertEnv
variable (E : AlertEnv)

def channelType (ch : PyDict) : String :=
  E.lower (E.str ((ch.get? (.str "type")).getD ((ch.get? (.str "channel")).getD (.str ""))))

def sendChannel (anomaly : AnomalyRecord) (st : AlertSession) (ch : PyDict) : Except RuleError AlertSession :=
  let base := basePayload anomaly
  let get (key : String) : PyValue := (ch.get? (.str key)).getD .none
  match E.channelType ch with
  | "webhook" =>
    let url := get "url"
    let row : AlertNotification := {
      anomalyId := anomaly.id
      channel := "webhook"
      payload := base.set (.str "target") url
      status := "pending" }
    if url.truthy then do
      let st ← (st.add row).flush E
      return st.answered row E.now (E.post url base)
    else .ok st
  | "email" => .ok (st.add {
      anomalyId := anomaly.id
      channel := "email"
      payload := base.set (.str "to") (get "to")
      status := "sent" })
  | "slack" => .ok (st.add {
      anomalyId := anomaly.id
      channel := "slack"
      payload := base.set (.str "channel") (get "channel_id")
      status := "sent" })
  | ctype => .ok (st.add {
      anomalyId := anomaly.id
      channel := if ctype = "" then "unknown" else ctype
      payload := base
      status := "failed"
      error := some "unsupported channel" })

def sendNotification (anomaly : AnomalyRecord) (channels : Option (List PyDict)) (st : AlertSession) :
    Except RuleError AlertSession :=
  match channels with
  | none => .error .notIterable
  | some channels => channels.foldlM (E.sendChannel anomaly) st

end AlertEnv

def AlertRule.concerns (rule : AlertRule) (source : MetricSource) (metricName : String)
    (det : DetectionResult) : Bool :=
  rule.sourceId.all (· = source.id) ∧ rule.metricName.all (· = metricName) ∧
    rule.detectorType = det.detectorName ∧ severityMeetsThreshold det.severity rule.severityThreshold

def matchRule (source : MetricSource) (metricName : String) (det : DetectionResult)
    (acc : AlertSession × List RuleRow) (rule : RuleRow) : Except RuleError (AlertSession × List RuleRow) :=
  let key := ruleCooldownKey rule.id source.id metricName
  if rule.concerns source metricName det ∧ ¬ acc.1.cooling key then do
    let st ← acc.1.armCooldown key rule.cooldownSeconds
    return (st, acc.2 ++ [rule])
  else .ok acc

/-- What `run_detection` does for the rules once an anomaly is recorded, and the flush or commit after it. -/
def AlertEnv.rulePart (E : AlertEnv) (source : MetricSource) (metricName : String) (det : DetectionResult)
    (id : RecordId) (rules : List RuleRow) (cooling : String → Bool) : Except RuleError AlertSession := do
  let anomaly := det.record source.id metricName id
  let (st, matched) ← (rules.filter (fun rule => rule.enabled)).foldlM (matchRule source metricName det)
    ({ cooling := cooling }, [])
  let st ← matched.foldlM (fun st rule => E.sendNotification anomaly rule.notificationChannels st) st
  st.flush E

/-! ### What is refused -/

def DetectionResult.Finite (det : DetectionResult) : Prop :=
  (PyValue.float det.score).Encodable ∧ (PyValue.float det.actualValue).Encodable ∧
    ∀ value, det.expectedValue = some value → (PyValue.float value).Encodable

/-- A notification is written for a channel: for a webhook, only if it has a URL. -/
def AlertEnv.Writes (E : AlertEnv) (ch : PyDict) : Prop :=
  E.channelType ch = "webhook" → ((ch.get? (.str "url")).getD .none).truthy = true

/-- The name of a channel goes into the row if it is none of the supported ones. -/
def AlertEnv.ShortName (E : AlertEnv) (ch : PyDict) : Prop :=
  E.channelType ch ∈ ["webhook", "email", "slack"] ∨ (E.channelType ch).length ≤ 32

/-- A rule whose cooldown key and notifications are not refused. -/
structure RuleRow.Harmless (rule : RuleRow) (E : AlertEnv) (det : DetectionResult) : Prop where
  cooldown : 0 < rule.cooldownSeconds
  channels : ∃ channels, rule.notificationChannels = some channels ∧
    ∀ ch ∈ channels, E.Writes ch → det.Finite ∧ E.ShortName ch

/-- The matching of rules and `armRule` are about the same rules. -/
theorem armRule_eq (source : MetricSource) (metricName : String) (det : DetectionResult) (st : Stores)
    (rule : AlertRule) : armRule source metricName det st rule =
      if rule.concerns source metricName det ∧
          ¬ st.checkCooldown (ruleCooldownKey rule.id source.id metricName)
      then [.armCooldown (ruleCooldownKey rule.id source.id metricName) none] else [] := by
  simp only [armRule, AlertRule.concerns, decide_eq_true_eq, and_assoc]

private theorem encodable_dict (d : PyDict) :
    (PyValue.dict d).Encodable ↔ ∀ e ∈ d, e.1.IsKey ∧ e.2.Encodable := by
  constructor
  · intro h
    cases h with
    | dict keys values => exact fun e he => ⟨keys e he, values e he⟩
  · exact fun h => .dict (fun e he => (h e he).1) (fun e he => (h e he).2)

private theorem encodable_get {d : PyDict} (h : (PyValue.dict d).Encodable) (key : PyValue) :
    ((d.get? key).getD .none).Encodable := by
  rw [PyDict.get?]
  cases hfind : d.find? (fun e => e.1 = key) with
  | none => exact .none
  | some e => exact ((encodable_dict d).mp h e (List.mem_of_find?_eq_some hfind)).2

section
variable (det : DetectionResult) (source : MetricSource) (metricName : String) (id : RecordId)

private theorem encodable_basePayload :
    (PyValue.dict (basePayload (det.record source.id metricName id))).Encodable ↔ det.Finite := by
  rw [encodable_dict]
  cases hexpected : det.expectedValue with
  | none =>
    simp [basePayload, DetectionResult.record, PyValue.IsKey, DetectionResult.Finite, hexpected,
      PyValue.Encodable.none, PyValue.Encodable.str]
  | some value =>
    simp [basePayload, DetectionResult.record, PyValue.IsKey, DetectionResult.Finite, hexpected,
      PyValue.Encodable.str]

/-- A key that a payload does not have yet is written at its end. -/
theorem encodable_set {d : PyDict} {key value : PyValue} (hnew : ∀ e ∈ d, e.1 ≠ key) (hkey : key.IsKey)
    (hvalue : value.Encodable) : (PyValue.dict (d.set key value)).Encodable ↔ (PyValue.dict d).Encodable := by
  have hset : d.set key value = d ++ [(key, value)] := by
    induction d with
    | nil => rfl
    | cons e rest ih =>
      obtain ⟨hne, hrest⟩ := List.forall_mem_cons.mp hnew
      rw [PyDict.set, if_neg hne, ih hrest, List.cons_append]
  rw [encodable_dict, encodable_dict, hset, List.forall_mem_append]
  exact and_iff_left (List.forall_mem_singleton.mpr ⟨hkey, hvalue⟩)

private theorem basePayload_keys {key : String} (h : key ∈ ["target", "to", "channel"]) (anomaly : AnomalyRecord) :
    ∀ e ∈ basePayload anomaly, e.1 ≠ .str key := by
  simp only [List.mem_cons, List.not_mem_nil, or_false] at h
  rcases h with rfl | rfl | rfl <;> simp [basePayload]

end

/-- A loop comes to a good end if it begins well and every step is a good one. -/
theorem foldlM_ok_iff {α σ ε : Type} {f : σ → α → Except ε σ} {good : σ → Prop} {harmless : α → Prop}
    (as : List α) (step : ∀ s, ∀ a ∈ as, (∃ s', f s a = .ok s' ∧ good s') ↔ good s ∧ harmless a) (s : σ) :
    (∃ s', as.foldlM f s = .ok s' ∧ good s') ↔ good s ∧ ∀ a ∈ as, harmless a := by
  induction as generalizing s with
  | nil => simp [List.foldlM_nil, pure, Except.pure]
  | cons a as ih =>
    obtain ⟨hstep, hrest⟩ := List.forall_mem_cons.mp (fun b hb s => step s b hb)
    have ih' := ih (fun s b hb => hrest b hb s)
    rw [List.forall_mem_cons, ← and_assoc, ← hstep s]
    constructor
    · rintro ⟨s', hs', hgood⟩
      cases hfirst : f s a with
      | error e =>
        rw [List.foldlM_cons, hfirst] at hs'
        cases hs'
      | ok next =>
        rw [List.foldlM_cons, hfirst] at hs'
        obtain ⟨hnext, hall⟩ := (ih' next).mp ⟨s', hs', hgood⟩
        exact ⟨⟨next, rfl, hnext⟩, hall⟩
    · rintro ⟨⟨next, hfirst, hnext⟩, hall⟩
      rw [List.foldlM_cons, hfirst]
      exact (ih' next).mpr ⟨hnext, hall⟩

/-! ### Notifications -/

private theorem AlertNotification.fits_iff (r : Rat → String) (row : AlertNotification) :
    row.fits r = true ↔ row.channel.length ≤ 32 ∧ (PyValue.dict row.payload).Encodable := by
  rw [fits, Bool.and_eq_true, decide_eq_true_eq, PyValue.dumps_isSome]

namespace AlertSession
variable {E : AlertEnv} {st : AlertSession}

def Clean (E : AlertEnv) (st : AlertSession) : Prop := ∀ row ∈ st.pending, row.fits E.reprFloat = true

private theorem clean_add (row : AlertNotification) :
    (st.add row).Clean E ↔ st.Clean E ∧ row.fits E.reprFloat = true := by
  rw [Clean, add, List.forall_mem_append, List.forall_mem_singleton]
  rfl

private theorem flush_of_clean (h : st.Clean E) :
    st.flush E = .ok { st with pending := [], stored := st.stored ++ st.pending } := by
  have hnone : st.pending.find? (fun row => !row.fits E.reprFloat) = none := by
    rw [List.find?_eq_none]
    intro row hrow
    simp [h row hrow]
  rw [flush, hnone]

private theorem clean_of_flush {st' : AlertSession} (h : st.flush E = .ok st') :
    st.Clean E ∧ st'.pending = [] := by
  unfold flush at h
  split at h
  · cases h
  · next hnone =>
    cases h
    refine ⟨fun row hrow => ?_, rfl⟩
    simpa using List.find?_eq_none.mp hnone row hrow

/-- What is flushed at the end must be clean. -/
theorem flushed_ok_iff (x : Except RuleError AlertSession) :
    (∃ st', (x >>= fun st => st.flush E) = .ok st') ↔ ∃ st', x = .ok st' ∧ st'.Clean E := by
  cases x with
  | error e => simp [bind, Except.bind]
  | ok st =>
    constructor
    · rintro ⟨st', hflush⟩
      exact ⟨st, rfl, (clean_of_flush hflush).1⟩
    · rintro ⟨st', hst, hclean⟩
      cases hst
      exact ⟨_, flush_of_clean hclean⟩

private theorem ok_add_iff (row : AlertNotification) :
    (∃ st', (Except.ok (st.add row) : Except RuleError AlertSession) = .ok st' ∧ st'.Clean E) ↔
      st.Clean E ∧ row.fits E.reprFloat = true := by
  simp only [Except.ok.injEq, exists_eq_left', clean_add]

private theorem clean_answered (h : st.pending = []) (row : AlertNotification) (now : Timestamp)
    (error : Option String) : (st.answered row now error).Clean E := by
  intro row' hrow'
  have hpending : (st.answered row now error).pending = st.pending := by cases error <;> rfl
  rw [hpending, h] at hrow'
  cases hrow'

/-- A row that is flushed at once is refused then or not at all, and so are those before it. -/
theorem flush_add_ok_iff (row : AlertNotification) (now : Timestamp) (error : Option String) :
    (∃ st', (do let flushed ← (st.add row).flush E
                return flushed.answered row now error) = .ok st' ∧ st'.Clean E) ↔
      st.Clean E ∧ row.fits E.reprFloat = true := by
  rw [← clean_add]
  constructor
  · rintro ⟨st', hst', -⟩
    cases hflush : (st.add row).flush E with
    | error e =>
      rw [hflush] at hst'
      cases hst'
    | ok flushed => exact (clean_of_flush hflush).1
  · intro h
    rw [flush_of_clean h]
    exact ⟨_, rfl, clean_answered rfl _ _ _⟩

end AlertSession

section
variable {E : AlertEnv} (det : DetectionResult) (source : MetricSource) (metricName : String) (id : RecordId)

/-- The row of a supported channel is refused only for the floats of the anomaly. -/
theorem supported_fits_iff {ch : PyDict} (hch : (PyValue.dict ch).Encodable) {row : AlertNotification}
    (hname : row.channel ∈ ["webhook", "email", "slack"]) (key : String)
    (hkey : key ∈ ["target", "to", "channel"]) (field : PyValue)
    (hrow : row.payload = (basePayload (det.record source.id metricName id)).set (.str key)
      ((ch.get? field).getD .none)) : row.fits E.reprFloat = true ↔ det.Finite := by
  have hlength : ∀ name ∈ ["webhook", "email", "slack"], name.length ≤ 32 := by decide
  rw [AlertNotification.fits_iff, hrow,
    encodable_set (basePayload_keys hkey _) trivial (encodable_get hch _), encodable_basePayload]
  exact and_iff_right (hlength _ hname)

/-- A channel is gone through, and leaves nothing to be refused, if its own notification is not refused. -/
theorem sendChannel_ok_iff (st : AlertSession) {ch : PyDict} (hch : (PyValue.dict ch).Encodable) :
    (∃ st', E.sendChannel (det.record source.id metricName id) st ch = .ok st' ∧ st'.Clean E) ↔
      st.Clean E ∧ (E.Writes ch → det.Finite ∧ E.ShortName ch) := by
  have hsupported {type : String} (htype : E.channelType ch = type)
      (hmem : type ∈ ["webhook", "email", "slack"]) (hwrite : E.Writes ch) :
      (E.Writes ch → det.Finite ∧ E.ShortName ch) ↔ det.Finite :=
    ⟨fun h => (h hwrite).1, fun h _ => ⟨h, Or.inl (htype ▸ hmem)⟩⟩
  have hwrites (hne : E.channelType ch ≠ "webhook") : E.Writes ch := fun h => absurd h hne
  unfold AlertEnv.sendChannel
  dsimp only
  split
  · next htype =>
    split
    · next hurl =>
      rw [AlertSession.flush_add_ok_iff,
        supported_fits_iff det source metricName id hch (by simp) "target" (by simp) (.str "url") rfl,
        hsupported htype (by simp) (fun _ => hurl)]
    · next hurl =>
      have hsilent : ¬ E.Writes ch := fun h => hurl (h htype)
      simp [hsilent]
  · next htype =>
    rw [AlertSession.ok_add_iff,
      supported_fits_iff det source metricName id hch (by simp) "to" (by simp) (.str "to") rfl,
      hsupported htype (by simp) (hwrites (by simp [htype]))]
  · next htype =>
    rw [AlertSession.ok_add_iff,
      supported_fits_iff det source metricName id hch (by simp) "channel" (by simp) (.str "channel_id") rfl,
      hsupported htype (by simp) (hwrites (by simp [htype]))]
  · next hwebhook hemail hslack =>
    have hname : (if E.channelType ch = "" then "unknown" else E.channelType ch).length ≤ 32 ↔
        E.ShortName ch := by
      have hother : E.channelType ch ∉ ["webhook", "email", "slack"] := by
        simp only [List.mem_cons, List.not_mem_nil, or_false, not_or]
        exact ⟨hwebhook, hemail, hslack⟩
      split
      · next hempty => exact iff_of_true (by decide) (Or.inr (by simp [hempty]))
      · exact (or_iff_right hother).symm
    rw [AlertSession.ok_add_iff, AlertNotification.fits_iff, hname, encodable_basePayload]
    exact and_congr_right' ⟨fun h _ => h.symm, fun h => (h (hwrites hwebhook)).symm⟩

private theorem sendNotification_ok_iff (st : AlertSession) {rule : RuleRow} (accepted : rule.Accepted) :
    (∃ st', E.sendNotification (det.record source.id metricName id) rule.notificationChannels st = .ok st' ∧
      st'.Clean E) ↔ st.Clean E ∧ ∃ channels, rule.notificationChannels = some channels ∧
        ∀ ch ∈ channels, E.Writes ch → det.Finite ∧ E.ShortName ch := by
  cases hchannels : rule.notificationChannels with
  | none => simp [AlertEnv.sendNotification]
  | some channels =>
    have hstep (st : AlertSession) (ch : PyDict) (hch : ch ∈ channels) :=
      sendChannel_ok_iff (E := E) det source metricName id st (accepted.channels channels hchannels ch hch)
    simpa [AlertEnv.sendNotification] using foldlM_ok_iff channels hstep st

end

/-! ### Matching -/

private theorem ruleCooldownKey_injective {ruleId ruleId' : String} {sourceId : SourceId} {metricName : String}
    (h : ruleCooldownKey ruleId sourceId metricName = ruleCooldownKey ruleId' sourceId metricName) :
    ruleId = ruleId' := by
  simpa [ruleCooldownKey, String.append_assoc] using h

section
variable (source : MetricSource) (metricName : String) (det : DetectionResult)

def RuleRow.due (cooling : String → Bool) (rule : RuleRow) : Bool :=
  rule.concerns source metricName det ∧ ¬ cooling (ruleCooldownKey rule.id source.id metricName)

variable {source metricName det}

/-- A step of the matching: a rule that is due is armed, which may be refused. -/
theorem matchRule_eq (acc : AlertSession × List RuleRow) (rule : RuleRow) :
    matchRule source metricName det acc rule =
      let key := ruleCooldownKey rule.id source.id metricName
      if rule.due source metricName det acc.1.cooling then
        if 0 < rule.cooldownSeconds then .ok (acc.1.armed key, acc.2 ++ [rule])
        else .error (.invalidExpireTime key)
      else .ok acc := by
  simp only [matchRule, RuleRow.due, decide_eq_true_eq, AlertSession.armCooldown]
  split
  · by_cases hpos : 0 < rule.cooldownSeconds
    · rw [if_neg (by omega), if_pos hpos]
      rfl
    · rw [if_pos (by omega), if_neg hpos]
      rfl
  · rfl

/-- Arming the key of one rule leaves the others as they are. -/
theorem due_armed {rule other : RuleRow} (h : other.id ≠ rule.id) (st : AlertSession) :
    other.due source metricName det (st.armed (ruleCooldownKey rule.id source.id metricName)).cooling =
      other.due source metricName det st.cooling := by
  have hkey : ruleCooldownKey other.id source.id metricName ≠ ruleCooldownKey rule.id source.id metricName :=
    fun heq => h (ruleCooldownKey_injective heq)
  simp only [RuleRow.due, AlertSession.armed, Function.update_of_ne hkey]

/-- The matching either comes to its end with the rules that are due, or to one that cannot be armed. -/
theorem matchRules_cases {rules : List RuleRow} (ids : (rules.map (fun rule => rule.id)).Nodup)
    (acc : AlertSession × List RuleRow) :
    ((∀ rule ∈ rules, rule.due source metricName det acc.1.cooling = true → 0 < rule.cooldownSeconds) ∧
      ∃ st, st.pending = acc.1.pending ∧ rules.foldlM (matchRule source metricName det) acc =
        .ok (st, acc.2 ++ rules.filter (RuleRow.due source metricName det acc.1.cooling))) ∨
    ((∃ rule ∈ rules, rule.due source metricName det acc.1.cooling = true ∧ ¬ 0 < rule.cooldownSeconds) ∧
      ∃ e, rules.foldlM (matchRule source metricName det) acc = .error e) := by
  induction rules generalizing acc with
  | nil => exact Or.inl ⟨by simp, acc.1, rfl, by simp [List.foldlM_nil, pure, Except.pure]⟩
  | cons rule rules ih =>
    obtain ⟨hnew, hids⟩ := List.nodup_cons.mp ids
    rw [List.foldlM_cons, matchRule_eq]
    dsimp only
    by_cases hdue : rule.due source metricName det acc.1.cooling = true
    · rw [if_pos hdue]
      by_cases hpos : 0 < rule.cooldownSeconds
      · rw [if_pos hpos]
        have hsame (other : RuleRow) (hother : other ∈ rules) :
            other.due source metricName det
              (acc.1.armed (ruleCooldownKey rule.id source.id metricName)).cooling =
            other.due source metricName det acc.1.cooling :=
          due_armed (fun heq => hnew (List.mem_map.mpr ⟨other, hother, heq⟩)) acc.1
        rcases ih hids (acc.1.armed (ruleCooldownKey rule.id source.id metricName), acc.2 ++ [rule]) with
          ⟨hall, st, hpending, hok⟩ | ⟨⟨other, hother, hodue, honot⟩, herror⟩
        · refine Or.inl ⟨List.forall_mem_cons.mpr ⟨fun _ => hpos, fun other hother hodue => ?_⟩,
            st, hpending, ?_⟩
          · exact hall other hother ((hsame other hother).trans hodue)
          · rw [List.filter_cons_of_pos hdue, ← List.filter_congr hsame]
            simp only [List.append_assoc, List.cons_append, List.nil_append] at hok
            exact hok
        · have hodue' := (hsame other hother).symm.trans hodue
          exact Or.inr ⟨⟨other, List.mem_cons_of_mem _ hother, hodue', honot⟩, herror⟩
      · rw [if_neg hpos]
        exact Or.inr ⟨⟨rule, List.mem_cons_self, hdue, hpos⟩, _, rfl⟩
    · rw [if_neg hdue]
      rcases ih hids acc with ⟨hall, st, hpending, hok⟩ | ⟨⟨other, hother, hodue, honot⟩, herror⟩
      · refine Or.inl ⟨List.forall_mem_cons.mpr ⟨fun h => absurd h hdue, hall⟩, st, hpending, ?_⟩
        rw [List.filter_cons_of_neg hdue]
        exact hok
      · exact Or.inr ⟨⟨other, List.mem_cons_of_mem _ hother, hodue, honot⟩, herror⟩

end

/-- The rules let an anomaly pass exactly when each enabled rule that concerns it and is out of its cooldown
has a positive cooldown and channels, and each channel that is notified a type that is supported or short;
the floats of the anomaly have to be finite if anything is notified. -/
theorem rule_part_succeeds_iff (E : AlertEnv) (source : MetricSource) (metricName : String)
    (det : DetectionResult) (id : RecordId) (cooling : String → Bool) {rules : List RuleRow}
    (ids : (rules.map (fun rule => rule.id)).Nodup) (accepted : ∀ rule ∈ rules, rule.Accepted) :
    (∃ st, E.rulePart source metricName det id rules cooling = .ok st) ↔
      ∀ rule ∈ rules, rule.enabled = true → rule.concerns source metricName det = true →
        cooling (ruleCooldownKey rule.id source.id metricName) = false → rule.Harmless E det := by
  let enabled := rules.filter (fun rule => rule.enabled)
  let matched := enabled.filter (RuleRow.due source metricName det cooling)
  have hmatched (rule : RuleRow) : rule ∈ matched ↔ rule ∈ rules ∧ rule.enabled = true ∧
      rule.concerns source metricName det = true ∧
        cooling (ruleCooldownKey rule.id source.id metricName) = false := by
    rw [List.mem_filter, List.mem_filter, and_assoc]
    simp [RuleRow.due]
  have hnotified (st : AlertSession) := foldlM_ok_iff (f := fun st (rule : RuleRow) =>
      E.sendNotification (det.record source.id metricName id) rule.notificationChannels st) matched
    (fun st rule hrule => sendNotification_ok_iff (E := E) det source metricName id st
      (accepted rule ((hmatched rule).mp hrule).1)) st
  have hharmless : (∀ rule ∈ rules, rule.enabled = true → rule.concerns source metricName det = true →
      cooling (ruleCooldownKey rule.id source.id metricName) = false → rule.Harmless E det) ↔
      ∀ rule ∈ matched, rule.Harmless E det := by
    simp only [hmatched, and_imp]
  have hids : (enabled.map (fun rule => rule.id)).Nodup := ids.sublist (List.filter_sublist.map _)
  rw [hharmless, AlertEnv.rulePart]
  rcases matchRules_cases hids ({ cooling := cooling }, []) with
    ⟨hall, st, hpending, hok⟩ | ⟨⟨rule, hrule, hdue, hnot⟩, e, herror⟩
  · have hclean : st.Clean E := by
      rw [AlertSession.Clean, hpending]
      simp
    simp only [enabled] at hok
    rw [hok]
    change (∃ st', (matched.foldlM _ st >>= fun st => st.flush E) = .ok st') ↔ _
    rw [AlertSession.flushed_ok_iff, hnotified st]
    constructor
    · rintro ⟨-, hchannels⟩ rule hrule
      obtain ⟨henabled, hdue⟩ := List.mem_filter.mp hrule
      exact ⟨hall rule henabled hdue, hchannels rule hrule⟩
    · exact fun h => ⟨hclean, fun rule hrule => (h rule hrule).channels⟩
  · simp only [enabled] at herror
    rw [herror]
    refine iff_of_false (by rintro ⟨st, h⟩; cases h) (fun h => hnot (h rule ?_).cooldown)
    exact List.mem_filter.mpr ⟨hrule, hdue⟩

private def asciiEnv : AlertEnv where
  str
    | .str s => s
    | _ => ""
  lower := String.toLower
  reprFloat _ := ""
  now := 0
  post _ _ := none

private def alertSource : MetricSource := { id := "s", name := "api" }

private def highScore : DetectionResult where
  isAnomaly := true
  score := .finite 1
  expectedValue := some (.finite 2)
  actualValue := .finite 90
  deviation := .finite 88
  detectorName := "zscore"
  severity := "critical"
  reason := ""

private def zscoreRule (cooldownSeconds : Int) (channel : String) : RuleRow where
  id := "r"
  sourceId := none
  metricName := none
  detectorType := "zscore"
  severityThreshold := "high"
  cooldownSeconds := cooldownSeconds
  notificationChannels := some [[(.str "type", .str channel)]]

private theorem zscoreRule_accepted {cooldownSeconds : Int} (channel : String)
    (h : -2 ^ 31 ≤ cooldownSeconds ∧ cooldownSeconds < 2 ^ 31) :
    (zscoreRule cooldownSeconds channel).Accepted where
  metricName name h := by cases h
  detectorType := show "zscore".length ≤ 64 by decide
  severityThreshold := show "high".length ≤ 32 by decide
  cooldownSeconds := h
  channels channels h ch hch := by
    cases h
    rw [List.mem_singleton.mp hch, encodable_dict]
    simp [PyValue.IsKey, PyValue.Encodable.str]

theorem rule_part_succeeds_iff_slack :
    ∃ st, asciiEnv.rulePart alertSource "latency" highScore "a" [zscoreRule 300 "Slack"] (fun _ => false) =
      .ok st := by
  refine (rule_part_succeeds_iff asciiEnv alertSource "latency" highScore "a" (fun _ => false) (by decide)
    (List.forall_mem_singleton.mpr (zscoreRule_accepted "Slack" (by decide)))).mpr ?_
  refine List.forall_mem_singleton.mpr (fun _ _ _ => ⟨by decide, _, rfl, fun ch hch _ => ⟨?_, ?_⟩⟩)
  · exact ⟨.float 1, .float 90, fun value h => Option.some.inj h ▸ .float 2⟩
  · rw [List.mem_singleton.mp hch]
    exact Or.inl (by decide +kernel)

/-- A rule without a cooldown, and one for a channel of a name that is too long. -/
theorem accepted_rules_raise :
    (zscoreRule 0 "slack").Accepted ∧ (zscoreRule 300 "pagerduty-integration-for-on-call-team").Accepted ∧
    (asciiEnv.rulePart alertSource "latency" highScore "a" [zscoreRule 0 "slack"] (fun _ => false)).isOk =
      false ∧
    (asciiEnv.rulePart alertSource "latency" highScore "a"
      [zscoreRule 300 "pagerduty-integration-for-on-call-team"] (fun _ => false)).isOk = false :=
  ⟨zscoreRule_accepted _ (by decide), zscoreRule_accepted _ (by decide), by decide +kernel, by decide +kernel⟩

end BackendProjects.Anomaly
