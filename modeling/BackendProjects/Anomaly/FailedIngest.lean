import BackendProjects.Anomaly.Ingest

/-! What an ingestion that raises leaves in Redis: its session is rolled back, its commands are not. -/
namespace BackendProjects.Anomaly
open Library Workflow
variable {P : Platform} {st : Stores} {size : Int} {ws : List Write}

/-! ### Windows -/

inductive Trimmed (size : Int) : List Write → Prop
  | nil : Trimmed size []
  | other {w ws} (hw : (∀ key m, w ≠ .zadd key m) ∧ ∀ key n, w ≠ .trim key n) (rest : Trimmed size ws) :
      Trimmed size (w :: ws)
  | add {key m ws} (rest : Trimmed size ws) : Trimmed size (.zadd key m :: .trim key size :: ws)

namespace Trimmed

private theorem append {ws' : List Write} (h : Trimmed size ws) (h' : Trimmed size ws') :
    Trimmed size (ws ++ ws') := by
  induction h with
  | nil => exact h'
  | other hw _ ih => exact .other hw ih
  | add _ ih => exact .add ih

private theorem of_detects (h : ∀ w ∈ ws, w.Detects) : Trimmed size ws := by
  induction ws with
  | nil => exact .nil
  | cons w ws ih =>
    obtain ⟨hw, hws⟩ := List.forall_mem_cons.mp h
    refine .other ⟨?_, ?_⟩ (ih hws)
    · rintro key m rfl
      exact hw
    · rintro key n rfl
      exact hw

/-- A call that is cut off has trimmed its windows, unless it had just added a member. -/
theorem take (h : Trimmed size ws) (n : Nat) :
    Trimmed size (ws.take n) ∨ ∃ ws' key m, ws.take n = ws' ++ [.zadd key m] := by
  induction h generalizing n with
  | nil => exact Or.inl (by simpa using nil)
  | @other w ws hw _ ih =>
    cases n with
    | zero => exact Or.inl nil
    | succ n =>
      rcases ih n with htrimmed | ⟨ws', key, m, hlast⟩
      · exact Or.inl (.other hw htrimmed)
      · exact Or.inr ⟨w :: ws', key, m, by rw [List.take_succ_cons, hlast, List.cons_append]⟩
  | @add key m ws _ ih =>
    match n with
    | 0 => exact Or.inl nil
    | 1 => exact Or.inr ⟨[], key, m, rfl⟩
    | n + 2 =>
      rcases ih n with htrimmed | ⟨ws', key', m', hlast⟩
      · exact Or.inl (.add htrimmed)
      · exact Or.inr ⟨.zadd key m :: .trim key size :: ws', key', m', by
          rw [List.take_succ_cons, List.take_succ_cons, hlast, List.cons_append, List.cons_append]⟩

private theorem last_ne_zadd (h : Trimmed size ws) (key : String) (m : WindowMember) :
    ws.getLast? ≠ some (.zadd key m) := by
  induction h with
  | nil => exact nofun
  | @other w ws hw _ ih =>
    cases ws with
    | nil => exact fun hlast => hw.1 key m (Option.some.inj hlast)
    | cons w' ws => rwa [List.getLast?_cons_cons]
  | @add key' m' ws _ ih =>
    cases ws with
    | nil => exact nofun
    | cons w' ws => rwa [List.getLast?_cons_cons, List.getLast?_cons_cons]

end Trimmed

def addedTo (key : String) (ws : List Write) : List WindowMember :=
  ws.filterMap fun
    | .zadd k m => if k = key then some m else none
    | _ => none

private theorem mem_addedTo {key : String} {m : WindowMember} : m ∈ addedTo key ws ↔ Write.zadd key m ∈ ws := by
  rw [addedTo, List.mem_filterMap]
  constructor
  · rintro ⟨w, hw, hm⟩
    cases w with
    | zadd k m' =>
      obtain ⟨rfl, hsame⟩ := Option.ite_none_right_eq_some.mp hm
      exact Option.some.inj hsame ▸ hw
    | _ => cases hm
  · exact fun h => ⟨_, h, if_pos rfl⟩

private theorem Trimmed.window (h : Trimmed size ws) (key : String) :
    (st.after ws).windows key = (addedTo key ws).foldl (SortedSet.push size) (st.windows key) := by
  induction h generalizing st with
  | nil => rfl
  | @other w ws hw _ ih =>
    have hsame : (st.apply w).windows = st.windows := by
      cases w with
      | zadd k m => exact absurd rfl (hw.1 k m)
      | trim k n => exact absurd rfl (hw.2 k n)
      | _ => rfl
    have hadded : addedTo key (w :: ws) = addedTo key ws := by
      cases w with
      | zadd k m => exact absurd rfl (hw.1 k m)
      | _ => rfl
    rw [Stores.after_cons, ih, hsame, hadded]
  | @add k m ws _ ih =>
    rw [Stores.after_cons, Stores.after_cons, ih]
    by_cases hkey : k = key
    · subst hkey
      simp [addedTo, Stores.apply, SortedSet.push]
    · simp [addedTo, Stores.apply, hkey, Function.update_of_ne (Ne.symm hkey)]

/-! ### Cooldowns -/

def Guarded (st : Stores) : List Write → Prop
  | [] => True
  | w :: ws => (∀ key r, w = .armCooldown key r → st.cooldowns key = none) ∧ Guarded (st.apply w) ws

namespace Guarded

private theorem append {ws' : List Write} (h : Guarded st ws) (h' : Guarded (st.after ws) ws') :
    Guarded st (ws ++ ws') := by
  induction ws generalizing st with
  | nil => exact h'
  | cons w ws ih => exact ⟨h.1, ih h.2 h'⟩

private theorem take (h : Guarded st ws) (n : Nat) : Guarded st (ws.take n) := by
  induction ws generalizing st n with
  | nil => simpa using h
  | cons w ws ih =>
    cases n with
    | zero => exact trivial
    | succ n => exact ⟨h.1, ih h.2 n⟩

private theorem of_unarmed (h : ∀ w ∈ ws, ∀ key r, w ≠ .armCooldown key r) : Guarded st ws := by
  induction ws generalizing st with
  | nil => exact trivial
  | cons w ws ih =>
    obtain ⟨hw, hws⟩ := List.forall_mem_cons.mp h
    exact ⟨fun key r hr => absurd hr (hw key r), ih hws⟩

private theorem unarmed_before {key : String} {r : Option RecordId} (h : Guarded st ws)
    (hr : Write.armCooldown key r ∈ ws) : st.cooldowns key = none := by
  induction ws generalizing st with
  | nil => cases hr
  | cons w ws ih =>
    rcases List.mem_cons.mp hr with rfl | hr
    · exact h.1 key r rfl
    · have hnone := ih h.2 hr
      cases w with
      | armCooldown k r' =>
        by_cases hkey : key = k
        · simp [Stores.apply, hkey] at hnone
        · simpa [Stores.apply, hkey] using hnone
      | _ => exact hnone

/-- A cooldown that is armed afterwards was armed before or in the call. -/
theorem armed_iff {key : String} {owner : Option RecordId} (h : Guarded st ws) :
    (st.after ws).cooldowns key = some owner ↔
      st.cooldowns key = some owner ∨ Write.armCooldown key owner ∈ ws := by
  induction ws generalizing st with
  | nil => simp
  | cons w ws ih =>
    rw [Stores.after_cons, ih h.2]
    cases w with
    | armCooldown k r =>
      have hnone := h.1 k r rfl
      by_cases hkey : key = k
      · subst hkey
        have harmed : (st.apply (.armCooldown key r)).cooldowns key = some r := by simp [Stores.apply]
        have hlater : Write.armCooldown key owner ∉ ws := fun hmem => by
          simp [unarmed_before h.2 hmem] at harmed
        simp [harmed, hnone, hlater, eq_comm]
      · simp [Stores.apply, hkey]
    | _ => simp [Stores.apply]

end Guarded

/-! ### The writes of a batch -/

section Batch
variable (P : Platform) (st : Stores) (a : Arrival)

private theorem armRule_guarded {source : MetricSource} {metricName : String} {det : DetectionResult}
    {rule : AlertRule} : Guarded st (armRule source metricName det st rule) := by
  rcases armRule_writes source metricName det st rule with hnone | ⟨key, harm, hfree⟩
  · rw [hnone]
    trivial
  · rw [harm]
    refine ⟨fun key' r h => ?_, trivial⟩
    obtain ⟨rfl, -⟩ := Write.armCooldown.inj h
    exact hfree

private theorem recordAnomaly_guarded {source : MetricSource} {metricName : String} {recordId : String → RecordId}
    {rules : List AlertRule} {det : DetectionResult} :
    Guarded st (recordAnomaly source metricName recordId rules st det) := by
  rcases recordAnomaly_writes source metricName recordId rules st det with
    hnone | ⟨record, key, -, -, hfree, hwrites⟩
  · rw [hnone]
    trivial
  · rw [hwrites]
    refine Guarded.append ⟨fun _ _ h => (nomatch h), fun key' r h => ?_, trivial⟩ ?_
    · obtain ⟨rfl, -⟩ := Write.armCooldown.inj h
      exact hfree
    · exact sequentially_induction Guarded (fun _ => trivial) (fun _ _ _ => Guarded.append) rules
        (fun st' rule _ => armRule_guarded st') _

private theorem runDetection_guarded {sourceName metricName : String} {value : PyFloat}
    {recordId : String → RecordId} :
    Guarded st (P.runDetection st sourceName metricName value recordId) := by
  unfold Platform.runDetection
  split
  · trivial
  · split
    · trivial
    · exact sequentially_induction Guarded (fun _ => trivial) (fun _ _ _ => Guarded.append) _
        (fun st' det _ => recordAnomaly_guarded st') _

private theorem ingestMetric_guarded : Guarded st (P.ingestMetric st a) := by
  refine Guarded.append (Guarded.of_unarmed ?_) (runDetection_guarded P _)
  unfold Platform.storeMetric getOrCreateSource
  split <;> simp [Platform.addToSlidingWindow]

private theorem ingestMetric_trimmed : Trimmed P.detectionWindowSize (P.ingestMetric st a) := by
  refine Trimmed.append ?_ (Trimmed.of_detects (runDetection_detects P _ _ _ _ _))
  unfold Platform.storeMetric getOrCreateSource
  split
  · exact .other (by simp) (.add .nil)
  · exact .other (by simp) (.other (by simp) (.add .nil))

end Batch

private theorem ingestBatch_guarded (P : Platform) (st : Stores) (batch : List Arrival) :
    Guarded st (P.ingestBatch st batch) :=
  sequentially_induction Guarded (fun _ => trivial) (fun _ _ _ => Guarded.append) batch
    (fun st a _ => ingestMetric_guarded P st a) st

private theorem ingestBatch_trimmed (P : Platform) (st : Stores) (batch : List Arrival) :
    Trimmed P.detectionWindowSize (P.ingestBatch st batch) :=
  sequentially_induction (fun _ => Trimmed P.detectionWindowSize) (fun _ => .nil)
    (fun _ _ _ => Trimmed.append) batch (fun st a _ => ingestMetric_trimmed P st a) st

private theorem addedTo_append (key : String) (ws ws' : List Write) :
    addedTo key (ws ++ ws') = addedTo key ws ++ addedTo key ws' := List.filterMap_append

private theorem addedTo_ingestMetric (P : Platform) (st : Stores) (a : Arrival) (key : String) :
    (addedTo key (P.ingestMetric st a)).Sublist [a.member P] := by
  have hdetects : addedTo key (P.runDetection (st.after (P.storeMetric st a)) a.sourceName a.metricName
      a.value a.recordId) = [] := by
    rw [List.eq_nil_iff_forall_not_mem]
    intro m hm
    exact (runDetection_detects _ _ _ _ _ _ _ (mem_addedTo.mp hm)).elim
  have hstored : addedTo key (P.storeMetric st a) = if a.windowKey st = key then [a.member P] else [] := by
    unfold Platform.storeMetric getOrCreateSource
    split <;> by_cases hkey : a.windowKey st = key <;> simp [Platform.addToSlidingWindow, addedTo, hkey]
  rw [Platform.ingestMetric, addedTo_append, hdetects, hstored, List.append_nil]
  split
  · exact List.Sublist.refl _
  · exact List.nil_sublist _

/-- A batch adds at most one member for each metric, in order. -/
theorem addedTo_ingestBatch (P : Platform) (st : Stores) (batch : List Arrival) (key : String) :
    (addedTo key (P.ingestBatch st batch)).Sublist (batch.map (·.member P)) := by
  induction batch generalizing st with
  | nil => exact List.Sublist.refl _
  | cons a batch ih =>
    rw [Platform.ingestBatch_cons, addedTo_append, List.map_cons, ← List.singleton_append]
    exact (addedTo_ingestMetric P st a key).append (ih _)

/-- Detector cooldowns are armed for records of the batch. -/
theorem armed_for_batch {batch : List Arrival} {key : String} {id : RecordId}
    (h : Write.armCooldown key (some id) ∈ P.ingestBatch st batch) :
    ∃ a ∈ batch, ∃ name, id = a.recordId name := by
  refine sequentially_forall (P := fun w => ∀ key id, w = .armCooldown key (some id) →
    ∃ a ∈ batch, ∃ name, id = a.recordId name) batch (fun st a ha w hw => ?_) st _ h key id rfl
  rcases List.mem_append.mp hw with hw | hw
  · rintro key id rfl
    revert hw
    unfold Platform.storeMetric getOrCreateSource
    split <;> simp [Platform.addToSlidingWindow]
  · refine runDetection_forall (Q := fun w => ∀ key id, w = .armCooldown key (some id) →
      ∃ a ∈ batch, ∃ name, id = a.recordId name) ?_ ?_ w hw
    · exact fun _ _ _ _ _ _ _ _ _ _ h => nomatch h
    · rintro _ r hr key id h
      obtain ⟨-, rfl⟩ := Write.armCooldown.inj h
      obtain ⟨name, hname⟩ := hr id rfl
      exact ⟨a, ha, name, hname⟩

/-! ### What a failure leaves -/

def Tables.HasPoint (tables : Tables) (id : PointId) : Prop := ∃ row ∈ tables.points, row.id = id

def Tables.HasRecord (tables : Tables) (id : RecordId) : Prop := ∃ row ∈ tables.records, row.id = id

/-- After the writes of a call and the rollback of its session, the windows that the call wrote to hold
committed points only, and the detector cooldowns that it armed go with committed records. -/
structure LeavesNoTrace (st : Stores) (ws : List Write) : Prop where
  windows : ∀ key m, Write.zadd key m ∈ ws → ∀ m' ∈ ((st.after ws).rollback.windows key).members,
    (st.after ws).rollback.committed.HasPoint m'.payload.point
  cooldowns : ∀ key id, st.cooldowns key = none → (st.after ws).rollback.cooldowns key = some (some id) →
    (st.after ws).rollback.committed.HasRecord id

/-- A rollback changes neither Redis nor the committed tables, and no write changes the latter. -/
theorem leavesNoTrace_iff (st : Stores) (ws : List Write) : LeavesNoTrace st ws ↔
    (∀ key m, Write.zadd key m ∈ ws → ∀ m' ∈ ((st.after ws).windows key).members,
      st.committed.HasPoint m'.payload.point) ∧
    ∀ key id, st.cooldowns key = none → (st.after ws).cooldowns key = some (some id) →
      st.committed.HasRecord id := by
  have hcommitted : (st.after ws).rollback.committed = st.committed := st.after_committed ws
  constructor
  · rintro ⟨hwindows, hcooldowns⟩
    rw [hcommitted] at hwindows hcooldowns
    exact ⟨hwindows, hcooldowns⟩
  · rintro ⟨hwindows, hcooldowns⟩
    constructor <;> rw [hcommitted]
    · exact hwindows
    · exact hcooldowns

/-- A window to which only points that are not committed were added holds committed ones exactly when all
others were pushed out. -/
theorem window_committed_iff {key : String} (h : Trimmed size ws) (hadded : addedTo key ws ≠ [])
    (fresh : ∀ m ∈ addedTo key ws, ¬ st.committed.HasPoint m.payload.point)
    (distinct : (((st.windows key).members ++ addedTo key ws).map ScoredMember.text).Nodup) :
    (∀ m ∈ ((st.after ws).windows key).members, st.committed.HasPoint m.payload.point) ↔
      (∀ m ∈ addedTo key ws, size ≤ (st.windows key).above m.key) ∧
        ∀ m ∈ (st.windows key).members, ¬ st.committed.HasPoint m.payload.point →
          size ≤ (st.windows key).above m.key := by
  have hkept (m : WindowMember) (hm : m ∈ (st.windows key).members ++ addedTo key ws) :
      m ∉ ((st.after ws).windows key).members ↔
        size ≤ ((st.windows key).members ++ addedTo key ws).countP (fun m' => m.key < m'.key) := by
    rw [h.window, (SortedSet.mem_pushed size hadded distinct).1, and_iff_right hm, not_lt]
  constructor
  · intro hall
    have hnew := SortedSet.outranked_iff.mp fun m hm =>
      (hkept m (List.mem_append_right _ hm)).mp (fun hm' => fresh m hm (hall m hm'))
    refine ⟨hnew, fun m hm hpoint => ?_⟩
    rw [← SortedSet.le_above_of_outranked hnew]
    exact (hkept m (List.mem_append_left _ hm)).mp (fun hm' => hpoint (hall m hm'))
  · rintro ⟨hnew, hold⟩ m hm
    by_contra hpoint
    have hin : m ∈ (st.windows key).members ++ addedTo key ws := by
      rw [h.window, (SortedSet.mem_pushed size hadded distinct).1] at hm
      exact hm.1
    refine (hkept m hin).mpr ?_ hm
    rw [SortedSet.le_above_of_outranked hnew]
    exact (List.mem_append.mp hin).elim (fun hm' => hold m hm' hpoint) (hnew m)

/-- A member that was just added is in its window. -/
theorem last_added_stays (st : Stores) (key : String) (m : WindowMember) :
    m ∈ ((st.after (ws ++ [.zadd key m])).windows key).members := by
  simp [Stores.apply, SortedSet.zadd]

/-- The cooldowns that a call arms for records go with committed ones only if there are none. -/
theorem cooldowns_committed_iff (h : Guarded st ws)
    (fresh : ∀ key id, Write.armCooldown key (some id) ∈ ws → ¬ st.committed.HasRecord id) :
    (∀ key id, st.cooldowns key = none → (st.after ws).cooldowns key = some (some id) →
      st.committed.HasRecord id) ↔ ∀ key id, Write.armCooldown key (some id) ∉ ws := by
  constructor
  · intro hall key id harm
    exact fresh key id harm (hall key id (h.unarmed_before harm) (h.armed_iff.mpr (Or.inr harm)))
  · intro hnone key id hfree harmed
    rcases h.armed_iff.mp harmed with hbefore | harm
    · rw [hfree] at hbefore
      cases hbefore
    · exact absurd harm (hnone key id)

/-- A call that raises leaves no trace exactly when it had armed no cooldown for a record, was not between
the two commands of a window, and had added only members too old to be kept, to windows whose other kept
members are of committed points. -/
theorem failed_ingest_leaves_no_trace_iff (P : Platform) (st : Stores) (batch : List Arrival) (n : Nat)
    (freshPoints : ∀ a ∈ batch, ¬ st.committed.HasPoint a.pointId)
    (freshRecords : ∀ a ∈ batch, ∀ name, ¬ st.committed.HasRecord (a.recordId name))
    (distinct : ∀ key, (((st.windows key).members ++ batch.map (·.member P)).map ScoredMember.text).Nodup) :
    LeavesNoTrace st ((P.ingestBatch st batch).take n) ↔
      (∀ key id, Write.armCooldown key (some id) ∉ (P.ingestBatch st batch).take n) ∧
      ∀ key m, Write.zadd key m ∈ (P.ingestBatch st batch).take n →
        ((P.ingestBatch st batch).take n).getLast? ≠ some (.zadd key m) ∧
        P.detectionWindowSize ≤ (st.windows key).above m.key ∧
        ∀ m' ∈ (st.windows key).members, ¬ st.committed.HasPoint m'.payload.point →
          P.detectionWindowSize ≤ (st.windows key).above m'.key := by
  have hadded (key : String) : (addedTo key ((P.ingestBatch st batch).take n)).Sublist
      (batch.map (·.member P)) :=
    ((List.take_sublist n _).filterMap _).trans (addedTo_ingestBatch P st batch key)
  have hpoints : ∀ key, ∀ m ∈ addedTo key ((P.ingestBatch st batch).take n),
      ¬ st.committed.HasPoint m.payload.point := by
    intro key m hm
    obtain ⟨a, ha, rfl⟩ := List.mem_map.mp ((hadded key).subset hm)
    exact freshPoints a ha
  have hrecords : ∀ key id, Write.armCooldown key (some id) ∈ (P.ingestBatch st batch).take n →
      ¬ st.committed.HasRecord id := by
    intro key id harm
    obtain ⟨a, ha, name, rfl⟩ := armed_for_batch (List.mem_of_mem_take harm)
    exact freshRecords a ha name
  have hcooldowns := cooldowns_committed_iff ((ingestBatch_guarded P st batch).take n) hrecords
  rw [leavesNoTrace_iff, hcooldowns]
  rcases (ingestBatch_trimmed P st batch).take n with htrimmed | ⟨ws', key, m, hlast⟩
  · have hwindow (key : String) (m : WindowMember)
        (hm : Write.zadd key m ∈ (P.ingestBatch st batch).take n) :=
      window_committed_iff htrimmed (List.ne_nil_of_mem (mem_addedTo.mpr hm)) (hpoints key)
        ((distinct key).sublist (((List.Sublist.refl _).append (hadded key)).map _))
    constructor
    · rintro ⟨hwindows, harmed⟩
      refine ⟨harmed, fun key m hm => ⟨htrimmed.last_ne_zadd key m, ?_⟩⟩
      obtain ⟨hnew, hold⟩ := (hwindow key m hm).mp (hwindows key m hm)
      exact ⟨hnew m (mem_addedTo.mpr hm), hold⟩
    · rintro ⟨harmed, hzadd⟩
      refine ⟨fun key m hm => (hwindow key m hm).mpr ⟨fun m' hm' => ?_, (hzadd key m hm).2.2⟩, harmed⟩
      exact (hzadd key m' (mem_addedTo.mp hm')).2.1
  · have hm : Write.zadd key m ∈ (P.ingestBatch st batch).take n := by
      rw [hlast]
      simp
    refine iff_of_false (fun h => ?_) (fun h => ?_)
    · refine hpoints key m (mem_addedTo.mpr hm) (h.1 key m hm m ?_)
      rw [hlast]
      exact last_added_stays st key m
    · refine (h.2 key m hm).1 ?_
      rw [hlast]
      exact List.getLast?_concat

private def alarming : Platform where
  reprFloat
    | .finite q => toString q.num ++ ".0"
    | _ => "NaN"
  detectors := [.always]

private def emptyStores : Stores where
  committed := ⟨[], [], []⟩
  session := ⟨[], [], []⟩
  rules := []
  windows _ := .empty
  cooldowns _ := none

private def cpuMetric : Arrival where
  sourceName := "api"
  metricName := "cpu"
  value := .finite 9
  timestamp := some 50
  now := 50
  sourceId := "s"
  pointId := "p"
  memberId := "m"
  recordId name := name

private def narrow : Platform := { alarming with detectionWindowSize := 1 }

private def laterMetric : Arrival :=
  { cpuMetric with value := .finite 8, timestamp := some 100, pointId := "q", memberId := "n" }

private def filledStores : Stores where
  committed := ⟨[⟨"s", "api", "application", true⟩], [laterMetric.point emptyStores], []⟩
  session := ⟨[⟨"s", "api", "application", true⟩], [laterMetric.point emptyStores], []⟩
  rules := []
  windows := Function.update (fun _ => .empty) "sw:s:cpu" (SortedSet.empty.zadd (laterMetric.member narrow))
  cooldowns _ := none

/-- A publication that raises leaves no trace of a late point that its window has already dropped. -/
theorem failed_ingest_leaves_no_trace_iff_late_point :
    LeavesNoTrace filledStores ((narrow.ingestBatch filledStores [cpuMetric]).take 3) := by
  have hwrites : (narrow.ingestBatch filledStores [cpuMetric]).take 3 =
      [.point (cpuMetric.point filledStores), .zadd "sw:s:cpu" (cpuMetric.member narrow),
        .trim "sw:s:cpu" 1] := rfl
  have hwindow : (filledStores.windows "sw:s:cpu").members = [laterMetric.member narrow] := rfl
  have hlater : (cpuMetric.member narrow).key < (laterMetric.member narrow).key :=
    Prod.Lex.toLex_lt_toLex.mpr (Or.inl (show (50 : Rat) < 100 by decide))
  have hpoint : filledStores.committed.HasPoint (laterMetric.member narrow).payload.point :=
    ⟨laterMetric.point emptyStores, List.mem_cons_self, rfl⟩
  refine (failed_ingest_leaves_no_trace_iff narrow filledStores [cpuMetric] 3 ?_ ?_ ?_).mpr ?_
  · rintro a ha ⟨row, hrow, hid⟩
    rw [List.mem_singleton.mp ha, List.mem_singleton.mp hrow] at hid
    exact absurd hid (by decide)
  · rintro a ha name ⟨row, hrow, -⟩
    cases hrow
  · intro key
    by_cases hkey : key = "sw:s:cpu"
    · subst hkey
      rw [hwindow]
      decide +kernel
    · simp [filledStores, hkey, SortedSet.empty]
  · rw [hwrites]
    refine ⟨fun key id h => by simp at h, fun key m h => ?_⟩
    obtain ⟨rfl, rfl⟩ : key = "sw:s:cpu" ∧ m = cpuMetric.member narrow := by simpa using h
    refine ⟨by simp, ?_, fun m' hm' hnot => ?_⟩
    · have habove : (filledStores.windows "sw:s:cpu").above (cpuMetric.member narrow).key = 1 := by
        simp [SortedSet.above, hwindow, hlater]
      exact habove ▸ le_refl 1
    · rw [hwindow, List.mem_singleton] at hm'
      exact absurd (hm' ▸ hpoint) hnot

/-- A publication that raises leaves the member of a point that is rolled back, and an error after the
cooldown was armed leaves the key of a record that is. -/
theorem raising_publish_leaves_a_member :
    ¬ LeavesNoTrace emptyStores ((alarming.ingestBatch emptyStores [cpuMetric]).take 4) ∧
    ¬ LeavesNoTrace emptyStores ((alarming.ingestBatch emptyStores [cpuMetric]).take 6) := by
  constructor
  · intro h
    obtain ⟨row, hrow, -⟩ := h.windows "sw:s:cpu" (cpuMetric.member alarming)
      (List.mem_of_getElem? (i := 2) rfl) (cpuMetric.member alarming) (List.mem_of_getElem? (i := 0) rfl)
    cases hrow
  · intro h
    obtain ⟨row, hrow, -⟩ := h.cooldowns "cd:s:cpu:zscore" "zscore" rfl rfl
    cases hrow

end BackendProjects.Anomaly
