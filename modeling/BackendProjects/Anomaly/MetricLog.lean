import BackendProjects.Anomaly.Ingest
import BackendProjects.Library.Insertions
import BackendProjects.Library.Paging
import BackendProjects.Library.Runs

/-! The tables of sources and data points under requests that overlap in time, fail or are cut short, next to the
log that they stand for: the accepted metrics in the order of their commits, less those that have been cleaned up.
What is read from the tables is what the log says. -/
namespace BackendProjects.Anomaly
open Library Workflow

abbrev RequestId := Nat

inductive IngestPhase where
  | looking
  | inserting (row : MetricSource)
  | found (sourceId : SourceId)

structure IngestRequest where
  batch : List Arrival
  rest : List Arrival
  phase : IngestPhase
  points : List MetricDataPoint

/-- What has happened to the table of points as a whole: commits of requests, and of cleanups the `DELETE` and the
commit. -/
inductive HistoryEvent where
  | accepted (batch : List Arrival)
  | deleted (r : RequestId) (cutoff : Timestamp)
  | expired (r : RequestId)

/-- The sources, the committed points, the requests, and the points that open cleanups have deleted. -/
structure MetricStore where
  sources : Insertions RequestId MetricSource
  points : List MetricDataPoint
  requests : RequestId → Option IngestRequest
  cleanups : RequestId → Option (List PointId)
  history : List HistoryEvent

def Arrival.pointOf (a : Arrival) (sourceId : SourceId) : MetricDataPoint where
  id := a.pointId
  sourceId := sourceId
  metricName := a.metricName
  value := a.value
  unit := a.unit
  tags := a.tags
  timestamp := a.ts

theorem Arrival.point_eq (a : Arrival) (st : Stores) : a.point st = a.pointOf (a.source st).id := rfl

namespace MetricStore
variable (s : MetricStore)

def empty : MetricStore := ⟨.empty, [], fun _ => none, fun _ => none, []⟩

def setRequest (r : RequestId) (q : IngestRequest) : MetricStore :=
  { s with requests := Function.update s.requests r (some q) }

def commit (r : RequestId) (q : IngestRequest) : MetricStore :=
  { s with
    sources := s.sources.commit r
    points := s.points ++ q.points
    requests := Function.update s.requests r none
    history := s.history ++ [.accepted q.batch] }

def rollback (r : RequestId) : MetricStore :=
  { s with sources := s.sources.rollback r, requests := Function.update s.requests r none }

/-- The `DELETE` of a cleanup goes over the points that are committed; until its own commit it shows to nobody. -/
def deleteOldMetrics (r : RequestId) (cutoff : Timestamp) : MetricStore :=
  { s with
    cleanups := Function.update s.cleanups r
      (some ((s.points.filter (fun p => p.timestamp < cutoff)).map (·.id)))
    history := s.history ++ [.deleted r cutoff] }

def commitCleanup (r : RequestId) (ids : List PointId) : MetricStore :=
  { s with
    points := s.points.filter (fun p => p.id ∉ ids)
    cleanups := Function.update s.cleanups r none
    history := s.history ++ [.expired r] }

def rollbackCleanup (r : RequestId) : MetricStore := { s with cleanups := Function.update s.cleanups r none }

def source (r : RequestId) (name : String) : Option MetricSource :=
  (s.sources.visible r).find? (fun src => src.name = name)

end MetricStore

/-- The requests take turns at their await points. A session waits with an insert for those that have inserted
the same name, a conflict with a committed one raises, and no id is drawn twice. -/
inductive MetricStep (s : MetricStore) : MetricStore → Prop
  | ingest {r : RequestId} (batch : List Arrival) (h : s.requests r = none) :
      MetricStep s (s.setRequest r ⟨batch, batch, .looking, []⟩)
  | createSource {r : RequestId} (row : MetricSource) (h : s.requests r = none) :
      MetricStep s (s.setRequest r ⟨[], [], .inserting row, []⟩)
  | found {r : RequestId} {q : IngestRequest} {a : Arrival} {rest : List Arrival} {src : MetricSource}
      (h : s.requests r = some q) (hphase : q.phase = .looking) (hrest : q.rest = a :: rest)
      (hsource : s.source r a.sourceName = some src) :
      MetricStep s (s.setRequest r { q with phase := .found src.id })
  | missing {r : RequestId} {q : IngestRequest} {a : Arrival} {rest : List Arrival}
      (h : s.requests r = some q) (hphase : q.phase = .looking) (hrest : q.rest = a :: rest)
      (hsource : s.source r a.sourceName = none) :
      MetricStep s (s.setRequest r { q with phase := .inserting { id := a.sourceId, name := a.sourceName } })
  | insert {r : RequestId} {q : IngestRequest} {row : MetricSource} (h : s.requests r = some q)
      (hphase : q.phase = .inserting row) (hname : s.sources.Free (·.name) row.name)
      (hid : s.sources.Free (·.id) row.id) :
      MetricStep s ({ s with sources := s.sources.insert r row }.setRequest r { q with phase := .found row.id })
  | store {r : RequestId} {q : IngestRequest} {a : Arrival} {rest : List Arrival} {sourceId : SourceId}
      (h : s.requests r = some q) (hphase : q.phase = .found sourceId) (hrest : q.rest = a :: rest) :
      MetricStep s (s.setRequest r
        { q with rest := rest, phase := .looking, points := q.points ++ [a.pointOf sourceId] })
  | commit {r : RequestId} {q : IngestRequest} (h : s.requests r = some q) (hrest : q.rest = [])
      (hphase : ∀ row, q.phase ≠ .inserting row) : MetricStep s (s.commit r q)
  | fail {r : RequestId} {q : IngestRequest} (h : s.requests r = some q) : MetricStep s (s.rollback r)
  | deleteOldMetrics {r : RequestId} (cutoff : Timestamp) (h : s.cleanups r = none) :
      MetricStep s (s.deleteOldMetrics r cutoff)
  | commitCleanup {r : RequestId} {ids : List PointId} (h : s.cleanups r = some ids) :
      MetricStep s (s.commitCleanup r ids)
  | rollbackCleanup (r : RequestId) : MetricStep s (s.rollbackCleanup r)

/-! ### What is read -/

structure MetricQuery where
  sourceName : String
  metricName : String
  startTime : Timestamp
  endTime : Timestamp

structure MetricAggregation where
  metricName : String
  avg : PyFloat
  min : PyFloat
  max : PyFloat
  stdDev : PyFloat
  count : Nat
  periodStart : Timestamp
  periodEnd : Timestamp

/-- Postgres orders floats with NaN as the greatest one. -/
def floatRank : PyFloat → Nat
  | .inf true => 0
  | .finite _ => 1
  | .inf false => 2
  | .nan => 3

def floatLe : PyFloat → PyFloat → Bool
  | .finite p, .finite q => p ≤ q
  | a, b => floatRank a ≤ floatRank b

def floatMin (a b : PyFloat) : PyFloat := if floatLe a b then a else b

def floatMax (a b : PyFloat) : PyFloat := if floatLe a b then b else a

/-- Postgres's `avg` and `stddev_pop` of doubles, in the order in which the rows come; nothing stands for a
statement that raises, as it does on an overflow. -/
structure FloatAggregates where
  avg : List PyFloat → Option PyFloat
  stddevPop : List PyFloat → Option PyFloat

namespace MetricQuery
variable (q : MetricQuery)

def asks (p : MetricDataPoint) : Bool :=
  p.metricName = q.metricName ∧ q.startTime ≤ p.timestamp ∧ p.timestamp ≤ q.endTime

def Covers (a : Arrival) : Prop :=
  a.sourceName = q.sourceName ∧ a.metricName = q.metricName ∧ q.startTime ≤ a.ts ∧ a.ts ≤ q.endTime
  deriving Decidable

/-- A NaN as the deviation is taken for zero. -/
def answer (avg stdDev v : PyFloat) (vs : List PyFloat) : MetricAggregation where
  metricName := q.metricName
  avg := avg
  min := vs.foldl floatMin v
  max := vs.foldl floatMax v
  stdDev := if stdDev = .nan then .finite 0 else stdDev
  count := (v :: vs).length
  periodStart := q.startTime
  periodEnd := q.endTime

def aggregate (pg : FloatAggregates) : List PyFloat → Option (Option MetricAggregation)
  | [] => some none
  | v :: vs => do
    let avg ← pg.avg (v :: vs)
    let stdDev ← pg.stddevPop (v :: vs)
    return some (q.answer avg stdDev v vs)

end MetricQuery

namespace MetricStore
variable (s : MetricStore) (q : MetricQuery)

def select : List MetricDataPoint :=
  s.points.flatMap fun p =>
    (s.sources.committed.filter (fun src => src.id = p.sourceId ∧ src.name = q.sourceName ∧ q.asks p)).map fun _ => p

def queryMetrics (order : OrderBy fun p : MetricDataPoint => OrderDual.toDual p.timestamp) :
    List MetricDataPoint :=
  order.run (s.select q)

/-- The rows come to the aggregates in any order. -/
def getAggregation (scan : OrderBy fun _ : MetricDataPoint => ()) (pg : FloatAggregates) :
    Option (Option MetricAggregation) := q.aggregate pg ((scan.run (s.select q)).map (·.value))

end MetricStore

/-! ### The log -/

/-- The accepted metrics that have not expired, and those that open cleanups have deleted. -/
structure MetricLog where
  metrics : List Arrival
  deleted : RequestId → List PointId

/-- What is accepted between the `DELETE` of a cleanup and its commit stays. -/
def MetricLog.after (log : MetricLog) : HistoryEvent → MetricLog
  | .accepted batch => { log with metrics := log.metrics ++ batch }
  | .deleted r cutoff => { log with
      deleted := Function.update log.deleted r
        ((log.metrics.filter (fun a => a.ts < cutoff)).map (·.pointId)) }
  | .expired r => { log with metrics := log.metrics.filter (fun a => a.pointId ∉ log.deleted r) }

def MetricStore.replay (s : MetricStore) : MetricLog := s.history.foldl MetricLog.after ⟨[], fun _ => []⟩

def MetricStore.log (s : MetricStore) : List Arrival := s.replay.metrics

/-- What of a point does not depend on the id of its source. -/
def MetricDataPoint.content (p : MetricDataPoint) :
    PointId × String × PyFloat × Option String × Option PyDict × Timestamp :=
  (p.id, p.metricName, p.value, p.unit, p.tags, p.timestamp)

def Arrival.content (a : Arrival) : PointId × String × PyFloat × Option String × Option PyDict × Timestamp :=
  (a.pointId, a.metricName, a.value, a.unit, a.tags, a.ts)

variable {s s' : MetricStore} {r : RequestId} {q : IngestRequest} {a : Arrival} {p : MetricDataPoint}
  {rows rows' : List MetricSource}

structure Shows (rows : List MetricSource) (p : MetricDataPoint) (a : Arrival) : Prop where
  source : ∃ src ∈ rows, src.id = p.sourceId ∧ src.name = a.sourceName
  content : p.content = a.content

private theorem Shows.timestamp (h : Shows rows p a) : p.timestamp = a.ts := by
  have hcontent := h.content
  simp only [MetricDataPoint.content, Arrival.content, Prod.mk.injEq] at hcontent
  exact hcontent.2.2.2.2.2

private theorem Shows.id (h : Shows rows p a) : p.id = a.pointId := by
  have hcontent := h.content
  simp only [MetricDataPoint.content, Arrival.content, Prod.mk.injEq] at hcontent
  exact hcontent.1

private theorem Shows.metricName (h : Shows rows p a) : p.metricName = a.metricName := by
  have hcontent := h.content
  simp only [MetricDataPoint.content, Arrival.content, Prod.mk.injEq] at hcontent
  exact hcontent.2.1

private theorem Shows.mono (hrows : rows ⊆ rows') (h : Shows rows p a) : Shows rows' p a :=
  ⟨h.source.imp fun _ hsrc => ⟨hrows hsrc.1, hsrc.2⟩, h.content⟩

private theorem shows_mono (hrows : rows ⊆ rows') {points : List MetricDataPoint} {log : List Arrival}
    (h : List.Forall₂ (Shows rows) points log) : List.Forall₂ (Shows rows') points log :=
  h.imp fun _ _ => Shows.mono hrows

/-- What a request has flushed shows the metrics that it has got through, and it has the source of the next one. -/
structure IngestRequest.Sound (q : IngestRequest) (rows : List MetricSource) : Prop where
  stored : ∃ done, q.batch = done ++ q.rest ∧ List.Forall₂ (Shows rows) q.points done
  found : ∀ sourceId a rest, q.phase = .found sourceId → q.rest = a :: rest →
    ∃ src ∈ rows, src.id = sourceId ∧ src.name = a.sourceName
  inserting : ∀ row a rest, q.phase = .inserting row → q.rest = a :: rest → row.name = a.sourceName

private theorem IngestRequest.Sound.mono (hrows : rows ⊆ rows') (h : q.Sound rows) : q.Sound rows' where
  stored := h.stored.imp fun _ hdone => ⟨hdone.1, shows_mono hrows hdone.2⟩
  found := fun sourceId a rest hphase hrest =>
    (h.found sourceId a rest hphase hrest).imp fun _ hsrc => ⟨hrows hsrc.1, hsrc.2⟩
  inserting := h.inserting

/-- The committed points show the log, and the sources have unique names and ids. -/
structure MetricStore.Sound (s : MetricStore) : Prop where
  names : s.sources.UniqueKey (·.name)
  ids : s.sources.UniqueKey (·.id)
  requests : ∀ r q, s.requests r = some q → q.Sound (s.sources.visible r)
  log : List.Forall₂ (Shows s.sources.committed) s.points s.log
  cleanups : ∀ r ids, s.cleanups r = some ids → s.replay.deleted r = ids

namespace MetricStore.Sound

private theorem empty : MetricStore.empty.Sound where
  names := .empty
  ids := .empty
  requests := fun _ _ h => by cases h
  log := .nil
  cleanups := fun _ _ h => by cases h

private theorem replay_commit : (s.commit r q).replay = s.replay.after (.accepted q.batch) := by
  simp [MetricStore.replay, MetricStore.commit]

private theorem replay_deleteOldMetrics (cutoff : Timestamp) :
    (s.deleteOldMetrics r cutoff).replay = s.replay.after (.deleted r cutoff) := by
  simp [MetricStore.replay, MetricStore.deleteOldMetrics]

private theorem replay_commitCleanup (ids : List PointId) :
    (s.commitCleanup r ids).replay = s.replay.after (.expired r) := by
  simp [MetricStore.replay, MetricStore.commitCleanup]

/-- Other requests are as they were, up to the sources that they see. -/
private theorem others (inv : s.Sound) {t : MetricStore} (hreq : ∀ u ≠ r, t.requests u = s.requests u)
    (hvisible : ∀ u ≠ r, s.sources.visible u ⊆ t.sources.visible u)
    (hown : ∀ q, t.requests r = some q → q.Sound (t.sources.visible r)) :
    ∀ u q, t.requests u = some q → q.Sound (t.sources.visible u) := by
  intro u q hq
  by_cases hu : u = r
  · subst hu
    exact hown q hq
  · rw [hreq u hu] at hq
    exact (inv.requests u q hq).mono (hvisible u hu)

/-- A request goes on without an insert of a source. -/
private theorem setRequest (inv : s.Sound) (hq : q.Sound (s.sources.visible r)) : (s.setRequest r q).Sound where
  names := inv.names
  ids := inv.ids
  requests := inv.others (r := r) (fun u hu => Function.update_of_ne hu _ _) (fun _ _ _ h => h) (by
    intro q' hq'
    cases (Function.update_self ..).symm.trans hq'
    exact hq)
  log := inv.log
  cleanups := inv.cleanups

private theorem insert (inv : s.Sound) {row : MetricSource} (h : s.requests r = some q)
    (hphase : q.phase = .inserting row) (hname : s.sources.Free (·.name) row.name)
    (hid : s.sources.Free (·.id) row.id) :
    ({ s with sources := s.sources.insert r row }.setRequest r { q with phase := .found row.id }).Sound where
  names := inv.names.insert hname
  ids := inv.ids.insert hid
  requests := by
    have hvisible : (s.sources.insert r row).visible r = s.sources.visible r ++ [row] := Insertions.insert_visible
    have hsound : q.Sound ((s.sources.insert r row).visible r) :=
      (inv.requests r q h).mono (hvisible ▸ List.subset_append_left _ _)
    refine inv.others (r := r) (fun u hu => Function.update_of_ne hu _ _)
      (fun u hu => (Insertions.insert_visible_of_ne hu).symm ▸ List.Subset.refl _) (fun q' hq' => ?_)
    cases (Function.update_self ..).symm.trans hq'
    refine ⟨hsound.stored, fun sourceId a rest hfound hrest => ?_, fun _ _ _ h => by cases h⟩
    cases hfound
    exact ⟨row, hvisible ▸ List.mem_append_right _ List.mem_cons_self, rfl, hsound.inserting row a rest hphase hrest⟩
  log := inv.log
  cleanups := inv.cleanups

private theorem commit (inv : s.Sound) (h : s.requests r = some q) (hrest : q.rest = []) :
    (s.commit r q).Sound where
  names := inv.names.commit
  ids := inv.ids.commit
  requests := inv.others (r := r) (fun u hu => Function.update_of_ne hu _ _)
    (fun u hu => Insertions.visible_subset_commit hu)
    (fun q' hq' => by cases (Function.update_self ..).symm.trans hq')
  log := by
    obtain ⟨done, hbatch, hpoints⟩ := (inv.requests r q h).stored
    rw [hrest, List.append_nil] at hbatch
    rw [MetricStore.log, replay_commit, MetricLog.after, hbatch]
    exact List.rel_append (shows_mono (List.subset_append_left _ _) inv.log) hpoints
  cleanups := by
    rw [replay_commit]
    exact inv.cleanups

private theorem rollback (inv : s.Sound) : (s.rollback r).Sound where
  names := inv.names.rollback
  ids := inv.ids.rollback
  requests := inv.others (r := r) (fun u hu => Function.update_of_ne hu _ _)
    (fun u hu => (Insertions.rollback_visible_of_ne hu).symm ▸ List.Subset.refl _)
    (fun q' hq' => by cases (Function.update_self ..).symm.trans hq')
  log := inv.log
  cleanups := inv.cleanups

/-- The points that a cleanup deletes are those that show the metrics it deletes. -/
private theorem deleted_ids (inv : s.Sound) (cutoff : Timestamp) :
    (s.points.filter (fun p => p.timestamp < cutoff)).map (·.id) =
      (s.log.filter (fun a => a.ts < cutoff)).map (·.pointId) := by
  have hfilter := List.rel_filter (p := fun p : MetricDataPoint => decide (p.timestamp < cutoff))
    (q := fun a : Arrival => decide (a.ts < cutoff)) (fun p a h => by simp [h.timestamp]) inv.log
  rw [← List.forall₂_eq_eq_eq, List.forall₂_map_left_iff, List.forall₂_map_right_iff]
  exact hfilter.imp fun _ _ h => h.id

private theorem deleteOldMetrics (inv : s.Sound) (cutoff : Timestamp) : (s.deleteOldMetrics r cutoff).Sound where
  names := inv.names
  ids := inv.ids
  requests := inv.requests
  log := by
    rw [MetricStore.log, replay_deleteOldMetrics]
    exact inv.log
  cleanups := by
    intro u ids hu
    rw [replay_deleteOldMetrics]
    by_cases hur : u = r
    · subst hur
      cases (Function.update_self ..).symm.trans hu
      exact (Function.update_self ..).trans (inv.deleted_ids cutoff).symm
    · exact (Function.update_of_ne hur ..).trans (inv.cleanups u ids ((Function.update_of_ne hur ..).symm.trans hu))

private theorem commitCleanup (inv : s.Sound) {ids : List PointId} (h : s.cleanups r = some ids) :
    (s.commitCleanup r ids).Sound where
  names := inv.names
  ids := inv.ids
  requests := inv.requests
  log := by
    rw [MetricStore.log, replay_commitCleanup, MetricLog.after, inv.cleanups r ids h]
    exact List.rel_filter (fun p a h => by simp [h.id]) inv.log
  cleanups := by
    intro u ids' hu
    rw [replay_commitCleanup]
    by_cases hur : u = r
    · subst hur
      cases (Function.update_self ..).symm.trans hu
    · exact inv.cleanups u ids' ((Function.update_of_ne hur ..).symm.trans hu)

private theorem rollbackCleanup (inv : s.Sound) : (s.rollbackCleanup r).Sound where
  names := inv.names
  ids := inv.ids
  requests := inv.requests
  log := inv.log
  cleanups := by
    intro u ids hu
    by_cases hur : u = r
    · subst hur
      cases (Function.update_self ..).symm.trans hu
    · exact inv.cleanups u ids ((Function.update_of_ne hur ..).symm.trans hu)

private theorem step (inv : s.Sound) (h : MetricStep s s') : s'.Sound := by
  cases h with
  | ingest batch _ =>
    refine inv.setRequest ⟨⟨[], rfl, .nil⟩, fun _ _ _ h => ?_, fun _ _ _ h => ?_⟩ <;> cases h
  | createSource row _ =>
    refine inv.setRequest ⟨⟨[], rfl, .nil⟩, fun _ _ _ _ h => ?_, fun _ _ _ _ h => ?_⟩ <;> cases h
  | @found r q a rest src h hphase hrest hsource =>
    have hfound := List.find?_some hsource
    refine inv.setRequest ⟨(inv.requests r q h).stored, fun sourceId b rest' hid hrest' => ?_,
      fun _ _ _ h => by cases h⟩
    cases hid
    cases hrest.symm.trans hrest'
    exact ⟨src, List.mem_of_find?_eq_some hsource, rfl, of_decide_eq_true hfound⟩
  | @missing r q a rest h hphase hrest _ =>
    refine inv.setRequest ⟨(inv.requests r q h).stored, fun _ _ _ h => (by cases h),
      fun row b rest' hrow hrest' => ?_⟩
    cases hrow
    cases hrest.symm.trans hrest'
    rfl
  | insert h hphase hname hid => exact inv.insert h hphase hname hid
  | @store r q a rest sourceId h hphase hrest =>
    have hsound := inv.requests r q h
    obtain ⟨done, hbatch, hpoints⟩ := hsound.stored
    have hshows : Shows (s.sources.visible r) (a.pointOf sourceId) a :=
      ⟨hsound.found sourceId a rest hphase hrest, rfl⟩
    have hdone : q.batch = (done ++ [a]) ++ rest := by
      rw [hbatch, hrest, List.append_assoc]
      rfl
    refine inv.setRequest ⟨⟨done ++ [a], hdone, List.rel_append hpoints (.cons hshows .nil)⟩,
      fun _ _ _ h => ?_, fun _ _ _ h => ?_⟩ <;> cases h
  | commit h hrest _ => exact inv.commit h hrest
  | fail h => exact inv.rollback
  | deleteOldMetrics cutoff _ => exact inv.deleteOldMetrics cutoff
  | commitCleanup h => exact inv.commitCleanup h
  | rollbackCleanup r => exact inv.rollbackCleanup

end MetricStore.Sound

/-! ### Reads -/

/-- A point that shows a metric is selected once where the query covers the metric, and else not. -/
theorem select_point (hids : (rows.map (·.id)).Nodup) (query : MetricQuery) (h : Shows rows p a) :
    (rows.filter fun src => src.id = p.sourceId ∧ src.name = query.sourceName ∧ query.asks p).map (fun _ => p) =
      if query.Covers a then [p] else [] := by
  obtain ⟨src, hsrc, hid, hname⟩ := h.source
  have hjoin := filter_unique_key (fun src : MetricSource => src.name = query.sourceName ∧ query.asks p) hids hsrc
  have hcovers : (src.name = query.sourceName ∧ query.asks p = true) ↔ query.Covers a := by
    simp [MetricQuery.asks, MetricQuery.Covers, hname, h.metricName, h.timestamp]
  simp only [hid, Bool.decide_and, Bool.decide_eq_true] at hjoin ⊢
  rw [hjoin]
  simp only [Bool.and_eq_true, decide_eq_true_eq, hcovers]
  split <;> rfl

/-- The join selects the points that show what the query covers. -/
theorem select_content (hids : (rows.map (·.id)).Nodup) (query : MetricQuery) {points : List MetricDataPoint}
    {log : List Arrival} (h : List.Forall₂ (Shows rows) points log) :
    (points.flatMap fun p => (rows.filter fun src =>
      src.id = p.sourceId ∧ src.name = query.sourceName ∧ query.asks p).map fun _ => p).map
        MetricDataPoint.content = (log.filter (query.Covers ·)).map Arrival.content := by
  induction h with
  | nil => rfl
  | @cons p a points log h _ ih =>
    rw [List.flatMap_cons, List.map_append, ih, select_point hids query h, List.filter_cons]
    by_cases hc : query.Covers a
    · simp [hc, h.content]
    · simp [hc]

/-- What is selected in a sound store is what the log has for the query. -/
private theorem MetricStore.Sound.select (inv : s.Sound) (query : MetricQuery) :
    (s.select query).map MetricDataPoint.content = (s.log.filter (query.Covers ·)).map Arrival.content :=
  select_content (inv.ids.committed 0) query inv.log

/-! ### The least and the greatest value -/

private theorem floatLe_refl (v : PyFloat) : floatLe v v = true := by
  cases v <;> simp [floatLe]

private theorem floatLe_total (u v : PyFloat) : floatLe u v = true ∨ floatLe v u = true := by
  cases u <;> cases v <;> simp only [floatLe, decide_eq_true_eq] <;> exact le_total _ _

private theorem floatLe_trans {u v w : PyFloat} (h : floatLe u v = true) (h' : floatLe v w = true) :
    floatLe u w = true := by
  have hrank {u v : PyFloat} (h : floatLe u v = true) : floatRank u ≤ floatRank v := by
    cases u <;> cases v <;> first | exact Nat.le_refl _ | exact of_decide_eq_true h
  cases u <;> cases w
  case finite.finite p q =>
    cases v with
    | finite _ => exact decide_eq_true (le_trans (of_decide_eq_true h) (of_decide_eq_true h'))
    | inf sign => cases sign <;> simp [floatLe, floatRank] at h h'
    | nan => simp [floatLe, floatRank] at h'
  all_goals exact decide_eq_true ((hrank h).trans (hrank h'))

/-- Keeping the one or the other of two values that comes first in an order leaves the first of all. -/
private theorem foldl_first (op : PyFloat → PyFloat → PyFloat) (le : PyFloat → PyFloat → Prop)
    (refl : ∀ v, le v v) (trans : ∀ u v w, le u v → le v w → le u w)
    (hop : ∀ u v, op u v = u ∧ le u v ∨ op u v = v ∧ le v u) (vs : List PyFloat) (v : PyFloat) :
    vs.foldl op v ∈ v :: vs ∧ ∀ u ∈ v :: vs, le (vs.foldl op v) u := by
  induction vs generalizing v with
  | nil => exact ⟨List.mem_cons_self, by simpa using refl v⟩
  | cons w vs ih =>
    rw [List.foldl_cons]
    rcases hop v w with ⟨h, hle⟩ | ⟨h, hle⟩ <;> rw [h]
    · obtain ⟨hmem, hfirst⟩ := ih v
      refine ⟨by simp only [List.mem_cons] at hmem ⊢; tauto, fun u hu => ?_⟩
      rcases List.mem_cons.mp hu with rfl | hu
      · exact hfirst u List.mem_cons_self
      · rcases List.mem_cons.mp hu with rfl | hu
        · exact trans _ _ _ (hfirst v List.mem_cons_self) hle
        · exact hfirst u (List.mem_cons_of_mem _ hu)
    · obtain ⟨hmem, hfirst⟩ := ih w
      refine ⟨List.mem_cons_of_mem _ hmem, fun u hu => ?_⟩
      rcases List.mem_cons.mp hu with rfl | hu
      · exact trans _ _ _ (hfirst w List.mem_cons_self) hle
      · exact hfirst u hu

/-- Where the database does not raise, the aggregation has its average and deviation of the values, their number,
and the least and the greatest of them. -/
private theorem MetricQuery.aggregate_of_ne_nil (query : MetricQuery) {pg : FloatAggregates}
    {values : List PyFloat}
    (hne : values ≠ []) {avg stdDev : PyFloat} (havg : pg.avg values = some avg)
    (hstd : pg.stddevPop values = some stdDev) :
    ∃ agg, query.aggregate pg values = some (some agg) ∧ agg.count = values.length ∧ agg.avg = avg ∧
      agg.stdDev = (if stdDev = .nan then .finite 0 else stdDev) ∧ agg.min ∈ values ∧ agg.max ∈ values ∧
      ∀ v ∈ values, floatLe agg.min v = true ∧ floatLe v agg.max = true := by
  obtain ⟨v, vs, rfl⟩ := List.exists_cons_of_ne_nil hne
  obtain ⟨hmin, hlow⟩ := foldl_first floatMin (floatLe · · = true) floatLe_refl (fun _ _ _ => floatLe_trans)
    (fun u w => by
      rcases floatLe_total u w with h | h <;> by_cases h' : floatLe u w = true <;> simp_all [floatMin]) vs v
  obtain ⟨hmax, hhigh⟩ := foldl_first floatMax (fun u w => floatLe w u = true) floatLe_refl
    (fun _ _ _ h h' => floatLe_trans h' h)
    (fun u w => by
      rcases floatLe_total u w with h | h <;> by_cases h' : floatLe u w = true <;> simp_all [floatMax]) vs v
  refine ⟨query.answer avg stdDev v vs, ?_, rfl, rfl, rfl, hmin, hmax, fun u hu => ⟨hlow u hu, hhigh u hu⟩⟩
  rw [aggregate, havg, hstd]
  rfl

/-! ### A request by itself -/

private theorem after_detects_points (st : Stores) {ws : List Write} (h : ∀ w ∈ ws, w.Detects) :
    (st.after ws).session.points = st.session.points := by
  induction ws generalizing st with
  | nil => rfl
  | cons w ws ih =>
    obtain ⟨hw, hws⟩ := List.forall_mem_cons.mp h
    rw [Stores.after_cons, ih (st.apply w) hws]
    cases w with
    | record row => rfl
    | armCooldown key record => rfl
    | _ => exact hw.elim

/-- What `ingest_metric` leaves in the tables of its session. -/
theorem ingestMetric_session (P : Platform) (st : Stores) (a : Arrival) :
    (st.after (P.ingestMetric st a)).session.sources =
        st.session.sources ++ (if st.source a.sourceName = none then [a.source st] else []) ∧
      (st.after (P.ingestMetric st a)).session.points = st.session.points ++ [a.pointOf (a.source st).id] := by
  have hdetects :=
    runDetection_detects P (st.after (P.storeMetric st a)) a.sourceName a.metricName a.value a.recordId
  rw [Platform.ingestMetric, Stores.after_append, (after_detects _ hdetects).2, after_detects_points _ hdetects,
    Platform.storeMetric, getOrCreateSource]
  cases hsource : st.source a.sourceName <;> simp [Stores.apply, Platform.addToSlidingWindow, Arrival.point_eq]

/-- A request that is left alone gets through its next metric: it finds its source, or inserts it and waits for
no one. -/
private theorem next_alone {st : Stores} {rest : List Arrival} (h : s.requests r = some q)
    (hphase : q.phase = .looking) (hrest : q.rest = a :: rest) (hsources : st.session.sources = s.sources.visible r)
    (halone : ∀ u ≠ r, s.sources.pending u = []) (hfresh : ∀ src ∈ s.sources.visible r, src.id ≠ a.sourceId) :
    ∃ s', Run MetricStep s s' ∧
      s'.requests r = some { q with
        rest := rest, phase := .looking, points := q.points ++ [a.pointOf (a.source st).id] } ∧
      s'.sources.visible r = s.sources.visible r ++ (if st.source a.sourceName = none then [a.source st] else []) ∧
      (∀ u ≠ r, s'.sources.pending u = []) ∧ s'.points = s.points ∧ s'.history = s.history := by
  have hlookup : st.source a.sourceName = s.source r a.sourceName := by rw [Stores.source, hsources]; rfl
  cases hsource : s.source r a.sourceName with
  | some src =>
    have hid : a.source st = src := by rw [Arrival.source, hlookup, hsource]; rfl
    have found : Run MetricStep s _ := .single (.found h hphase hrest hsource)
    refine ⟨_, found.tail (.store (Function.update_self ..) rfl hrest), ?_, ?_, halone, rfl, rfl⟩
    · rw [hid]
      exact Function.update_self ..
    · simp [MetricStore.setRequest, hlookup, hsource]
  | none =>
    have hrow : a.source st = { id := a.sourceId, name := a.sourceName } := by
      rw [Arrival.source, hlookup, hsource]
      rfl
    have hname : s.sources.Free (·.name) a.sourceName := .of_alone halone fun src hsrc hname => by
      simpa [hname] using List.find?_eq_none.mp hsource src hsrc
    have hid : s.sources.Free (·.id) a.sourceId := .of_alone halone hfresh
    have missing : Run MetricStep s _ := .single (.missing h hphase hrest hsource)
    have inserted := missing.tail (.insert (Function.update_self ..) rfl hname hid)
    refine ⟨_, inserted.tail (.store (Function.update_self ..) rfl hrest), ?_, ?_, fun u hu => ?_, rfl, rfl⟩
    · rw [hrow]
      exact Function.update_self ..
    · rw [hlookup, hsource, hrow]
      exact Insertions.insert_visible
    · exact (Function.update_of_ne hu _ _).trans (halone u hu)

/-- A request that is left alone commits what `ingest_batch` writes. -/
theorem ingest_alone (P : Platform) {st : Stores} (h : s.requests r = some q) (hphase : q.phase = .looking)
    (hsources : st.session.sources = s.sources.visible r) (hpoints : st.session.points = s.points ++ q.points)
    (halone : ∀ u ≠ r, s.sources.pending u = []) (hids : (q.rest.map (·.sourceId)).Nodup)
    (hfresh : ∀ a ∈ q.rest, ∀ src ∈ s.sources.visible r, src.id ≠ a.sourceId) :
    ∃ s', Run MetricStep s s' ∧ s'.history = s.history ++ [.accepted q.batch] ∧
      s'.sources.committed = (st.after (P.ingestBatch st q.rest)).session.sources ∧
      s'.points = (st.after (P.ingestBatch st q.rest)).session.points := by
  generalize hrest : q.rest = rest at hids hfresh
  induction rest generalizing s st q with
  | nil =>
    refine ⟨s.commit r q, .single (.commit h hrest fun row hrow => ?_), rfl, hsources.symm, hpoints.symm⟩
    rw [hphase] at hrow
    cases hrow
  | cons a rest ih =>
    rw [List.map_cons, List.nodup_cons] at hids
    obtain ⟨hafter, hafterPoints⟩ := ingestMetric_session P st a
    obtain ⟨s₁, run, hq, hvisible, halone₁, hpoints₁, hhistory⟩ :=
      next_alone h hphase hrest hsources halone (hfresh a List.mem_cons_self)
    have hfresh₁ : ∀ b ∈ rest, ∀ src ∈ s₁.sources.visible r, src.id ≠ b.sourceId := by
      intro b hb src hsrc
      rw [hvisible] at hsrc
      rcases List.mem_append.mp hsrc with hsrc | hsrc
      · exact hfresh b (List.mem_cons_of_mem _ hb) src hsrc
      · -- The source has just been created, with the id that was drawn for this metric.
        split at hsrc
        · next hnone =>
          rw [List.mem_singleton.mp hsrc, Arrival.source, hnone]
          exact fun heq => hids.1 (List.mem_map.mpr ⟨b, hb, heq.symm⟩)
        · cases hsrc
    obtain ⟨s', run', hs'⟩ := ih hq rfl (by rw [hafter, hvisible, hsources])
      (by rw [hafterPoints, hpoints, hpoints₁, List.append_assoc]) halone₁ rfl hids.2 hfresh₁
    rw [hhistory] at hs'
    rw [P.ingestBatch_cons, Stores.after_append]
    exact ⟨s', run.trans run', hs'⟩

/-! ### Whole runs -/

/-- In every run of overlapping requests, failures and cleanups, a query lists the metrics of the log that it
covers, each once and in the order of time, and the aggregation is about exactly their values: none where there
is none, and else, if the database does not raise, with what it computes of them. -/
theorem reads_follow_the_log (run : Run MetricStep .empty s) (query : MetricQuery)
    (order : OrderBy fun p : MetricDataPoint => OrderDual.toDual p.timestamp)
    (scan : OrderBy fun _ : MetricDataPoint => ()) (pg : FloatAggregates) :
    (((s.queryMetrics query order).map MetricDataPoint.content).Perm
        ((s.log.filter (query.Covers ·)).map Arrival.content) ∧
      (s.queryMetrics query order).Pairwise fun p p' => p.timestamp ≤ p'.timestamp) ∧
    (s.getAggregation query scan pg = some none ↔ ∀ a ∈ s.log, ¬ query.Covers a) ∧
    ∃ values : List PyFloat, values.Perm ((s.log.filter (query.Covers ·)).map (·.value)) ∧
      ∀ avg stdDev, values ≠ [] → pg.avg values = some avg → pg.stddevPop values = some stdDev →
        ∃ agg, s.getAggregation query scan pg = some (some agg) ∧ agg.count = values.length ∧ agg.avg = avg ∧
          agg.stdDev = (if stdDev = .nan then .finite 0 else stdDev) ∧ agg.min ∈ values ∧ agg.max ∈ values ∧
          ∀ v ∈ values, floatLe agg.min v = true ∧ floatLe v agg.max = true := by
  have inv : s.Sound := run.invariant (fun _ _ inv h => inv.step h) .empty
  have hcontent := inv.select query
  have hvalues : (s.select query).map (·.value) = (s.log.filter (query.Covers ·)).map (·.value) := by
    have h := congrArg (List.map fun c => c.2.2.1) hcontent
    rwa [List.map_map, List.map_map] at h
  have hperm : ((scan.run (s.select query)).map (·.value)).Perm ((s.log.filter (query.Covers ·)).map (·.value)) :=
    hvalues ▸ (scan.perm _).map _
  refine ⟨⟨hcontent ▸ (order.perm _).map _, (order.sorted _).imp id⟩, ?_, _, hperm,
    fun avg stdDev hne havg hstd => query.aggregate_of_ne_nil hne havg hstd⟩
  have hnone (values : List PyFloat) : query.aggregate pg values = some none ↔ values = [] := by
    cases values <;> simp [MetricQuery.aggregate, Option.bind_eq_some_iff]
  rw [MetricStore.getAggregation, hnone, ← List.perm_nil, hperm.congr_left, List.perm_nil]
  simp

private def reading (pointId : PointId) (sourceId : SourceId) (value : Rat) : Arrival where
  sourceName := "host"
  metricName := "cpu"
  value := .finite value
  now := 0
  sourceId := sourceId
  pointId := pointId
  memberId := ""
  recordId := fun _ => ""

private def duringZero : MetricQuery := ⟨"host", "cpu", 0, 0⟩

/-- Two requests come with the first metrics of a source; the one that inserts it later fails. A cleanup that has
gone over the points before the commit leaves what is committed then. -/
private theorem contended : ∃ s, Run MetricStep .empty s ∧ s.log = [reading "p" "s" 1, reading "p'" "s" 3] := by
  have begun : Run MetricStep .empty _ := (Relation.ReflTransGen.single
    (.ingest (r := 0) [reading "p" "s" 1, reading "p'" "s" 3] rfl)).tail (.ingest (r := 1) [reading "q" "t" 2] rfl)
  have missed := (begun.tail (.missing (r := 0) rfl rfl rfl rfl)).tail (.missing (r := 1) rfl rfl rfl rfl)
  have inserted := missed.tail (.insert (r := 0) rfl rfl ⟨nofun, fun _ => nofun⟩ ⟨nofun, fun _ => nofun⟩)
  have stored := (inserted.tail (.store (r := 0) rfl rfl rfl)).tail (.found (r := 0) rfl rfl rfl rfl)
  have deleted := (stored.tail (.store (r := 0) rfl rfl rfl)).tail (.deleteOldMetrics (r := 2) 1 rfl)
  have committed := (deleted.tail (.commit (r := 0) rfl rfl nofun)).tail (.commitCleanup (r := 2) rfl)
  exact ⟨_, committed.tail (.fail (r := 1) rfl), rfl⟩

private def ofOneAndThree : FloatAggregates := ⟨fun _ => some (.finite 2), fun _ => some (.finite 1)⟩

theorem reads_follow_the_log_contended : ∃ s, Run MetricStep .empty s ∧
    ((s.queryMetrics duringZero (OrderBy.stable _)).map (·.id)).Perm ["p", "p'"] ∧
    ∃ agg, s.getAggregation duringZero (OrderBy.stable _) ofOneAndThree = some (some agg) ∧ agg.count = 2 ∧
      agg.avg = .finite 2 ∧ agg.max ∈ [.finite 1, .finite 3] := by
  obtain ⟨s, run, hlog⟩ := contended
  obtain ⟨⟨hperm, _⟩, _, values, hvalues, hagg⟩ :=
    reads_follow_the_log run duringZero (OrderBy.stable _) (OrderBy.stable _) ofOneAndThree
  have hthree : values.Perm [.finite 1, .finite 3] := by
    rw [hlog] at hvalues
    exact hvalues
  have hne : values ≠ [] := by
    rintro rfl
    exact absurd hthree.length_eq (by decide)
  obtain ⟨agg, hagg, hcount, havg, _, _, hmax, _⟩ := hagg (.finite 2) (.finite 1) hne rfl rfl
  refine ⟨s, run, ?_, agg, hagg, hcount.trans hthree.length_eq, havg, hthree.mem_iff.mp hmax⟩
  have hids := hperm.map (·.1)
  rw [hlog, List.map_map] at hids
  exact hids

end BackendProjects.Anomaly
