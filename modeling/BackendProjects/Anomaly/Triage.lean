import BackendProjects.Anomaly.AnomalyStatus
import BackendProjects.Library.Register
import Mathlib.Data.List.Perm.Subperm

/-! The operations on an anomaly record when their sessions overlap. A session writes only the columns that it has
changed, so that a record can come out of no single order of the commits; it still comes out of some order of the
same calls one after the other. -/
namespace BackendProjects.Anomaly
open Library

namespace AnomalyCall

def anomalyId : AnomalyCall → RecordId
  | .acknowledge id _ | .resolve id _ | .markFalsePositive id => id

def change : AnomalyCall → AnomalyRow → AnomalyRow
  | .acknowledge _ acknowledgedBy, rec =>
    { rec with status := "acknowledged", acknowledgedBy := some acknowledgedBy }
  | .resolve _ now, rec => { rec with status := "resolved", resolvedAt := some now }
  | .markFalsePositive _, rec => { rec with status := "false_positive" }

def status : AnomalyCall → String
  | .acknowledge _ _ => "acknowledged"
  | .resolve _ _ => "resolved"
  | .markFalsePositive _ => "false_positive"

def acknowledgedBy? : AnomalyCall → Option (Option String)
  | .acknowledge _ acknowledgedBy => some (some acknowledgedBy)
  | _ => none

def resolvedAt? : AnomalyCall → Option (Option Timestamp)
  | .resolve _ now => some (some now)
  | _ => none

end AnomalyCall

def AnomalyRow.writeBack (old new cur : AnomalyRow) : AnomalyRow :=
  { cur with
    status := Library.writeBack old.status new.status cur.status
    acknowledgedBy := Library.writeBack old.acknowledgedBy new.acknowledgedBy cur.acknowledgedBy
    resolvedAt := Library.writeBack old.resolvedAt new.resolvedAt cur.resolvedAt }

/-- A record, as it is stored or as the retention job has found it, the sessions with what they have loaded, and
the committed calls, the latest first. -/
structure Triage where
  row : AnomalyRow
  deletedBy : Option Timestamp
  sessions : Nat → Option (AnomalyRow × AnomalyCall)
  calls : List AnomalyCall

namespace Triage

def opened (row : AnomalyRow) : Triage := ⟨row, none, fun _ => none, []⟩

/-- Sessions of the three operations and the retention job; the commit of a session whose record is gone raises. -/
inductive Step (s : Triage) : Triage → Prop
  | load (i : Nat) (call : AnomalyCall) (free : s.sessions i = none) (hrow : s.deletedBy = none)
      (hid : call.anomalyId = s.row.id) :
      Step s { s with sessions := Function.update s.sessions i (some (s.row, call)) }
  | commit (i : Nat) {loaded : AnomalyRow} {call : AnomalyCall} (h : s.sessions i = some (loaded, call))
      (hrow : s.deletedBy = none ∨ call.change loaded = loaded) :
      Step s { s with
        row := loaded.writeBack (call.change loaded) s.row
        sessions := Function.update s.sessions i none
        calls := call :: s.calls }
  | rollback (i : Nat) : Step s { s with sessions := Function.update s.sessions i none }
  | cleanupResolved (cutoff : Timestamp) (hrow : s.deletedBy = none) (h : s.row.expired cutoff = true) :
      Step s { s with deletedBy := some cutoff }

def column {A : Type} (col : AnomalyRow → A) (sets : AnomalyCall → Option A) (s : Triage) : Register Nat A where
  value := col s.row
  loaded := fun i => (s.sessions i).map fun session => col session.1
  settings := s.calls.filterMap sets

end Triage

variable {s s' : Triage} {first rec : AnomalyRow} {call : AnomalyCall}

/-! ### The columns -/

/-- A column that is written on its own: calls set it or leave it. -/
structure IsColumn {A : Type} [DecidableEq A] (col : AnomalyRow → A) (sets : AnomalyCall → Option A) : Prop where
  change : ∀ call rec, col (AnomalyCall.change call rec) = (sets call).getD (col rec)
  writeBack : ∀ old new cur : AnomalyRow,
    col (old.writeBack new cur) = Library.writeBack (col old) (col new) (col cur)

private theorem isColumn_status : IsColumn (·.status) (fun call => some call.status) where
  change := fun call _ => by cases call <;> rfl
  writeBack := fun _ _ _ => rfl

private theorem isColumn_acknowledgedBy : IsColumn (·.acknowledgedBy) AnomalyCall.acknowledgedBy? where
  change := fun call _ => by cases call <;> rfl
  writeBack := fun _ _ _ => rfl

private theorem isColumn_resolvedAt : IsColumn (·.resolvedAt) AnomalyCall.resolvedAt? where
  change := fun call _ => by cases call <;> rfl
  writeBack := fun _ _ _ => rfl

section Column
variable {A : Type} [DecidableEq A] {col : AnomalyRow → A} {sets : AnomalyCall → Option A}

omit [DecidableEq A] in
/-- One session that is opened or ends, in the view of a column. -/
private theorem Triage.column_update (row : AnomalyRow) (deletedBy : Option Timestamp) (i : Nat)
    (session : Option (AnomalyRow × AnomalyCall)) (calls : List AnomalyCall) :
    Triage.column col sets ⟨row, deletedBy, Function.update s.sessions i session, calls⟩ =
      ⟨col row, Function.update (s.column col sets).loaded i (session.map fun session => col session.1),
        calls.filterMap sets⟩ := by
  rw [Triage.column, Register.mk.injEq]
  refine ⟨rfl, ?_, rfl⟩
  funext j
  by_cases hj : j = i
  · subst hj
    simp
  · simp [Triage.column, Function.update_of_ne hj]

/-- Whatever happens to the record is a step of the column, or leaves it alone. -/
private theorem Triage.Step.column (hcol : IsColumn col sets) (h : Triage.Step s s') :
    s'.column col sets = s.column col sets ∨ Register.Step (s.column col sets) (s'.column col sets) := by
  cases h with
  | load i call free hrow hid =>
    right
    rw [Triage.column_update]
    exact .load i
  | rollback i =>
    right
    rw [Triage.column_update]
    exact .close i
  | cleanupResolved cutoff hrow h => exact Or.inl rfl
  | @commit i loaded call h hrow =>
    right
    rw [Triage.column_update, hcol.writeBack, hcol.change]
    have hloaded : (s.column col sets).loaded i = some (col loaded) := by simp [Triage.column, h]
    cases hsets : sets call with
    | none =>
      rw [List.filterMap_cons_none hsets, Option.getD_none, Library.writeBack_same]
      exact .close i
    | some new =>
      rw [List.filterMap_cons_some hsets, Option.getD_some]
      exact .set i new hloaded

/-- The column after calls one after the other: what the last call sets that sets it. -/
private theorem IsColumn.foldl (hcol : IsColumn col sets) (calls : List AnomalyCall) (rec : AnomalyRow) :
    col (calls.foldl (fun rec call => call.change rec) rec) = ((calls.filterMap sets).getLast?).getD (col rec) := by
  induction calls using List.reverseRecOn with
  | nil => rfl
  | append_singleton calls call ih =>
    rw [List.foldl_append, List.foldl_cons, List.foldl_nil, hcol.change, ih, List.filterMap_append]
    cases hsets : sets call with
    | none => simp [hsets]
    | some new => simp [hsets]

/-- After calls one after the other, a column that was set shows what those that come last have set. -/
private theorem Triage.foldl_column (hcol : IsColumn col sets) (sound : (s.column col sets).Sound (col first))
    {rest ending : List AnomalyCall} (hperm : (rest ++ ending).Perm s.calls)
    (h : s.calls.filterMap sets = [] ∨ (ending.filterMap sets).getLast? = some (col s.row)) :
    col ((rest ++ ending).foldl (fun rec call => call.change rec) first) = col s.row := by
  rw [hcol.foldl]
  rcases h with hnone | hlast
  · have horder : (rest ++ ending).filterMap sets = [] := by
      rw [← List.perm_nil, ← hnone]
      exact hperm.filterMap sets
    rw [horder]
    exact (sound.untouched hnone).1.symm
  · rw [List.filterMap_append, List.getLast?_append, hlast]
    rfl

private theorem sound_column (hcol : IsColumn col sets) {value : A} (h : Triage.Step s s')
    (sound : (s.column col sets).Sound value) : (s'.column col sets).Sound value := by
  rcases h.column hcol with heq | hstep
  · rwa [heq]
  · exact sound.step hstep

end Column

/-! ### One after the other -/

private theorem AnomalyCall.change_id (call : AnomalyCall) (rec : AnomalyRow) : (call.change rec).id = rec.id := by
  cases call <;> rfl

/-- A call on the only record of a table changes this record. -/
private theorem AnomalyCall.perform_singleton (hid : call.anomalyId = rec.id) : call.perform [rec] =
    [call.change rec] := by
  cases call <;>
    (cases hid
     simp [AnomalyCall.perform, AnomalyCall.change, acknowledgeAnomaly, resolveAnomaly, Anomaly.markFalsePositive,
       changeAnomaly, getAnomaly])

private theorem afterCalls_singleton {calls : List AnomalyCall} (hid : ∀ call ∈ calls, call.anomalyId = rec.id) :
    afterCalls [rec] calls = [calls.foldl (fun rec call => call.change rec) rec] := by
  induction calls generalizing rec with
  | nil => rfl
  | cons call calls ih =>
    rw [List.forall_mem_cons] at hid
    rw [afterCalls, List.foldl_cons, List.foldl_cons, AnomalyCall.perform_singleton hid.1]
    exact ih fun other hother => (hid.2 other hother).trans (call.change_id rec).symm

/-- Calls that can come last so that a column shows one of the values that were set. -/
structure Ending (calls ending : List AnomalyCall) (row : AnomalyRow) : Prop where
  nodup : ending.Nodup
  subset : ending ⊆ calls
  status : (ending.filterMap fun call => some call.status).getLast? = some row.status
  acknowledgedBy : calls.filterMap AnomalyCall.acknowledgedBy? = [] ∨
    (ending.filterMap AnomalyCall.acknowledgedBy?).getLast? = some row.acknowledgedBy
  resolvedAt : calls.filterMap AnomalyCall.resolvedAt? = [] ∨
    (ending.filterMap AnomalyCall.resolvedAt?).getLast? = some row.resolvedAt

private theorem acknowledges_of_mem {calls : List AnomalyCall} {value : Option String}
    (h : value ∈ calls.filterMap AnomalyCall.acknowledgedBy?) :
    ∃ id acknowledgedBy, .acknowledge id acknowledgedBy ∈ calls ∧ value = some acknowledgedBy := by
  obtain ⟨call, hcall, hvalue⟩ := List.mem_filterMap.mp h
  cases call <;> cases hvalue
  exact ⟨_, _, hcall, rfl⟩

private theorem resolves_of_mem {calls : List AnomalyCall} {value : Option Timestamp}
    (h : value ∈ calls.filterMap AnomalyCall.resolvedAt?) :
    ∃ id now, .resolve id now ∈ calls ∧ value = some now := by
  obtain ⟨call, hcall, hvalue⟩ := List.mem_filterMap.mp h
  cases call <;> cases hvalue
  exact ⟨_, _, hcall, rfl⟩

/-- Every column shows a value that was set, so that the calls that have set these values can come last. -/
theorem exists_ending {calls : List AnomalyCall} {row : AnomalyRow}
    (hstatus : row.status ∈ calls.filterMap fun call => some call.status)
    (hacknowledged : calls.filterMap AnomalyCall.acknowledgedBy? = [] ∨
      row.acknowledgedBy ∈ calls.filterMap AnomalyCall.acknowledgedBy?)
    (hresolved : calls.filterMap AnomalyCall.resolvedAt? = [] ∨
      row.resolvedAt ∈ calls.filterMap AnomalyCall.resolvedAt?) : ∃ ending, Ending calls ending row := by
  obtain ⟨last, hlast, hlastStatus⟩ := List.mem_filterMap.mp hstatus
  have hrow := Option.some.inj hlastStatus
  have hack := hacknowledged.imp_right acknowledges_of_mem
  have hres := hresolved.imp_right resolves_of_mem
  -- The call that has set the status comes last, and it has a companion that sets the same and its column.
  cases last with
  | acknowledge id by' =>
    obtain hnone | ⟨ackId, acknowledgedBy, ha, hby⟩ := hack
    · cases List.filterMap_eq_nil_iff.mp hnone _ hlast
    obtain hnone | ⟨resId, now, hr, hnow⟩ := hres
    · exact ⟨[.acknowledge ackId acknowledgedBy], by simp, by simp [ha], congrArg some hrow,
        Or.inr (congrArg some hby.symm), Or.inl hnone⟩
    · exact ⟨[.resolve resId now, .acknowledge ackId acknowledgedBy], by simp, by simp [ha, hr], congrArg some hrow,
        Or.inr (congrArg some hby.symm), Or.inr (congrArg some hnow.symm)⟩
  | resolve id now' =>
    obtain hnone | ⟨resId, now, hr, hnow⟩ := hres
    · cases List.filterMap_eq_nil_iff.mp hnone _ hlast
    obtain hnone | ⟨ackId, acknowledgedBy, ha, hby⟩ := hack
    · exact ⟨[.resolve resId now], by simp, by simp [hr], congrArg some hrow, Or.inl hnone,
        Or.inr (congrArg some hnow.symm)⟩
    · exact ⟨[.acknowledge ackId acknowledgedBy, .resolve resId now], by simp, by simp [ha, hr], congrArg some hrow,
        Or.inr (congrArg some hby.symm), Or.inr (congrArg some hnow.symm)⟩
  | markFalsePositive id =>
    obtain hnone | ⟨ackId, acknowledgedBy, ha, hby⟩ := hack <;> obtain hnone' | ⟨resId, now, hr, hnow⟩ := hres
    · exact ⟨[.markFalsePositive id], by simp, by simp [hlast], congrArg some hrow, Or.inl hnone, Or.inl hnone'⟩
    · exact ⟨[.resolve resId now, .markFalsePositive id], by simp, by simp [hr, hlast], congrArg some hrow,
        Or.inl hnone, Or.inr (congrArg some hnow.symm)⟩
    · exact ⟨[.acknowledge ackId acknowledgedBy, .markFalsePositive id], by simp, by simp [ha, hlast],
        congrArg some hrow, Or.inr (congrArg some hby.symm), Or.inl hnone'⟩
    · exact ⟨[.acknowledge ackId acknowledgedBy, .resolve resId now, .markFalsePositive id], by simp,
        by simp [ha, hr, hlast], congrArg some hrow, Or.inr (congrArg some hby.symm),
        Or.inr (congrArg some hnow.symm)⟩

/-- Such calls do come last in some order of all of them. -/
private theorem Ending.exists_order {calls ending : List AnomalyCall} {row : AnomalyRow}
    (h : Ending calls ending row) :
    ∃ rest, (rest ++ ending).Perm calls := by
  obtain ⟨whole, hwhole, hsub⟩ := List.subperm_iff.mp (List.subperm_of_subset h.nodup h.subset)
  obtain ⟨rest, hrest⟩ := hsub.exists_perm_append
  exact ⟨rest, List.perm_append_comm.trans (hrest.symm.trans hwhole)⟩

/-! ### Runs -/

structure Triage.Kept (first : AnomalyRow) (s : Triage) : Prop where
  status : (s.column (·.status) fun call => some call.status).Sound first.status
  acknowledgedBy : (s.column (·.acknowledgedBy) AnomalyCall.acknowledgedBy?).Sound first.acknowledgedBy
  resolvedAt : (s.column (·.resolvedAt) AnomalyCall.resolvedAt?).Sound first.resolvedAt
  sameRecord : s.row.toAnomalyRecord = { first.toAnomalyRecord with status := s.row.status }
  sessionId : ∀ i loaded call, s.sessions i = some (loaded, call) → call.anomalyId = first.id
  callId : ∀ call ∈ s.calls, call.anomalyId = first.id
  expired : ∀ cutoff, s.deletedBy = some cutoff → s.row.expired cutoff = true

private theorem Triage.Kept.init (first : AnomalyRow) : Triage.Kept first (.opened first) where
  status := .init first.status
  acknowledgedBy := .init first.acknowledgedBy
  resolvedAt := .init first.resolvedAt
  sameRecord := rfl
  sessionId := fun _ _ _ h => by cases h
  callId := List.forall_mem_nil _
  expired := fun _ h => by cases h

private theorem Triage.Kept.id_eq (inv : Triage.Kept first s) : s.row.id = first.id := by
  rw [inv.sameRecord]

private theorem Triage.Kept.step (inv : Triage.Kept first s) (h : Triage.Step s s') : Triage.Kept first s' := by
  have hstatus := sound_column isColumn_status h inv.status
  have hacknowledged := sound_column isColumn_acknowledgedBy h inv.acknowledgedBy
  have hresolved := sound_column isColumn_resolvedAt h inv.resolvedAt
  cases h with
  | load i call free hrow hid =>
    refine ⟨hstatus, hacknowledged, hresolved, inv.sameRecord, fun j loaded other hj => ?_, inv.callId, inv.expired⟩
    rcases update_eq_some hj with hcall | hj
    · cases hcall
      exact hid.trans inv.id_eq
    · exact inv.sessionId j loaded other hj
  | @commit i loaded call hi hrow =>
    refine ⟨hstatus, hacknowledged, hresolved, ?_, fun j loaded other hj => ?_, ?_, fun cutoff hcutoff => ?_⟩
    · rw [AnomalyRow.writeBack, inv.sameRecord]
    · exact inv.sessionId j loaded other ((update_eq_some hj).resolve_left (by simp))
    · exact List.forall_mem_cons.mpr ⟨inv.sessionId i loaded call hi, inv.callId⟩
    · -- A record that is gone is only committed by a session that has changed nothing.
      have hsame : call.change loaded = loaded := hrow.resolve_left (by rw [hcutoff]; simp)
      rw [hsame]
      simpa [AnomalyRow.writeBack] using inv.expired cutoff hcutoff
  | rollback i =>
    refine ⟨hstatus, hacknowledged, hresolved, inv.sameRecord, fun j loaded other hj => ?_, inv.callId, inv.expired⟩
    exact inv.sessionId j loaded other ((update_eq_some hj).resolve_left (by simp))
  | cleanupResolved cutoff hrow hexpired =>
    refine ⟨hstatus, hacknowledged, hresolved, inv.sameRecord, inv.sessionId, inv.callId, fun other hother => ?_⟩
    cases hother
    exact hexpired

/-- Two versions of a record are equal if they agree in the three columns. -/
private theorem row_eq {row : AnomalyRow}
    (hsame : rec.toAnomalyRecord = { first.toAnomalyRecord with status := rec.status })
    (hsame' : row.toAnomalyRecord = { first.toAnomalyRecord with status := row.status })
    (hstatus : rec.status = row.status) (hacknowledged : rec.acknowledgedBy = row.acknowledgedBy)
    (hresolved : rec.resolvedAt = row.resolvedAt) : rec = row := by
  have hrecord : rec.toAnomalyRecord = row.toAnomalyRecord := by rw [hsame, hsame', hstatus]
  cases rec
  cases row
  rw [AnomalyRow.mk.injEq]
  exact ⟨hrecord, hacknowledged, hresolved⟩

private theorem foldl_change_sameRecord (calls : List AnomalyCall) (rec : AnomalyRow) :
    (calls.foldl (fun rec call => call.change rec) rec).toAnomalyRecord =
      { rec.toAnomalyRecord with status := (calls.foldl (fun rec call => call.change rec) rec).status } := by
  induction calls generalizing rec with
  | nil => rfl
  | cons call calls ih =>
    rw [List.foldl_cons, ih]
    cases call <;> rfl

/-- The record is what its calls make of it in some order, one after the other. -/
private theorem Triage.Kept.exists_order (inv : Triage.Kept first s) :
    ∃ order : List AnomalyCall, order.Perm s.calls ∧
      order.foldl (fun rec call => call.change rec) first = s.row := by
  rcases inv.status.settled with hnone | hstatus
  · -- No call has been committed.
    have hcalls : s.calls = [] := by
      refine List.eq_nil_iff_forall_not_mem.mpr fun call hcall => ?_
      cases List.filterMap_eq_nil_iff.mp hnone call hcall
    have hnothing {A : Type} (sets : AnomalyCall → Option A) : s.calls.filterMap sets = [] := by
      rw [hcalls, List.filterMap_nil]
    refine ⟨[], by rw [hcalls], row_eq rfl inv.sameRecord ?_ ?_ ?_⟩
    · exact (inv.status.untouched hnone).1.symm
    · exact (inv.acknowledgedBy.untouched (hnothing _)).1.symm
    · exact (inv.resolvedAt.untouched (hnothing _)).1.symm
  · obtain ⟨ending, hending⟩ :=
      exists_ending hstatus inv.acknowledgedBy.settled inv.resolvedAt.settled
    obtain ⟨rest, hperm⟩ := hending.exists_order
    refine ⟨rest ++ ending, hperm, row_eq (foldl_change_sameRecord _ _) inv.sameRecord ?_ ?_ ?_⟩
    · exact Triage.foldl_column isColumn_status inv.status hperm (Or.inr hending.status)
    · exact Triage.foldl_column isColumn_acknowledgedBy inv.acknowledgedBy hperm hending.acknowledgedBy
    · exact Triage.foldl_column isColumn_resolvedAt inv.resolvedAt hperm hending.resolvedAt

/-- However the sessions of the three operations overlap, with one another and with the retention job, the record
is what the same calls make of it in some order, one committed after the other; and a record that the job has
deleted is one that it deletes after this order too. -/
theorem overlapping_calls_have_an_order {s : Triage} {first : AnomalyRow}
    (run : Run Triage.Step (.opened first) s) : ∃ order : List AnomalyCall,
      order.Perm s.calls ∧ afterCalls [first] order = [s.row] ∧
        ∀ cutoff, s.deletedBy = some cutoff → cleanupResolved (afterCalls [first] order) cutoff = [] := by
  have inv : Triage.Kept first s := run.invariant (fun _ _ inv h => inv.step h) (.init first)
  obtain ⟨order, hperm, hfold⟩ := inv.exists_order
  have hafter : afterCalls [first] order = [s.row] := by
    rw [afterCalls_singleton fun call hcall => inv.callId call (hperm.mem_iff.mp hcall), hfold]
  refine ⟨order, hperm, hafter, fun cutoff hdeleted => ?_⟩
  rw [hafter, cleanupResolved, List.filter_eq_nil_iff]
  intro r hr
  rw [List.mem_singleton.mp hr, inv.expired cutoff hdeleted]
  simp

private def wronglyReported : AnomalyRow where
  id := "a"
  sourceId := "s"
  metricName := "cpu"
  detectorType := "zscore"
  severity := "high"
  score := .finite 4
  expectedValue := none
  actualValue := .finite 9
  deviation := .finite 5
  reason := "far away"
  status := "false_positive"
  acknowledgedBy := some "ops"

/-- It is neither the order in which the sessions began nor the one in which they were committed: the first one
acknowledges last, but under the name that it has loaded and so leaves the name that was given meanwhile. -/
theorem overlapping_calls_have_an_order_late : ∃ s : Triage, Run Triage.Step (.opened wronglyReported) s ∧
    s.calls = [.acknowledge "a" "ops", .resolve "a" 60, .acknowledge "a" "dev"] ∧
    afterCalls [wronglyReported] [.acknowledge "a" "ops", .acknowledge "a" "dev", .resolve "a" 60] ≠ [s.row] ∧
    afterCalls [wronglyReported] s.calls.reverse ≠ [s.row] ∧
    ∃ order : List AnomalyCall, order.Perm s.calls ∧ afterCalls [wronglyReported] order = [s.row] := by
  have first : Run Triage.Step (.opened wronglyReported) _ := .single (.load 0 (.acknowledge "a" "ops") rfl rfl rfl)
  have second := (first.tail (.load 1 (.acknowledge "a" "dev") rfl rfl rfl)).tail (.commit 1 rfl (Or.inl rfl))
  have third := (second.tail (.load 2 (.resolve "a" 60) rfl rfl rfl)).tail (.commit 2 rfl (Or.inl rfl))
  have run := third.tail (.commit 0 rfl (Or.inl rfl))
  obtain ⟨order, hperm, hafter, _⟩ := overlapping_calls_have_an_order run
  refine ⟨_, run, rfl, fun h => ?_, fun h => ?_, order, hperm, hafter⟩
  · have hstatus := congrArg (List.map (·.status)) h
    revert hstatus
    decide +kernel
  · have hname := congrArg (List.map (·.acknowledgedBy)) h
    revert hname
    decide +kernel

end BackendProjects.Anomaly
