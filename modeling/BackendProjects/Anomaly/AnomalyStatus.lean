import BackendProjects.Anomaly.Stores

/-! The life of an anomaly record: three operations that nothing guards, and the retention job that looks
at what they leave. -/
namespace BackendProjects.Anomaly

/-- A row of `anomaly_records`, with the columns that the operations change. -/
structure AnomalyRow extends AnomalyRecord where
  acknowledgedBy : Option String := none
  resolvedAt : Option Timestamp := none

def getAnomaly (rows : List AnomalyRow) (anomalyId : RecordId) : Option AnomalyRow :=
  rows.find? (fun r => r.id = anomalyId)

def changeAnomaly (rows : List AnomalyRow) (anomalyId : RecordId) (change : AnomalyRow → AnomalyRow) :
    Option AnomalyRow × List AnomalyRow :=
  match getAnomaly rows anomalyId with
  | none => (none, rows)
  | some rec => (some (change rec), rows.map (fun r => if r.id = anomalyId then change rec else r))

def acknowledgeAnomaly (rows : List AnomalyRow) (anomalyId : RecordId) (acknowledgedBy : String) :
    Option AnomalyRow × List AnomalyRow :=
  changeAnomaly rows anomalyId
    (fun rec => { rec with status := "acknowledged", acknowledgedBy := some acknowledgedBy })

def resolveAnomaly (rows : List AnomalyRow) (anomalyId : RecordId) (now : Timestamp) :
    Option AnomalyRow × List AnomalyRow :=
  changeAnomaly rows anomalyId (fun rec => { rec with status := "resolved", resolvedAt := some now })

def markFalsePositive (rows : List AnomalyRow) (anomalyId : RecordId) : Option AnomalyRow × List AnomalyRow :=
  changeAnomaly rows anomalyId (fun rec => { rec with status := "false_positive" })

def AnomalyRow.expired (cutoff : Timestamp) (r : AnomalyRow) : Bool :=
  r.status = "resolved" ∧ r.resolvedAt.isSome ∧ r.resolvedAt.any (· < cutoff)

def cleanupResolved (rows : List AnomalyRow) (cutoff : Timestamp) : List AnomalyRow :=
  rows.filter (fun r => ¬ r.expired cutoff)

inductive AnomalyCall where
  | acknowledge (anomalyId : RecordId) (acknowledgedBy : String)
  | resolve (anomalyId : RecordId) (now : Timestamp)
  | markFalsePositive (anomalyId : RecordId)

def AnomalyCall.perform (rows : List AnomalyRow) : AnomalyCall → List AnomalyRow
  | .acknowledge anomalyId acknowledgedBy => (acknowledgeAnomaly rows anomalyId acknowledgedBy).2
  | .resolve anomalyId now => (resolveAnomaly rows anomalyId now).2
  | .markFalsePositive anomalyId => (Anomaly.markFalsePositive rows anomalyId).2

def afterCalls (rows : List AnomalyRow) (calls : List AnomalyCall) : List AnomalyRow :=
  calls.foldl AnomalyCall.perform rows

variable {rows : List AnomalyRow} {id : RecordId} {rec : AnomalyRow}

private theorem getAnomaly_mem (h : getAnomaly rows id = some rec) : rec ∈ rows ∧ rec.id = id :=
  ⟨List.mem_of_find?_eq_some h, by simpa using List.find?_some h⟩

/-- An operation changes the record that it is called with, and no other. -/
theorem getAnomaly_change (h : getAnomaly rows id = some rec) (anomalyId : RecordId)
    (change : AnomalyRow → AnomalyRow) (hkeep : ∀ r, (change r).id = r.id) :
    getAnomaly (changeAnomaly rows anomalyId change).2 id =
      some (if anomalyId = id then change rec else rec) := by
  unfold changeAnomaly
  cases hfound : getAnomaly rows anomalyId with
  | none =>
    have hne : anomalyId ≠ id := by
      rintro rfl
      rw [h] at hfound
      cases hfound
    rw [if_neg hne]
    exact h
  | some found =>
    obtain ⟨-, hid⟩ := getAnomaly_mem hfound
    have hsame : ((fun r : AnomalyRow => decide (r.id = id)) ∘
        fun r => if r.id = anomalyId then change found else r) = fun r => decide (r.id = id) := by
      funext r
      simp only [Function.comp_apply]
      split
      · next heq => rw [hkeep, hid, heq]
      · rfl
    rw [getAnomaly, List.find?_map, hsame]
    have h' : rows.find? (fun r => decide (r.id = id)) = some rec := h
    rw [h', Option.map_some, (getAnomaly_mem h).2]
    by_cases heq : anomalyId = id
    · subst heq
      cases hfound.symm.trans h
      simp
    · simp [heq, Ne.symm heq]

/-- What one call can make of a record. -/
theorem getAnomaly_perform (h : getAnomaly rows id = some rec) (call : AnomalyCall) :
    ∃ rec', getAnomaly (call.perform rows) id = some rec' ∧
      (rec' = rec ∨ (∃ acknowledgedBy, rec' =
          { rec with status := "acknowledged", acknowledgedBy := some acknowledgedBy }) ∨
        (∃ now, call = .resolve id now ∧ rec' = { rec with status := "resolved", resolvedAt := some now }) ∨
        rec' = { rec with status := "false_positive" }) := by
  cases call with
  | acknowledge anomalyId acknowledgedBy =>
    refine ⟨_, getAnomaly_change h anomalyId _ (fun _ => rfl), ?_⟩
    split
    · exact Or.inr (Or.inl ⟨acknowledgedBy, rfl⟩)
    · exact Or.inl rfl
  | resolve anomalyId now =>
    refine ⟨_, getAnomaly_change h anomalyId _ (fun _ => rfl), ?_⟩
    split
    · next heq => exact Or.inr (Or.inr (Or.inl ⟨now, heq ▸ rfl, rfl⟩))
    · exact Or.inl rfl
  | markFalsePositive anomalyId =>
    refine ⟨_, getAnomaly_change h anomalyId _ (fun _ => rfl), ?_⟩
    split
    · exact Or.inr (Or.inr (Or.inr rfl))
    · exact Or.inl rfl

/-- A resolved record has its time, and a time comes from before or from a call that resolves it. -/
theorem getAnomaly_afterCalls (h : getAnomaly rows id = some rec)
    (htimed : rec.status = "resolved" → rec.resolvedAt.isSome) (calls : List AnomalyCall) :
    ∃ rec', getAnomaly (afterCalls rows calls) id = some rec' ∧
      (rec'.status = "resolved" → rec'.resolvedAt.isSome) ∧
      (rec'.resolvedAt.isSome → rec.resolvedAt.isSome ∨ ∃ now, .resolve id now ∈ calls) := by
  induction calls generalizing rows rec with
  | nil => exact ⟨rec, h, htimed, Or.inl⟩
  | cons call calls ih =>
    obtain ⟨next, hnext, hcases⟩ := getAnomaly_perform h call
    have hnextTimed : next.status = "resolved" → next.resolvedAt.isSome := by
      rcases hcases with rfl | ⟨_, rfl⟩ | ⟨now, -, rfl⟩ | rfl
      · exact htimed
      · exact fun hstatus => absurd hstatus (show "acknowledged" ≠ "resolved" by decide)
      · exact fun _ => rfl
      · exact fun hstatus => absurd hstatus (show "false_positive" ≠ "resolved" by decide)
    obtain ⟨rec', hrec', htimed', hfrom⟩ := ih hnext hnextTimed
    refine ⟨rec', hrec', htimed', fun hset => ?_⟩
    rcases hfrom hset with hset | ⟨now, hnow⟩
    · rcases hcases with rfl | ⟨_, rfl⟩ | ⟨now, rfl, -⟩ | rfl
      · exact Or.inl hset
      · exact Or.inl hset
      · exact Or.inr ⟨now, List.mem_cons_self⟩
      · exact Or.inl hset
    · exact Or.inr ⟨now, List.mem_cons_of_mem _ hnow⟩

/-- After any calls, a resolved record has its time, only a record that was resolved has one, and the
retention job deletes a record exactly when it is resolved and its time is before the cutoff. -/
theorem resolved_at_of_status {rows : List AnomalyRow} {id : RecordId} {rec : AnomalyRow}
    (h : getAnomaly rows id = some rec) (htimed : rec.status = "resolved" → rec.resolvedAt.isSome)
    (calls : List AnomalyCall) : ∃ rec', getAnomaly (afterCalls rows calls) id = some rec' ∧
      (rec'.status = "resolved" → rec'.resolvedAt.isSome) ∧
      (rec'.resolvedAt.isSome → rec.resolvedAt.isSome ∨ ∃ now, .resolve id now ∈ calls) ∧
      ∀ cutoff, rec' ∉ cleanupResolved (afterCalls rows calls) cutoff ↔
        rec'.status = "resolved" ∧ ∀ t ∈ rec'.resolvedAt, t < cutoff := by
  obtain ⟨rec', hrec', htimed', hfrom⟩ := getAnomaly_afterCalls h htimed calls
  refine ⟨rec', hrec', htimed', hfrom, fun cutoff => ?_⟩
  have hmem := (getAnomaly_mem hrec').1
  simp only [cleanupResolved, List.mem_filter, hmem, true_and, AnomalyRow.expired, decide_eq_true_eq, not_not]
  refine and_congr_right (fun hstatus => ?_)
  obtain ⟨t, ht⟩ := Option.isSome_iff_exists.mp (htimed' hstatus)
  simp [ht]

private def newAnomaly : AnomalyRow where
  id := "a"
  sourceId := "s"
  metricName := "cpu"
  detectorType := "zscore"
  severity := "high"
  score := .finite 4
  expectedValue := none
  actualValue := .finite 9
  deviation := .finite 5
  reason := "far away"

private def resolvedAnomaly : AnomalyRow :=
  { newAnomaly with id := "b", status := "resolved", resolvedAt := some 60 }

private def reopened : List AnomalyCall := [.acknowledge "b" "ops", .resolve "b" 90]

theorem resolved_at_of_resolved : ∃ rec',
    getAnomaly (afterCalls [newAnomaly, resolvedAnomaly] reopened) "b" = some rec' ∧
    (rec'.status = "resolved" → rec'.resolvedAt.isSome) ∧
    (rec'.resolvedAt.isSome → resolvedAnomaly.resolvedAt.isSome ∨ ∃ now, .resolve "b" now ∈ reopened) ∧
    ∀ cutoff, rec' ∉ cleanupResolved (afterCalls [newAnomaly, resolvedAnomaly] reopened) cutoff ↔
      rec'.status = "resolved" ∧ ∀ t ∈ rec'.resolvedAt, t < cutoff :=
  resolved_at_of_status (by rfl) (fun _ => rfl) reopened

/-- A record that is acknowledged after it was resolved keeps the time. -/
theorem acknowledged_with_resolved_at : ∃ rec',
    getAnomaly (afterCalls [newAnomaly] [.resolve "a" 60, .acknowledge "a" "ops"]) "a" = some rec' ∧
    ¬ (rec'.resolvedAt.isSome ↔ rec'.status = "resolved") := by
  refine ⟨{ newAnomaly with
    status := "acknowledged", acknowledgedBy := some "ops", resolvedAt := some 60 }, ?_, ?_⟩
  · rfl
  · decide

end BackendProjects.Anomaly
