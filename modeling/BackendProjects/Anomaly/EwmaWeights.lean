import BackendProjects.Anomaly.Detectors

/-! The moving average as a weighted sum of its history: the first value is weighted by a rule of its own. -/
namespace BackendProjects.Anomaly.Detectors
open Library
variable {K : Type*} [Field K]

def ewmaWeight (alpha : K) (i j : Nat) : K :=
  if j = 0 then (1 - alpha) ^ i else alpha * (1 - alpha) ^ (i - j)

section Recurrence
variable {values : List K} {span i j : Nat} {alpha : K}

private theorem getD_ewmaLoop {arr : List K} {last : K} (hi : i < arr.length) :
    (ewmaLoop alpha last arr).getD i 0 =
      alpha * arr.getD i 0 + (1 - alpha) * (last :: ewmaLoop alpha last arr).getD i 0 := by
  induction arr generalizing last i with
  | nil => exact absurd hi (Nat.not_lt_zero i)
  | cons x arr ih =>
    cases i with
    | zero => simp [ewmaLoop]
    | succ i => simpa [ewmaLoop] using ih (Nat.lt_of_succ_lt_succ hi)

private theorem ewmaSeries_zero (values : List K) (span : Nat) :
    (ewmaSeries values span).getD 0 0 = values.getD 0 0 := by
  cases values <;> rfl

/-- Each average is made of the value at its place and the average before it. -/
theorem ewmaSeries_succ (hi : i + 1 < values.length) :
    (ewmaSeries values span).getD (i + 1) 0 = 2 / (span + 1) * values.getD (i + 1) 0 +
      (1 - 2 / (span + 1)) * (ewmaSeries values span).getD i 0 := by
  cases values with
  | nil => exact absurd hi (Nat.not_lt_zero _)
  | cons x arr => exact getD_ewmaLoop (Nat.lt_of_succ_lt_succ hi)

private theorem ewmaWeight_succ (h : j ≤ i) : ewmaWeight alpha (i + 1) j = (1 - alpha) * ewmaWeight alpha i j := by
  unfold ewmaWeight
  split
  · exact pow_succ' ..
  · rw [Nat.succ_sub h, pow_succ']
    ring

private theorem ewmaWeight_last : ewmaWeight alpha (i + 1) (i + 1) = alpha := by
  simp [ewmaWeight]

/-- One more average keeps the old weights in proportion. -/
theorem ewmaWeight_sum_succ (alpha : K) (i : Nat) (f : Nat → K) :
    ∑ j ∈ Finset.range (i + 2), ewmaWeight alpha (i + 1) j * f j =
      alpha * f (i + 1) + (1 - alpha) * ∑ j ∈ Finset.range (i + 1), ewmaWeight alpha i j * f j := by
  rw [Finset.sum_range_succ, ewmaWeight_last, add_comm, Finset.mul_sum]
  congr 1
  refine Finset.sum_congr rfl fun j hj => ?_
  rw [ewmaWeight_succ (Nat.lt_succ_iff.mp (Finset.mem_range.mp hj)), mul_assoc]

private theorem ewmaSeries_eq_sum (hi : i < values.length) : (ewmaSeries values span).getD i 0 =
    ∑ j ∈ Finset.range (i + 1), ewmaWeight (2 / (span + 1) : K) i j * values.getD j 0 := by
  induction i with
  | zero => rw [ewmaSeries_zero, zero_add, Finset.sum_range_one, ewmaWeight, if_pos rfl, pow_zero, one_mul]
  | succ i ih => rw [ewmaSeries_succ hi, ih (Nat.lt_of_succ_lt hi), ewmaWeight_sum_succ]

private theorem ewmaWeight_sum (alpha : K) (i : Nat) : ∑ j ∈ Finset.range (i + 1), ewmaWeight alpha i j = 1 := by
  induction i with
  | zero => simp [ewmaWeight]
  | succ i ih =>
    have hsucc := ewmaWeight_sum_succ alpha i fun _ => 1
    simp only [mul_one] at hsucc
    rw [hsucc, ih]
    ring

private theorem getD_mem_take {j : Nat} (hj : j ≤ i) (hi : i < values.length) :
    values.getD j 0 ∈ values.take (i + 1) := by
  rw [List.getD_eq_getElem _ _ (by omega), List.mem_take_iff_getElem]
  exact ⟨j, by omega, rfl⟩

end Recurrence

section Bounds
variable [LinearOrder K] [IsStrictOrderedRing K] {values : List K} {span i : Nat}

private theorem ewmaWeight_nonneg (hspan : 1 ≤ span) (i j : Nat) : (0 : K) ≤ ewmaWeight
    (2 / (span + 1) : K) i j := by
  have hcast : (1 : K) ≤ span := Nat.one_le_cast.mpr hspan
  have halpha : (0 : K) ≤ 2 / (span + 1) := by positivity
  have hrest : (0 : K) ≤ 1 - 2 / (span + 1) := by
    rw [sub_nonneg, div_le_one (by positivity)]
    linarith
  unfold ewmaWeight
  split
  · exact pow_nonneg hrest i
  · exact mul_nonneg halpha (pow_nonneg hrest _)

private theorem ewmaSeries_withinRange (hspan : 1 ≤ span) (hi : i < values.length) :
    WithinRange (values.take (i + 1)) ((ewmaSeries values span).getD i 0) := by
  refine withinRange_of_bounds (List.ne_nil_of_mem (getD_mem_take le_rfl hi)) fun lo hi' h => ?_
  rw [ewmaSeries_eq_sum hi]
  exact weighted_bounds (fun j _ => ewmaWeight_nonneg hspan i j) (ewmaWeight_sum _ i)
    fun j hj => h _ (getD_mem_take (Nat.lt_succ_iff.mp hj) hi)

/-- What the detector expects is between the extremes of its history, also where the history is too short. -/
private theorem EWMADetector.expected_withinRange (N : Numerics K) (d : EWMADetector K) (hne : values ≠ [])
    {current : K} {result : DetectionResult K} (h : d.detect N values current = some result) :
    ∃ expected, result.expectedValue = some expected ∧ WithinRange values expected := by
  have hpos := List.length_pos_iff.mpr hne
  by_cases hsize : values.length < d.span
  · rw [EWMADetector.detect, if_pos hsize] at h
    refine ⟨mean values, ?_, mean_withinRange hne⟩
    rw [← Option.some.inj h]
    simp [insufficient, hne]
  · rw [d.detect_of_span_le N (not_lt.mp hsize)] at h
    obtain ⟨score, -, rfl⟩ := Option.map_eq_some_iff.mp h
    have hlast : WithinRange (values.take (values.length - 1 + 1)) (d.expected values) :=
      ewmaSeries_withinRange (Nat.one_le_of_lt d.two_le) (Nat.sub_lt hpos Nat.one_pos)
    rw [Nat.sub_add_cancel hpos, List.take_length] at hlast
    exact ⟨d.expected values, rfl, hlast⟩

/-- Every element of the series is a convex combination of the history up to its place, and what the
detector expects is between the extremes. -/
theorem ewma_is_a_convex_average (N : Numerics K) (hne : values ≠ []) (hspan : 1 ≤ span) :
    (∀ i < values.length,
      (ewmaSeries values span).getD i 0 =
          ∑ j ∈ Finset.range (i + 1), ewmaWeight (2 / (span + 1) : K) i j * values.getD j 0 ∧
        (∀ j, (0 : K) ≤ ewmaWeight (2 / (span + 1) : K) i j) ∧
        ∑ j ∈ Finset.range (i + 1), ewmaWeight (2 / (span + 1) : K) i j = 1 ∧
        WithinRange (values.take (i + 1)) ((ewmaSeries values span).getD i 0)) ∧
    ∀ (d : EWMADetector K) (current : K) (result : DetectionResult K),
      d.detect N values current = some result →
        ∃ expected, result.expectedValue = some expected ∧ WithinRange values expected :=
  ⟨fun i hi => ⟨ewmaSeries_eq_sum hi, ewmaWeight_nonneg hspan i, ewmaWeight_sum _ i,
    ewmaSeries_withinRange hspan hi⟩, fun d _ _ => d.expected_withinRange N hne⟩

end Bounds

/-- The third average of a span of three: the weights are a quarter, a quarter and a half. -/
theorem ewma_is_a_convex_average_three :
    (ewmaSeries ([8, 4, 2] : List ℝ) 3).getD 2 0 = 1 / 4 * 8 + 1 / 4 * 4 + 1 / 2 * 2 := by
  have hne : ([8, 4, 2] : List ℝ) ≠ [] := List.cons_ne_nil _ _
  have hspan : 1 ≤ 3 := by decide
  rw [((ewma_is_a_convex_average Numerics.real hne hspan).1 2 (by decide)).1]
  norm_num [Finset.sum_range_succ, ewmaWeight]

end BackendProjects.Anomaly.Detectors
