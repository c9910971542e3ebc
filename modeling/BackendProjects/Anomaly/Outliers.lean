import BackendProjects.Anomaly.Detectors

/-! Gross outliers and contaminated histories. A detector flags every value that is far enough from the
expected one, unless its estimate of the spread is so small that it takes every score for zero; and the
median absolute deviation stays where the majority of the history is. -/
namespace BackendProjects.Anomaly.Detectors
open Library
variable {K : Type*} [Field K] [LinearOrder K]

/-- From some distance to the expected value on, every value is flagged. -/
def FlagsGrossOutliers (detect : K → Option (DetectionResult K)) : Prop :=
  ∃ B : K, ∀ current, ∃ result, detect current = some result ∧
    ∀ expected, result.expectedValue = some expected → B < |current - expected| → result.isAnomaly = true

variable [IsStrictOrderedRing K]

/-- Detectors that judge every value by its distance to one expected value, in units of one spread. -/
private theorem flagsGrossOutliers_of_judged {detect : K → Option (DetectionResult K)}
    {factor threshold : K} (expected spread : K) (hfactor : 0 < factor) (hthreshold : 0 < threshold)
    (hdetect : ∀ current, ∃ score name reason, detect current = some
      (judged (units (factor * (current - expected)) spread) threshold score expected current name reason)) :
    FlagsGrossOutliers detect ↔ tiny ≤ spread := by
  constructor
  · rintro ⟨B, hB⟩
    -- a value that is beyond the bound, whatever the spread
    have hbeyond : B < |expected + (|B| + 1) - expected| := by
      rw [add_sub_cancel_left, abs_of_pos (by positivity)]
      exact (le_abs_self B).trans_lt (lt_add_one _)
    obtain ⟨result, hresult, hfar⟩ := hB (expected + (|B| + 1))
    obtain ⟨score, name, reason, hjudged⟩ := hdetect (expected + (|B| + 1))
    obtain rfl := Option.some.inj (hjudged.symm.trans hresult)
    have hflag := hfar expected rfl hbeyond
    exact ((lt_units_iff hthreshold).mp (of_decide_eq_true hflag)).1
  · intro hspread
    refine ⟨threshold * spread / factor, fun current => ?_⟩
    obtain ⟨score, name, reason, hjudged⟩ := hdetect current
    refine ⟨_, hjudged, fun e he hfar => decide_eq_true ((lt_units_iff hthreshold).mpr ⟨hspread, ?_⟩)⟩
    obtain rfl : expected = e := Option.some.inj he
    rw [div_lt_iff₀' hfactor] at hfar
    rw [abs_mul, abs_of_pos hfactor]
    exact hfar

section Detectors
variable (N : Numerics K) {history : List K}

private theorem ZScoreDetector.flags_iff (d : ZScoreDetector K) (hthreshold : 0 < d.threshold)
    (hsize : 2 ≤ history.length) :
    FlagsGrossOutliers (fun current => some (d.detect N history current)) ↔ tiny ≤ N.std history := by
  refine flagsGrossOutliers_of_judged (mean history) _ one_pos hthreshold fun current => ?_
  rw [d.detect_of_two_le N hsize, one_mul]
  exact ⟨_, _, _, rfl⟩

private theorem MADDetector.flags_iff (d : MADDetector K) (hthreshold : 0 < d.threshold)
    (hsize : 3 ≤ history.length) :
    FlagsGrossOutliers (fun current => some (d.detect N history current)) ↔
      tiny ≤ medianAbsoluteDeviation history := by
  have hfactor : (0 : K) < 6745 / 10000 := by norm_num
  refine flagsGrossOutliers_of_judged (median history) _ hfactor hthreshold fun current => ?_
  rw [d.detect_of_three_le N hsize, modifiedZ_eq]
  exact ⟨_, _, _, rfl⟩

private theorem EWMADetector.flags_iff (d : EWMADetector K) (hthreshold : 0 < d.sigmaThreshold)
    (hsize : d.span ≤ history.length) :
    FlagsGrossOutliers (d.detect N history) ↔ tiny ≤ N.std (d.win history) := by
  refine flagsGrossOutliers_of_judged (d.expected history) _ one_pos hthreshold fun current => ?_
  rw [d.detect_of_span_le N hsize, one_mul]
  simp only [bareScore_of_pos hthreshold, Option.map_some]
  exact ⟨_, _, _, rfl⟩

/-- A majority of points that coincide leaves nothing for the MAD detector to flag. -/
private theorem MADDetector.not_flags_of_majority (d : MADDetector K) (hthreshold : 0 < d.threshold)
    (hsize : 3 ≤ history.length) {a : K}
    (hmajority : history.length < 2 * history.countP (fun x => a ≤ x ∧ x ≤ a)) (current : K) :
    ¬ FlagsGrossOutliers (fun current => some (d.detect N history current)) ∧
      (d.detect N history current).isAnomaly = false := by
  have hmad : ¬ tiny ≤ medianAbsoluteDeviation history := by
    have hle := medianAbsoluteDeviation_le hmajority
    rw [sub_self] at hle
    exact (hle.trans_lt tiny_pos).not_ge
  refine ⟨fun h => hmad ((d.flags_iff N hthreshold hsize).mp h), ?_⟩
  rw [d.detect_of_three_le N hsize, modifiedZ_eq]
  exact decide_eq_false fun hlt => hmad ((lt_units_iff hthreshold).mp hlt).1

end Detectors

/-- Each detector flags gross outliers exactly when its own estimate of the spread of the history
counts: the sample deviation, the median absolute deviation, and the sample deviation of the last
residuals to the moving average. -/
theorem flagsGrossOutliers_iff (N : Numerics K) (history : List K) :
    (∀ d : ZScoreDetector K, 0 < d.threshold → 2 ≤ history.length →
      (FlagsGrossOutliers (fun current => some (d.detect N history current)) ↔ tiny ≤ N.std history)) ∧
    (∀ d : MADDetector K, 0 < d.threshold → 3 ≤ history.length →
      (FlagsGrossOutliers (fun current => some (d.detect N history current)) ↔
        tiny ≤ medianAbsoluteDeviation history)) ∧
    (∀ d : EWMADetector K, 0 < d.sigmaThreshold → d.span ≤ history.length →
      (FlagsGrossOutliers (d.detect N history) ↔ tiny ≤ N.std (d.win history))) :=
  ⟨fun d => d.flags_iff N, fun d => d.flags_iff N, fun d => d.flags_iff N⟩

/-- Three points that are two apart have a spread that counts. -/
theorem flagsGrossOutliers_spread :
    FlagsGrossOutliers (fun current =>
      some ((⟨7 / 2⟩ : MADDetector ℝ).detect Numerics.real [10, 12, 14] current)) := by
  have hmad : tiny ≤ medianAbsoluteDeviation ([10, 12, 14] : List ℝ) := by
    norm_num [medianAbsoluteDeviation, median, tiny, List.insertionSort, List.orderedInsert]
  exact ((flagsGrossOutliers_iff Numerics.real [10, 12, 14]).2.1 ⟨7 / 2⟩ (by norm_num) (by decide)).mpr hmad

/-- The history of the outlier test, of which twenty points are the same: the value of 40 that the test
expects to be flagged is not, and no distance is enough. -/
theorem flagsGrossOutliers_not_mad :
    ¬ FlagsGrossOutliers (fun current => some ((⟨7 / 2⟩ : MADDetector ℝ).detect Numerics.real
      (List.replicate 20 10 ++ [10.1, 9.9, 10.05]) current)) ∧
    ((⟨7 / 2⟩ : MADDetector ℝ).detect Numerics.real
      (List.replicate 20 10 ++ [10.1, 9.9, 10.05]) 40).isAnomaly = false := by
  have hmajority : (List.replicate 20 10 ++ [10.1, 9.9, 10.05] : List ℝ).length <
      2 * (List.replicate 20 10 ++ [10.1, 9.9, 10.05] : List ℝ).countP (fun x => 10 ≤ x ∧ x ≤ 10) := by
    norm_num [List.countP_append, List.countP_replicate, List.countP_cons]
  have hthreshold : (0 : ℝ) < 7 / 2 := by norm_num
  exact MADDetector.not_flags_of_majority Numerics.real ⟨7 / 2⟩ hthreshold (by simp) hmajority 40

/-! ### Contamination -/

/-- Whatever a minority of the points is, the expected value is among the majority, and a value that is
too far away for the width of the majority is flagged. -/
theorem MADDetector.resists_contamination (N : Numerics K) (d : MADDetector K) (hthreshold : 0 < d.threshold)
    {history : List K} (hsize : 3 ≤ history.length) {a b : K}
    (hmajority : history.length < 2 * history.countP (fun x => a ≤ x ∧ x ≤ b)) (current : K) :
    ∃ expected, (d.detect N history current).expectedValue = some expected ∧ a ≤ expected ∧ expected ≤ b ∧
      (tiny ≤ medianAbsoluteDeviation history →
        d.threshold * (b - a) < 6745 / 10000 * |current - expected| →
        (d.detect N history current).isAnomaly = true) := by
  obtain ⟨hleft, hright⟩ := median_mem_Icc hmajority
  rw [d.detect_of_three_le N hsize, modifiedZ_eq]
  refine ⟨median history, rfl, hleft, hright, fun hspread hfar => ?_⟩
  refine decide_eq_true ((lt_units_iff hthreshold).mpr ⟨hspread, ?_⟩)
  have hfactor : (0 : K) < 6745 / 10000 := by norm_num
  calc d.threshold * medianAbsoluteDeviation history
      ≤ d.threshold * (b - a) := mul_le_mul_of_nonneg_left (medianAbsoluteDeviation_le hmajority) hthreshold.le
    _ < 6745 / 10000 * |current - median history| := hfar
    _ = |6745 / 10000 * (current - median history)| := by rw [abs_mul, abs_of_pos hfactor]

/-- Two points of five are far off, and the next such value is flagged all the same. -/
theorem MADDetector.resists_contamination_two_of_five :
    ((⟨7 / 2⟩ : MADDetector ℝ).detect Numerics.real [1, 2, 3, 1000, -1000] 1000).isAnomaly = true := by
  have hmajority : ([1, 2, 3, 1000, -1000] : List ℝ).length <
      2 * ([1, 2, 3, 1000, -1000] : List ℝ).countP (fun x => 1 ≤ x ∧ x ≤ 3) := by
    norm_num [List.countP_cons]
  have hspread : tiny ≤ medianAbsoluteDeviation ([1, 2, 3, 1000, -1000] : List ℝ) := by
    norm_num [medianAbsoluteDeviation, median, tiny, List.insertionSort, List.orderedInsert]
  obtain ⟨expected, -, hleft, hright, hflag⟩ := MADDetector.resists_contamination Numerics.real ⟨7 / 2⟩
    (by norm_num) (by decide) hmajority 1000
  refine hflag hspread ?_
  have hfar : (997 : ℝ) ≤ |1000 - expected| := (by linarith : (997 : ℝ) ≤ 1000 - expected).trans (le_abs_self _)
  norm_num
  linarith

end BackendProjects.Anomaly.Detectors
