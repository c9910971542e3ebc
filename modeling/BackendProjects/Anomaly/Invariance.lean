import BackendProjects.Anomaly.Detectors
import BackendProjects.Library.Motions

/-! What the detectors say does not depend on the origin of the scale, nor on its direction. -/
namespace BackendProjects.Anomaly.Detectors
open Library
variable {K : Type*} [Field K]

def DetectionResult.moved (m : Motion K) (r : DetectionResult K) : DetectionResult K :=
  { r with expectedValue := r.expectedValue.map m.apply, actualValue := m.apply r.actualValue }

section Series
variable (m : Motion K)

private theorem ewmaLoop_map (alpha last : K) (arr : List K) :
    ewmaLoop alpha (m.apply last) (arr.map m.apply) = (ewmaLoop alpha last arr).map m.apply := by
  induction arr generalizing last with
  | nil => rfl
  | cons x arr ih => rw [List.map_cons, ewmaLoop, ewmaLoop, ← m.apply_average, ih, List.map_cons]

private theorem ewmaSeries_map (arr : List K) (span : Nat) :
    ewmaSeries (arr.map m.apply) span = (ewmaSeries arr span).map m.apply := by
  cases arr with
  | nil => rfl
  | cons x arr => rw [List.map_cons, ewmaSeries, ewmaSeries, ewmaLoop_map, List.map_cons]

end Series

variable [LinearOrder K] (N : Numerics K)

section Results
variable (m : Motion K)

private theorem units_linear (distance spread : K) :
    units (m.linear.apply distance) spread = units distance spread := by
  rw [units, units, m.abs_linear]

private theorem modifiedZ_linear [IsStrictOrderedRing K] (distance mad : K) :
    modifiedZ (m.linear.apply distance) mad = modifiedZ distance mad := by
  rw [modifiedZ_eq, modifiedZ_eq, units, units, abs_mul, m.abs_linear, ← abs_mul]

private theorem judged_moved (z threshold score expected current : K) (name reason : String) :
    judged z threshold score (m.apply expected) (m.apply current) name reason =
      (judged z threshold score expected current name reason).moved m := by
  simp [judged, DetectionResult.moved, m.apply_sub, m.abs_linear]

omit [LinearOrder K] in
private theorem insufficient_moved {centre : List K → K} {history : List K} (current : K) (name reason : String)
    (h : history ≠ [] → centre (history.map m.apply) = m.apply (centre history)) :
    insufficient centre (history.map m.apply) (m.apply current) name reason =
      (insufficient centre history current name reason).moved m := by
  cases history with
  | nil => rfl
  | cons x history =>
    have hcentre := h (List.cons_ne_nil x history)
    rw [List.map_cons] at hcentre
    simp [insufficient, DetectionResult.moved, hcentre]

omit [LinearOrder K] in
private theorem Numerics.std_map [CharZero K] (l : List K) : N.std (l.map m.apply) = N.std l :=
  congrArg N.sqrt (m.sampleVariance_map l)

/-- Every detector reaches the same verdict about moved values, short histories included. -/
private theorem ZScoreDetector.detect_moved [CharZero K] (d : ZScoreDetector K) (values : List K) (current : K) :
    d.detect N (values.map m.apply) (m.apply current) = (d.detect N values current).moved m := by
  have hmean (hlength : 1 < (values ++ [current]).length) :
      mean (values.map m.apply) = m.apply (mean values) := by
    refine m.mean_map fun hnil => ?_
    rw [hnil] at hlength
    exact absurd hlength (lt_irrefl 1)
  have hexpected : (if 1 < (values ++ [current]).length then mean (values.map m.apply) else m.apply current) =
      m.apply (if 1 < (values ++ [current]).length then mean values else current) := by
    split
    · next hlength => exact hmean hlength
    · rfl
  have hlength : (values.map m.apply ++ [m.apply current]).length = (values ++ [current]).length := by simp
  simp only [ZScoreDetector.detect, List.dropLast_concat, hlength, hexpected, N.std_map m, m.apply_sub,
    units_linear]
  exact judged_moved m ..

omit [LinearOrder K] in
private theorem EWMADetector.expected_map (d : EWMADetector K) {values : List K} (hne : values ≠ []) :
    d.expected (values.map m.apply) = m.apply (d.expected values) := by
  have hpos := List.length_pos_iff.mpr hne
  have hlast : values.length - 1 < (ewmaSeries values d.span).length := by
    rw [length_ewmaSeries]
    omega
  rw [expected, expected, ewmaSeries_map, List.length_map, List.getD_eq_getElem _ _ hlast,
    List.getD_eq_getElem _ _ (by simpa using hlast), List.getElem_map]

omit [LinearOrder K] in
private theorem EWMADetector.win_map (d : EWMADetector K) (values : List K) :
    d.win (values.map m.apply) = (d.win values).map m.linear.apply := by
  have hresid : List.zipWith (· - ·) (values.map m.apply) (ewmaSeries (values.map m.apply) d.span) =
      (List.zipWith (· - ·) values (ewmaSeries values d.span)).map m.linear.apply := by
    rw [ewmaSeries_map, List.zipWith_map, List.map_zipWith]
    simp only [m.apply_sub]
  rw [win, win, hresid, List.length_map, List.map_drop]

private theorem EWMADetector.detect_moved [CharZero K] (d : EWMADetector K) (values : List K) (current : K) :
    d.detect N (values.map m.apply) (m.apply current) =
      (d.detect N values current).map (DetectionResult.moved m) := by
  by_cases hsize : values.length < d.span
  · rw [EWMADetector.detect, EWMADetector.detect, List.length_map, if_pos hsize, if_pos hsize,
      insufficient_moved m current _ _ m.mean_map]
    rfl
  · have hne : values ≠ [] := by
      rintro rfl
      exact hsize (lt_of_lt_of_le two_pos d.two_le)
    have hmoved : d.span ≤ (values.map m.apply).length := by
      rw [List.length_map]
      exact not_lt.mp hsize
    rw [d.detect_of_span_le N hmoved, d.detect_of_span_le N (not_lt.mp hsize)]
    simp only [d.expected_map m hne, d.win_map, N.std_map, m.apply_sub, units_linear, judged_moved]
    rw [Option.map_map]
    rfl

private theorem MADDetector.detect_moved [IsStrictOrderedRing K] (d : MADDetector K) (values : List K)
    (current : K) :
    d.detect N (values.map m.apply) (m.apply current) = (d.detect N values current).moved m := by
  by_cases hsize : values.length < 3
  · rw [MADDetector.detect, MADDetector.detect, List.length_map, if_pos hsize, if_pos hsize]
    exact insufficient_moved m current _ _ m.median_map
  · have hne : values ≠ [] := by
      rintro rfl
      exact hsize (Nat.succ_pos 2)
    have hmoved : 3 ≤ (values.map m.apply).length := by
      rw [List.length_map]
      exact not_lt.mp hsize
    rw [d.detect_of_three_le N hmoved, d.detect_of_three_le N (not_lt.mp hsize)]
    simp only [m.median_map hne, m.medianAbsoluteDeviation_map, m.apply_sub, modifiedZ_linear,
      judged_moved]

end Results

/-- A detector that looks at nothing but distances and the side to which they go. -/
structure Invariant (detect : List K → K → Option (DetectionResult K)) : Prop where
  translation : ∀ values current b, detect (values.map (· + b)) (current + b) =
    (detect values current).map fun r =>
      { r with expectedValue := r.expectedValue.map (· + b), actualValue := r.actualValue + b }
  reflection : ∀ values current, detect (values.map (- ·)) (-current) =
    (detect values current).map fun r =>
      { r with expectedValue := r.expectedValue.map (- ·), actualValue := -r.actualValue }

omit [LinearOrder K] in
private theorem moved_translation (b : K) : DetectionResult.moved (.translation b) = fun r =>
    { r with expectedValue := r.expectedValue.map (· + b), actualValue := r.actualValue + b } := by
  funext r
  rw [DetectionResult.moved, funext (Motion.translation_apply b)]

omit [LinearOrder K] in
private theorem moved_reflection : DetectionResult.moved (.reflection : Motion K) = fun r =>
    { r with expectedValue := r.expectedValue.map (- ·), actualValue := -r.actualValue } := by
  funext r
  rw [DetectionResult.moved, funext Motion.reflection_apply]

omit [LinearOrder K] in
private theorem invariant_of_motions {detect : List K → K → Option (DetectionResult K)}
    (h : ∀ (m : Motion K) values current, detect (values.map m.apply) (m.apply current) =
      (detect values current).map (DetectionResult.moved m)) : Invariant detect where
  translation values current b := by
    have hb := h (.translation b) values current
    rw [moved_translation, funext (Motion.translation_apply b)] at hb
    exact hb
  reflection values current := by
    have hneg := h .reflection values current
    rw [moved_reflection, funext Motion.reflection_apply] at hneg
    exact hneg

/-- Moving or turning the scale changes the expected value with it, and nothing else of the verdict. -/
theorem verdicts_invariant [IsStrictOrderedRing K] (N : Numerics K) :
    (∀ d : ZScoreDetector K, Invariant fun values current => some (d.detect N values current)) ∧
    (∀ d : MADDetector K, Invariant fun values current => some (d.detect N values current)) ∧
    (∀ d : EWMADetector K, Invariant (d.detect N)) :=
  ⟨fun d => invariant_of_motions fun m values current => congrArg some (d.detect_moved N m values current),
    fun d => invariant_of_motions fun m values current => congrArg some (d.detect_moved N m values current),
    fun d => invariant_of_motions fun m => d.detect_moved N m⟩

/-- Celsius and kelvin. -/
theorem verdicts_invariant_kelvin :
    (⟨7 / 2⟩ : MADDetector ℝ).detect Numerics.real ([20, 21, 23].map (· + 273)) (30 + 273) =
      { (⟨7 / 2⟩ : MADDetector ℝ).detect Numerics.real [20, 21, 23] 30 with
        expectedValue := ((⟨7 / 2⟩ : MADDetector ℝ).detect Numerics.real [20, 21, 23] 30).expectedValue.map
          (· + 273)
        actualValue := 30 + 273 } :=
  Option.some.inj (((verdicts_invariant Numerics.real).2.1 ⟨7 / 2⟩).translation [20, 21, 23] 30 273)

end BackendProjects.Anomaly.Detectors
