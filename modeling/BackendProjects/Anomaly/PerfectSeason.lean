import BackendProjects.Anomaly.Detectors
import Mathlib.Algebra.BigOperators.Ring.List
import Mathlib.Data.Int.ModEq

/-! The seasonal detector on a history that repeats its pattern. The moving average is short of what
lies beyond both ends, and the value that is expected next is the one at the last place. -/
namespace BackendProjects.Anomaly.Detectors
open Library SeasonalDecompositionDetector
variable {K : Type*} [Field K] (pattern : List K) (n : Nat)

def point (i : Int) : K := pattern.getD (i % pattern.length).toNat 0

def season : List K := (List.range n).map fun i : Nat => point pattern i

def reads (period : Nat) (i : Int) (k : Nat) : Int := i + ((window period - 1) / 2 : Nat) - k

def movingAverage (i : Int) : K :=
  ((List.range (window pattern.length)).map fun k => point pattern (reads pattern.length i k)).sum *
    (1 / window pattern.length)

def overhang (i : Int) : K :=
  ((List.range (window pattern.length)).map fun k =>
    let j := reads pattern.length i k
    if 0 ≤ j ∧ j < n then 0 else point pattern j).sum * (1 / window pattern.length)

def edgeResiduals : List K :=
  let edges := (List.range n).map fun i : Nat => overhang pattern n i
  List.zipWith (· - ·) edges ((List.range n).map (phaseMean edges pattern.length))

/-! ### The decomposition of a season -/

section Decomposition
variable {pattern n} {i j : Nat}

private theorem point_congr {i j : Int} (h : i % pattern.length = j % pattern.length) :
    point pattern i = point pattern j := by
  rw [point, point, h]

private theorem movingAverage_congr (h : j % pattern.length = i % pattern.length) :
    movingAverage pattern j = movingAverage pattern i := by
  unfold movingAverage
  congr 2
  refine List.map_congr_left fun k _ => point_congr ?_
  have hmod : Int.ModEq pattern.length j i := by exact_mod_cast h
  exact (hmod.add_right _).sub_right _

private theorem getD_map_range {f : Nat → K} (h : i < n) : ((List.range n).map f).getD i 0 = f i := by
  rw [List.getD_eq_getElem _ _ (by simpa using h), List.getElem_map, List.getElem_range]

private theorem length_season : (season pattern n).length = n := by
  rw [season, List.length_map, List.length_range]

private theorem getD_season (k : Nat) : (season pattern n).getD k 0 = if k < n then point pattern k else 0 := by
  split
  · next h => rw [season, getD_map_range h]
  · next h => exact List.getD_eq_default _ _ (by rw [length_season]; omega)

/-- What the convolution reads of the history, and what it misses of the season. -/
theorem convolve_season (i : Nat) :
    convolve (season pattern n) (List.replicate (window pattern.length) (1 / window pattern.length))
      (i + (window pattern.length - 1) / 2) + overhang pattern n i = movingAverage pattern i := by
  unfold convolve overhang movingAverage
  rw [← List.sum_map_mul_right, ← List.sum_map_mul_right, List.length_replicate, ← List.sum_map_add]
  refine congrArg List.sum (List.map_congr_left fun k hk => ?_)
  rw [List.getD_replicate _ (List.mem_range.mp hk)]
  by_cases hleft : k ≤ i + (window pattern.length - 1) / 2
  · have hreads : reads pattern.length i k = ((i + (window pattern.length - 1) / 2 - k : Nat) : Int) := by
      rw [reads, Nat.cast_sub hleft, Nat.cast_add]
    rw [if_pos hleft, getD_season, hreads]
    by_cases hright : i + (window pattern.length - 1) / 2 - k < n
    · rw [if_pos hright, if_pos ⟨by omega, by omega⟩, zero_mul, add_zero, mul_comm]
    · rw [if_neg hright, if_neg (by omega), mul_zero, zero_add]
  · rw [if_neg hleft, if_neg (by rw [reads]; omega), mul_zero, zero_add]

private theorem zipWith_map_range (f g : Nat → K) :
    List.zipWith (· - ·) ((List.range n).map f) ((List.range n).map g) =
      (List.range n).map (fun i => f i - g i) := by
  rw [List.zipWith_map, List.zipWith_self]

/-- The kernel fits into every history that is long enough for its period. -/
theorem window_le {period : Nat} (htwo : 2 ≤ period) (hn : period * 2 ≤ n) : window period ≤ n := by
  have hodd : (period / 2 ||| 1) % 2 = 1 := Nat.or_mod_two_eq_one.mpr (Or.inr rfl)
  have hhalf : (period / 2 ||| 1) / 2 = period / 2 / 2 := by rw [Nat.or_div_two, Nat.or_zero]
  unfold window
  omega

private theorem convolveSame_season (hwindow : window pattern.length ≤ n) :
    convolveSame (season pattern n) (List.replicate (window pattern.length) (1 / window pattern.length)) =
      (List.range n).map (fun i : Nat => movingAverage pattern i - overhang pattern n i) := by
  unfold convolveSame
  rw [length_season, List.length_replicate, max_eq_left hwindow, min_eq_right hwindow]
  exact List.map_congr_left fun i _ => eq_sub_of_add_eq (convolve_season i)

private theorem phaseMean_map_range (f : Nat → K) (period : Nat) :
    phaseMean ((List.range n).map f) period i =
      mean (((List.range n).filter (fun j => j % period = i % period)).map f) := by
  unfold phaseMean
  rw [List.length_map, List.length_range]
  refine congrArg mean (List.map_congr_left fun j hj => ?_)
  exact getD_map_range (List.mem_range.mp (List.mem_of_mem_filter hj))

/-- A part that is the same all over the phase comes out of its mean. -/
theorem phaseMean_add [CharZero K] (f g : Nat → K) (period : Nat) (hi : i < n)
    (hf : ∀ j, j % period = i % period → f j = f i) :
    phaseMean ((List.range n).map (fun j => f j + g j)) period i =
      f i + phaseMean ((List.range n).map g) period i := by
  have hne : (List.range n).filter (fun j => j % period = i % period) ≠ [] :=
    List.ne_nil_of_mem (List.mem_filter.mpr ⟨List.mem_range.mpr hi, decide_eq_true rfl⟩)
  rw [phaseMean_map_range, phaseMean_map_range, ← mean_map_add hne]
  refine congrArg mean (List.map_congr_left fun j hj => ?_)
  rw [hf j (of_decide_eq_true (List.mem_filter.mp hj).2)]

/-- The phase means take the season out of what is detrended, and the mean of the overhang with it. -/
theorem phaseMean_detrended [CharZero K] (hi : i < n) :
    phaseMean ((List.range n).map fun j : Nat =>
        point pattern j - movingAverage pattern j + overhang pattern n j) pattern.length i =
      point pattern i - movingAverage pattern i +
        phaseMean ((List.range n).map fun j : Nat => overhang pattern n j) pattern.length i := by
  refine phaseMean_add (fun j : Nat => point pattern j - movingAverage pattern j) _ _ hi fun j hj => ?_
  have hpoint : point pattern j = point pattern i := point_congr (by exact_mod_cast hj)
  rw [hpoint, movingAverage_congr hj]

private theorem residual_season [CharZero K] (detrended : List K)
    (hdetrended : detrended = (List.range n).map fun i : Nat =>
      point pattern i - movingAverage pattern i + overhang pattern n i) :
    List.zipWith (· - ·) detrended ((List.range n).map (phaseMean detrended pattern.length)) =
      edgeResiduals pattern n := by
  rw [hdetrended, edgeResiduals, zipWith_map_range, zipWith_map_range]
  refine List.map_congr_left fun i hi => ?_
  rw [phaseMean_detrended (List.mem_range.mp hi), add_sub_add_left_eq_sub]

end Decomposition

section Detection
variable [LinearOrder K] [IsStrictOrderedRing K] (N : Numerics K) (d : SeasonalDecompositionDetector K)
variable {pattern n}

/-- The next value is judged by the value at the last place, corrected by what the edge has left there,
and by the deviation of all that the edges have left. -/
private theorem SeasonalDecompositionDetector.detect_season (hperiod : pattern.length = d.effectivePeriod n)
    (hn : pattern.length * 2 ≤ n) (current : K) :
    d.detect N (season pattern n) current =
      let expected := point pattern (n - 1 : Nat) - (edgeResiduals pattern n).getD (n - 1) 0
      let z := units (current - expected) (N.std (edgeResiduals pattern n))
      (bareScore z d.zThreshold).map fun score =>
        judged z d.zThreshold score expected current "seasonal" ("seasonal residual z=" ++ N.fixed4 z) := by
  have htwo : 2 ≤ pattern.length := by
    have := d.two_le
    rw [hperiod, effectivePeriod]
    omega
  have hlast : n - 1 < n := by omega
  have hdetrended : List.zipWith (· - ·) (season pattern n)
      ((List.range n).map fun i : Nat => movingAverage pattern i - overhang pattern n i) =
      (List.range n).map fun i : Nat => point pattern i - movingAverage pattern i + overhang pattern n i := by
    rw [season, zipWith_map_range]
    exact List.map_congr_left fun i _ => (sub_add ..).symm
  have hexpected : (movingAverage pattern (n - 1 : Nat) - overhang pattern n (n - 1 : Nat)) +
      (point pattern (n - 1 : Nat) - movingAverage pattern (n - 1 : Nat) + phaseMean
        ((List.range n).map fun j : Nat => overhang pattern n j) pattern.length (n - 1)) =
      point pattern (n - 1 : Nat) - (edgeResiduals pattern n).getD (n - 1) 0 := by
    rw [edgeResiduals, zipWith_map_range, getD_map_range hlast]
    ring
  rw [SeasonalDecompositionDetector.detect]
  simp only [length_season, ← hperiod, if_neg hn.not_gt, convolveSame_season (window_le htwo hn), hdetrended,
    residual_season _ rfl, getD_map_range hlast, phaseMean_detrended hlast, hexpected,
    if_pos (show 2 < n by omega)]
  exact (Option.map_eq_bind ..).symm

/-- What it takes for the next value of a season to pass: next to nothing is left of the edges, or the step
to it is covered by what is left of them. -/
def Passes (threshold : K) (pattern : List K) (n : Nat) : Prop :=
  0 < threshold ∧ (N.std (edgeResiduals pattern n) < tiny ∨
    |point pattern n - point pattern (n - 1 : Nat) + (edgeResiduals pattern n).getD (n - 1) 0| ≤
      threshold * N.std (edgeResiduals pattern n))

/-- The next value of a season is not flagged exactly when it passes. -/
theorem perfect_season_iff (hperiod : pattern.length = d.effectivePeriod n) (hn : pattern.length * 2 ≤ n) :
    (∃ result, d.detect N (season pattern n) (point pattern n) = some result ∧ result.isAnomaly = false) ↔
      Passes N d.zThreshold pattern n := by
  have hdistance : point pattern n - (point pattern (n - 1 : Nat) - (edgeResiduals pattern n).getD (n - 1) 0) =
      point pattern n - point pattern (n - 1 : Nat) + (edgeResiduals pattern n).getD (n - 1) 0 :=
    (sub_add ..).symm
  rw [d.detect_season N hperiod hn, Passes, ← hdistance]
  exact bareScore_passes_iff ..

end Detection

/-! ### Seasons of real numbers -/

private noncomputable def shortPeriod : SeasonalDecompositionDetector ℝ := .init 2

/-- The season 2, 3, 2, 3 is followed by 2: the step to it is covered by what its ends leave over. -/
theorem perfect_season_iff_two_three : ∃ result,
    shortPeriod.detect Numerics.real (season [2, 3] 4) (point [2, 3] 4) = some result ∧
      result.isAnomaly = false := by
  refine (perfect_season_iff Numerics.real shortPeriod (by decide) (by decide)).mpr
    ⟨by norm_num [shortPeriod, init], .inr ?_⟩
  have hresiduals : edgeResiduals ([2, 3] : List ℝ) 4 = [1 / 2, -1 / 3, -1 / 2, 1 / 3] := by
    norm_num [edgeResiduals, overhang, reads, point, window, phaseMean, mean, List.range_succ, List.filter_cons]
  have hvariance : sampleVariance ([1 / 2, -1 / 3, -1 / 2, 1 / 3] : List ℝ) = 13 / 54 := by
    norm_num [sampleVariance, mean]
  have hdistance : point ([2, 3] : List ℝ) (4 : Nat) - point [2, 3] (4 - 1 : Nat) +
      [1 / 2, -1 / 3, -1 / 2, 1 / 3].getD (4 - 1) 0 = -(2 / 3) := by
    norm_num [point]
  have hspread : (2 / 9 : ℝ) ≤ √(13 / 54) := (Real.le_sqrt' (by norm_num)).mpr (by norm_num)
  have hthreshold : shortPeriod.zThreshold = 3 := rfl
  rw [hresiduals, hdistance, hthreshold, abs_neg, abs_of_pos (by norm_num)]
  simp only [Numerics.std, Numerics.real, hvariance]
  linarith

/-- Squares decide whether the next value is flagged with the threshold of three. -/
private theorem flagged_of_far {pattern : List ℝ} {n : Nat}
    (hperiod : pattern.length = shortPeriod.effectivePeriod n) (hn : pattern.length * 2 ≤ n)
    (hspread : tiny ^ 2 ≤ sampleVariance (edgeResiduals pattern n))
    (hfar : 3 ^ 2 * sampleVariance (edgeResiduals pattern n) <
      (point pattern n - point pattern (n - 1 : Nat) + (edgeResiduals pattern n).getD (n - 1) 0) ^ 2) :
    ∃ result, shortPeriod.detect Numerics.real (season pattern n) (point pattern n) = some result ∧
      result.isAnomaly = true := by
  have hpos : 0 < shortPeriod.zThreshold := by norm_num [shortPeriod, init]
  have hvariance : 0 ≤ sampleVariance (edgeResiduals pattern n) := (sq_nonneg _).trans hspread
  have hcounts : tiny ≤ √(sampleVariance (edgeResiduals pattern n)) := (Real.le_sqrt' tiny_pos).mpr hspread
  have hbeyond : 3 * √(sampleVariance (edgeResiduals pattern n)) <
      |point pattern n - (point pattern (n - 1 : Nat) - (edgeResiduals pattern n).getD (n - 1) 0)| := by
    refine lt_of_pow_lt_pow_left₀ 2 (abs_nonneg _) ?_
    rw [mul_pow, Real.sq_sqrt hvariance, sq_abs, ← sub_add]
    exact hfar
  rw [shortPeriod.detect_season Numerics.real hperiod hn]
  simp only [bareScore_of_pos hpos]
  exact ⟨_, rfl, decide_eq_true ((lt_units_iff hpos).mpr ⟨hcounts, hbeyond⟩)⟩

/-- The value of the phase after the last one is flagged, and so is one more point of a constant history. -/
theorem perfect_season_flagged :
    (season [0, 1] 4 = ([0, 1, 0, 1] : List ℝ) ∧ ∃ result,
      shortPeriod.detect Numerics.real (season [0, 1] 4) (point [0, 1] 4) = some result ∧
        result.isAnomaly = true) ∧
    (season [1, 1] 24 = (List.replicate 24 1 : List ℝ) ∧ ∃ result,
      shortPeriod.detect Numerics.real (season [1, 1] 24) (point [1, 1] 24) = some result ∧
        result.isAnomaly = true) := by
  have halternating : edgeResiduals ([0, 1] : List ℝ) 4 = [1 / 6, 0, -1 / 6, 0] := by
    norm_num [edgeResiduals, overhang, reads, point, window, phaseMean, mean, List.range_succ, List.filter_cons]
  have hconstant : edgeResiduals ([1, 1] : List ℝ) 24 = 11 / 36 :: List.replicate 22 (-1 / 36) ++ [11 / 36] := by
    norm_num [edgeResiduals, overhang, reads, point, window, phaseMean, mean, List.range_succ, List.filter_cons,
      List.replicate]
  refine ⟨⟨?_, flagged_of_far (by decide) (by decide) ?_ ?_⟩, ⟨?_, flagged_of_far (by decide) (by decide) ?_ ?_⟩⟩
  · norm_num [season, point, List.range_succ]
  · rw [halternating]
    norm_num [sampleVariance, mean, tiny]
  · rw [halternating]
    norm_num [sampleVariance, mean, point]
  · norm_num [season, point, List.range_succ, List.replicate]
  · rw [hconstant]
    norm_num [sampleVariance, mean, tiny]
  · rw [hconstant]
    norm_num [sampleVariance, mean, point]

end BackendProjects.Anomaly.Detectors
