import BackendProjects.Library.Statistics
import Mathlib.Analysis.Real.Sqrt
import Mathlib.Algebra.Order.Archimedean.Real.Basic

/-! The statistical detectors in exact arithmetic: what they compute from a history and the value
that follows it, over any ordered field. -/
namespace BackendProjects.Anomaly.Detectors
open Library

/-- What the detectors take from numpy and from their f-strings beyond the operations of the field:
the square root, the text of `:.4f` and the text of a threshold. -/
structure Numerics (K : Type*) where
  sqrt : K → K
  fixed4 : K → String
  str : K → String

def decimals (k n : Nat) : String :=
  toString (n / 10 ^ k) ++ "." ++ String.ofList ((toString (10 ^ k + n % 10 ^ k)).toList.drop 1)

noncomputable def Numerics.real : Numerics ℝ where
  sqrt := Real.sqrt
  fixed4 x := decimals 4 ⌊x * 10 ^ 4 + 1 / 2⌋.toNat
  str x := decimals 1 ⌊x * 10⌋.toNat

structure DetectionResult (K : Type*) where
  isAnomaly : Bool
  score : K
  expectedValue : Option K
  actualValue : K
  deviation : K
  detectorName : String
  severity : String
  reason : String

variable {K : Type*} [Field K] [LinearOrder K]

/-- `np.std(l, ddof=1)` -/
def Numerics.std (N : Numerics K) (l : List K) : K := N.sqrt (sampleVariance l)

def calculateSeverity (score : K) : String :=
  if 9 / 10 ≤ score then "critical"
  else if 7 / 10 ≤ score then "high"
  else if 1 / 2 ≤ score then "medium"
  else "low"

def tiny : K := 1 / 10 ^ 12

def units (distance spread : K) : K := if spread < tiny then 0 else |distance| / spread

/-- The score of a detector that guards against a threshold that is not positive. -/
def guardedScore (z threshold : K) : K := if 0 < threshold then min 1 (z / (threshold * 2)) else 0

/-- The score of a detector that does not: a threshold of zero raises `ZeroDivisionError`. -/
def bareScore (z threshold : K) : Option K :=
  if threshold * 2 = 0 then none else some (min 1 (z / (threshold * 2)))

def insufficient (centre : List K → K) (history : List K) (current : K) (name reason : String) :
    DetectionResult K where
  isAnomaly := false
  score := 0
  expectedValue := some (if history.isEmpty then current else centre history)
  actualValue := current
  deviation := 0
  detectorName := name
  severity := "low"
  reason := reason

def judged (z threshold score expected current : K) (name reason : String) : DetectionResult K where
  isAnomaly := threshold < z
  score := score
  expectedValue := some expected
  actualValue := current
  deviation := |current - expected|
  detectorName := name
  severity := if threshold < z then calculateSeverity score else "low"
  reason := reason

structure DetectionResult.Coherent (r : DetectionResult K) : Prop where
  score_nonneg : 0 ≤ r.score
  score_le_one : r.score ≤ 1
  score_iff : r.isAnomaly = true ↔ 1 / 2 < r.score
  severity_iff : r.isAnomaly = true ↔ r.severity ≠ "low"
  severity_eq : r.severity = if r.isAnomaly then calculateSeverity r.score else "low"

section Units
variable [IsStrictOrderedRing K]

theorem tiny_pos : (0 : K) < tiny := by
  unfold tiny
  positivity

theorem units_nonneg (distance spread : K) : 0 ≤ units distance spread := by
  unfold units
  split
  · exact le_refl _
  · next h => exact div_nonneg (abs_nonneg _) (tiny_pos.le.trans (not_lt.mp h))

/-- A score is above a threshold exactly for a spread that counts and a distance to match. -/
theorem lt_units_iff {threshold distance spread : K} (hthreshold : 0 < threshold) :
    threshold < units distance spread ↔ tiny ≤ spread ∧ threshold * spread < |distance| := by
  unfold units
  split
  · next h => exact ⟨fun hlt => absurd hlt hthreshold.not_gt, fun hspread => absurd h hspread.1.not_gt⟩
  · next h =>
    have hspread : 0 < spread := tiny_pos.trans_le (not_lt.mp h)
    rw [lt_div_iff₀ hspread]
    exact ⟨fun hlt => ⟨not_lt.mp h, hlt⟩, fun hlt => hlt.2⟩

theorem bareScore_of_pos {z threshold : K} (h : 0 < threshold) :
    bareScore z threshold = some (min 1 (z / (threshold * 2))) :=
  if_neg (mul_pos h two_pos).ne'

/-- A value passes a detector without a guard exactly for a positive threshold, and a spread that does not
count or a distance that it covers. -/
theorem bareScore_passes_iff {distance spread threshold : K} (expected current : K) (name reason : String) :
    (∃ result, (bareScore (units distance spread) threshold).map (fun score =>
        judged (units distance spread) threshold score expected current name reason) = some result ∧
      result.isAnomaly = false) ↔
    0 < threshold ∧ (spread < tiny ∨ |distance| ≤ threshold * spread) := by
  constructor
  · rintro ⟨result, hresult, hflag⟩
    obtain ⟨score, hscore, rfl⟩ := Option.map_eq_some_iff.mp hresult
    have hle : units distance spread ≤ threshold := not_lt.mp (of_decide_eq_false hflag)
    have hpos : 0 < threshold := by
      refine ((units_nonneg _ _).trans hle).lt_of_ne fun hzero => ?_
      simp [bareScore, ← hzero] at hscore
    refine ⟨hpos, ?_⟩
    by_contra hnot
    obtain ⟨hspread, hfar⟩ := not_or.mp hnot
    exact hle.not_gt ((lt_units_iff hpos).mpr ⟨not_lt.mp hspread, not_le.mp hfar⟩)
  · rintro ⟨hpos, hsmall⟩
    rw [bareScore_of_pos hpos]
    refine ⟨_, rfl, decide_eq_false fun hlt => ?_⟩
    obtain ⟨hspread, hfar⟩ := (lt_units_iff hpos).mp hlt
    exact hsmall.elim hspread.not_gt hfar.not_ge

end Units

/-! ### Z-score -/

structure ZScoreDetector (K : Type*) [Field K] where
  threshold : K := 3

def ZScoreDetector.detect (N : Numerics K) (d : ZScoreDetector K) (values : List K) (current : K) :
    DetectionResult K :=
  let arr := values ++ [current]
  let expected := if 1 < arr.length then mean arr.dropLast else current
  let std := if 2 < arr.length then N.std arr.dropLast else 0
  let z := units (current - expected) std
  judged z d.threshold (guardedScore z d.threshold) expected current "zscore"
    ("z=" ++ N.fixed4 z ++ " vs threshold " ++ N.str d.threshold)

theorem ZScoreDetector.detect_of_two_le (N : Numerics K) (d : ZScoreDetector K) {values : List K}
    (hsize : 2 ≤ values.length) (current : K) :
    d.detect N values current =
      let z := units (current - mean values) (N.std values)
      judged z d.threshold (guardedScore z d.threshold) (mean values) current "zscore"
        ("z=" ++ N.fixed4 z ++ " vs threshold " ++ N.str d.threshold) := by
  have hlength : (values ++ [current]).length = values.length + 1 := List.length_append
  have hmean : 1 < (values ++ [current]).length := by omega
  have hstd : 2 < (values ++ [current]).length := by omega
  simp only [ZScoreDetector.detect, if_pos hmean, if_pos hstd, List.dropLast_concat]

/-! ### Median absolute deviation -/

structure MADDetector (K : Type*) [Field K] where
  threshold : K := 7 / 2

def modifiedZ (distance mad : K) : K := if mad < tiny then 0 else |6745 / 10000 * distance / mad|

def MADDetector.detect (N : Numerics K) (d : MADDetector K) (values : List K) (current : K) :
    DetectionResult K :=
  if values.length < 3 then insufficient median values current "mad" "insufficient history for MAD"
  else
    let med := median values
    let mad := medianAbsoluteDeviation values
    let modZ := modifiedZ (current - med) mad
    judged modZ d.threshold (guardedScore modZ d.threshold) med current "mad"
      ("modified_z=" ++ N.fixed4 modZ ++ " vs threshold " ++ N.str d.threshold)

theorem modifiedZ_eq [IsStrictOrderedRing K] (distance mad : K) :
    modifiedZ distance mad = units (6745 / 10000 * distance) mad := by
  unfold modifiedZ units
  split
  · rfl
  · next h =>
    have hmad : 0 < mad := tiny_pos.trans_le (not_lt.mp h)
    rw [abs_div, abs_of_pos hmad]

theorem MADDetector.detect_of_three_le (N : Numerics K) (d : MADDetector K) {values : List K}
    (hsize : 3 ≤ values.length) (current : K) :
    d.detect N values current =
      let modZ := modifiedZ (current - median values) (medianAbsoluteDeviation values)
      judged modZ d.threshold (guardedScore modZ d.threshold) (median values) current "mad"
        ("modified_z=" ++ N.fixed4 modZ ++ " vs threshold " ++ N.str d.threshold) :=
  if_neg hsize.not_gt

/-! ### Exponentially weighted moving average -/

def ewmaLoop (alpha last : K) : List K → List K
  | [] => []
  | x :: arr =>
    let out := alpha * x + (1 - alpha) * last
    out :: ewmaLoop alpha out arr

def ewmaSeries (arr : List K) (span : Nat) : List K :=
  match arr with
  | [] => []
  | x :: arr => x :: ewmaLoop (2 / (span + 1)) x arr

structure EWMADetector (K : Type*) [Field K] where
  span : Nat
  sigmaThreshold : K
  two_le : 2 ≤ span

def EWMADetector.init (span : Int := 20) (sigmaThreshold : K := 3) : EWMADetector K where
  span := (max 2 span).toNat
  sigmaThreshold := sigmaThreshold
  two_le := by omega

/-- The last residuals of the history to its series, as many as the span has. -/
def EWMADetector.win (d : EWMADetector K) (history : List K) : List K :=
  let resid := List.zipWith (· - ·) history (ewmaSeries history d.span)
  resid.drop (resid.length - d.span)

def EWMADetector.expected (d : EWMADetector K) (values : List K) : K :=
  (ewmaSeries values d.span).getD (values.length - 1) 0

def EWMADetector.detect (N : Numerics K) (d : EWMADetector K) (values : List K) (current : K) :
    Option (DetectionResult K) :=
  if values.length < d.span then
    some (insufficient mean values current "ewma" "insufficient points for EWMA")
  else do
    let expected := d.expected values
    let win := d.win values
    let std := if 1 < win.length then N.std win else 0
    let z := units (current - expected) std
    let score ← bareScore z d.sigmaThreshold
    some (judged z d.sigmaThreshold score expected current "ewma" ("EWMA deviation z=" ++ N.fixed4 z))

omit [LinearOrder K] in
private theorem length_ewmaLoop (alpha last : K) (arr : List K) :
    (ewmaLoop alpha last arr).length = arr.length := by
  induction arr generalizing last with
  | nil => rfl
  | cons x arr ih => exact congrArg (· + 1) (ih _)

omit [LinearOrder K] in
theorem length_ewmaSeries (arr : List K) (span : Nat) : (ewmaSeries arr span).length = arr.length := by
  cases arr with
  | nil => rfl
  | cons x arr => exact congrArg (· + 1) (length_ewmaLoop _ x arr)

theorem EWMADetector.detect_of_span_le (N : Numerics K) (d : EWMADetector K) {values : List K}
    (hsize : d.span ≤ values.length) (current : K) :
    d.detect N values current =
      let z := units (current - d.expected values) (N.std (d.win values))
      (bareScore z d.sigmaThreshold).map fun score =>
        judged z d.sigmaThreshold score (d.expected values) current "ewma" ("EWMA deviation z=" ++ N.fixed4 z) := by
  have hwin : 1 < (d.win values).length := by
    have htwo := d.two_le
    simp only [EWMADetector.win, List.length_drop, List.length_zipWith, length_ewmaSeries]
    omega
  rw [EWMADetector.detect, if_neg hsize.not_gt]
  simp only [if_pos hwin]
  exact (Option.map_eq_bind ..).symm

/-! ### Seasonal decomposition -/

/-- `np.convolve(a, v)` at one place -/
def convolve (a v : List K) (i : Nat) : K :=
  ((List.range v.length).map (fun k => v.getD k 0 * if k ≤ i then a.getD (i - k) 0 else 0)).sum

/-- `np.convolve(a, v, mode="same")` -/
def convolveSame (a v : List K) : List K :=
  (List.range (max a.length v.length)).map fun i =>
    convolve a v (i + (min a.length v.length - 1) / 2)

def phaseMean (arr : List K) (period i : Nat) : K :=
  mean (((List.range arr.length).filter (fun j => j % period = i % period)).map (arr.getD · 0))

structure SeasonalDecompositionDetector (K : Type*) [Field K] where
  period : Nat
  zThreshold : K
  two_le : 2 ≤ period

namespace SeasonalDecompositionDetector
variable (d : SeasonalDecompositionDetector K)

def init (period : Int := 24) (zThreshold : K := 3) : SeasonalDecompositionDetector K where
  period := (max 2 period).toNat
  zThreshold := zThreshold
  two_le := by omega

def effectivePeriod (n : Nat) : Nat := min d.period (max 2 (n / 3))

def window (period : Nat) : Nat := max 3 (period / 2 ||| 1)

def detect (N : Numerics K) (values : List K) (current : K) : Option (DetectionResult K) :=
  let n := values.length
  let period := d.effectivePeriod n
  if n < period * 2 then
    some (insufficient mean values current "seasonal" "insufficient history for seasonal model")
  else do
    let kernel := List.replicate (window period) (1 / window period : K)
    let trend := convolveSame values kernel
    let detrended := List.zipWith (· - ·) values trend
    let seasonal := (List.range n).map (phaseMean detrended period)
    let residual := List.zipWith (· - ·) detrended seasonal
    let expected := trend.getD (n - 1) 0 + seasonal.getD (n - 1) 0
    let std := if 2 < n then N.std residual else 0
    let z := units (current - expected) std
    let score ← bareScore z d.zThreshold
    some (judged z d.zThreshold score expected current "seasonal" ("seasonal residual z=" ++ N.fixed4 z))

end SeasonalDecompositionDetector

/-! ### Isolation forest -/

/-- What is asked of a fitted `IsolationForest`. -/
structure FittedForest (K : Type*) where
  predict : K → Int
  decisionFunction : K → K

structure IsolationForestDetector (K : Type*) [Field K] where
  contamination : K := 1 / 20
  randomState : Int := 42

/-- `exp` is that of numpy, and `fit` the construction and the fitting of the forest. -/
def IsolationForestDetector.detect (N : Numerics K) (exp : K → K) (fit : K → Int → List K → FittedForest K)
    (d : IsolationForestDetector K) (values : List K) (current : K) : DetectionResult K :=
  if values.length < 8 then
    insufficient mean values current "isolation_forest" "insufficient history for isolation forest"
  else
    let clf := fit (min d.contamination (1 / 2)) d.randomState values
    let pred := clf.predict current
    let raw := clf.decisionFunction current
    let score := 1 / (1 + exp (raw * 4))
    { isAnomaly := pred = -1
      score := if pred = -1 then score else min score ((3 : Nat) / 10)
      expectedValue := some (mean values)
      actualValue := current
      deviation := |current - mean values|
      detectorName := "isolation_forest"
      severity := if pred = -1 then calculateSeverity score else "low"
      reason := "isolation score=" ++ N.fixed4 raw }

end BackendProjects.Anomaly.Detectors
