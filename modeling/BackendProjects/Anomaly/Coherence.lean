import BackendProjects.Anomaly.Detectors
import BackendProjects.Anomaly.Ingest
import Mathlib.Analysis.SpecialFunctions.Exp

/-! Flag, score and severity of a verdict fit together, and a value further from the expected one is never
judged more mildly. -/
namespace BackendProjects.Anomaly.Detectors
open Library SeasonalDecompositionDetector
variable {K : Type*} [Field K] [LinearOrder K]

def MonotoneInDistance (detect : K → Option (DetectionResult K)) : Prop :=
  ∀ c₁ c₂ r₁ r₂ e₁ e₂, detect c₁ = some r₁ → detect c₂ = some r₂ →
    r₁.expectedValue = some e₁ → r₂.expectedValue = some e₂ → |c₁ - e₁| ≤ |c₂ - e₂| →
    r₁.score ≤ r₂.score ∧ (r₁.isAnomaly = true → r₂.isAnomaly = true)

/-- With its history fixed, a detector either judges every value by the distance to the same expected one,
or finds nothing in any. -/
def JudgesByDistance (detect : K → Option (DetectionResult K)) : Prop :=
  (∃ (factor threshold expected spread : K) (name : String) (reason : K → String), 0 < threshold ∧ ∀ current,
    let z := units (factor * (current - expected)) spread
    detect current = some (judged z threshold (guardedScore z threshold) expected current name (reason z))) ∨
  ∀ current, ∃ r, detect current = some r ∧ r.isAnomaly = false ∧ r.score = 0 ∧ r.severity = "low"

/-- The detectors that measure a distance in units of a spread, with positive thresholds. -/
inductive Measures (N : Numerics K) : (List K → K → Option (DetectionResult K)) → Prop where
  | zscore (d : ZScoreDetector K) (h : 0 < d.threshold) :
      Measures N fun values current => some (d.detect N values current)
  | mad (d : MADDetector K) (h : 0 < d.threshold) :
      Measures N fun values current => some (d.detect N values current)
  | ewma (d : EWMADetector K) (h : 0 < d.sigmaThreshold) : Measures N (d.detect N)
  | seasonal (d : SeasonalDecompositionDetector K) (h : 0 < d.zThreshold) : Measures N (d.detect N)

inductive Registered (N : Numerics K) (exp : K → K) (fit : K → Int → List K → FittedForest K) :
    (List K → K → Option (DetectionResult K)) → Prop where
  | measures {detect} (h : Measures N detect) : Registered N exp fit detect
  | isolationForest (d : IsolationForestDetector K) :
      Registered N exp fit fun values current => some (d.detect N exp fit values current)

/-! ### Scores and their severity -/

private theorem calculateSeverity_cases {score : K} (h : 1 / 2 ≤ score) : calculateSeverity score = "critical" ∨
    calculateSeverity score = "high" ∨ calculateSeverity score = "medium" := by
  unfold calculateSeverity
  rw [if_pos h]
  split
  · exact .inl rfl
  · split
    · exact .inr (.inl rfl)
    · exact .inr (.inr rfl)

/-- A flagged verdict has the severity of its score, which is more than low. -/
theorem coherent_of_flag {r : DetectionResult K} (hnonneg : 0 ≤ r.score) (hone : r.score ≤ 1)
    (hscore : r.isAnomaly = true ↔ 1 / 2 < r.score)
    (hseverity : r.severity = if r.isAnomaly then calculateSeverity r.score else "low") : r.Coherent where
  score_nonneg := hnonneg
  score_le_one := hone
  score_iff := hscore
  severity_iff := by
    rw [hseverity]
    cases hflag : r.isAnomaly with
    | false => simp
    | true =>
      rw [if_pos rfl]
      rcases calculateSeverity_cases (hscore.mp hflag).le with h | h | h <;> simp [h]
  severity_eq := hseverity

private theorem guardedScore_of_pos {z threshold : K} (h : 0 < threshold) :
    guardedScore z threshold = min 1 (z / (threshold * 2)) :=
  if_pos h

/-! ### Distances in units of a spread -/

section Distances
variable [IsStrictOrderedRing K]

private theorem units_mono {distance₁ distance₂ : K} (h : |distance₁| ≤ |distance₂|) (spread : K) :
    units distance₁ spread ≤ units distance₂ spread := by
  unfold units
  split
  · exact le_refl _
  · next hspread => exact div_le_div_of_nonneg_right h (tiny_pos.le.trans (not_lt.mp hspread))

/-- The score is above a half exactly for what is above the threshold. -/
theorem half_lt_score_iff {z threshold : K} (h : 0 < threshold) :
    1 / 2 < min 1 (z / (threshold * 2)) ↔ threshold < z := by
  have hhalf : 1 / 2 * (threshold * 2) = threshold := by ring
  rw [lt_min_iff, lt_div_iff₀ (mul_pos h two_pos), hhalf]
  exact and_iff_right one_half_lt_one

private theorem judged_coherent {z threshold : K} (hz : 0 ≤ z) (h : 0 < threshold) (expected current : K)
    (name reason : String) :
    (judged z threshold (guardedScore z threshold) expected current name reason).Coherent := by
  rw [guardedScore_of_pos h]
  refine coherent_of_flag ?_ (min_le_left _ _) ?_ ?_
  · exact le_min zero_le_one (div_nonneg hz (mul_pos h two_pos).le)
  · exact decide_eq_true_iff.trans (half_lt_score_iff h).symm
  · simp [judged]

variable {detect : K → Option (DetectionResult K)}

private theorem JudgesByDistance.coherent (h : JudgesByDistance detect) (current : K) :
    ∃ r, detect current = some r ∧ r.Coherent := by
  rcases h with ⟨factor, threshold, expected, spread, name, reason, hpos, h⟩ | h
  · exact ⟨_, h current, judged_coherent (units_nonneg _ _) hpos ..⟩
  · obtain ⟨r, hr, hflag, hscore, hseverity⟩ := h current
    refine ⟨r, hr, coherent_of_flag hscore.ge (hscore.trans_le zero_le_one) ?_ ?_⟩
    · rw [hflag, hscore]
      simp
    · rw [hflag, hseverity]
      rfl

private theorem JudgesByDistance.monotone (h : JudgesByDistance detect) : MonotoneInDistance detect := by
  intro c₁ c₂ r₁ r₂ e₁ e₂ hr₁ hr₂ he₁ he₂ hle
  rcases h with ⟨factor, threshold, expected, spread, name, reason, hpos, h⟩ | h
  · obtain rfl := Option.some.inj ((h c₁).symm.trans hr₁)
    obtain rfl := Option.some.inj ((h c₂).symm.trans hr₂)
    obtain rfl : expected = e₁ := Option.some.inj he₁
    obtain rfl : expected = e₂ := Option.some.inj he₂
    have hunits : units (factor * (c₁ - expected)) spread ≤ units (factor * (c₂ - expected)) spread := by
      refine units_mono ?_ spread
      rw [abs_mul, abs_mul]
      exact mul_le_mul_of_nonneg_left hle (abs_nonneg _)
    refine ⟨?_, fun hflag => decide_eq_true ((of_decide_eq_true hflag).trans_le hunits)⟩
    dsimp only [judged]
    rw [guardedScore_of_pos hpos, guardedScore_of_pos hpos]
    exact min_le_min_left 1 (div_le_div_of_nonneg_right hunits (mul_pos hpos two_pos).le)
  · obtain ⟨r, hr, hflag, hscore, -⟩ := h c₁
    obtain ⟨r', hr', -, hscore', -⟩ := h c₂
    obtain rfl := Option.some.inj (hr.symm.trans hr₁)
    obtain rfl := Option.some.inj (hr'.symm.trans hr₂)
    exact ⟨(hscore.trans hscore'.symm).le, fun hyes => absurd (hflag.symm.trans hyes) Bool.false_ne_true⟩

/-! ### What each detector does with a history -/

variable (N : Numerics K)

omit [IsStrictOrderedRing K] in
private theorem judges_insufficient (centre : List K → K) (values : List K) (name reason : String) :
    JudgesByDistance fun current => some (insufficient centre values current name reason) :=
  .inr fun _ => ⟨_, rfl, rfl, rfl, rfl⟩

private theorem ZScoreDetector.judges (d : ZScoreDetector K) (h : 0 < d.threshold) (values : List K) :
    JudgesByDistance fun current => some (d.detect N values current) := by
  have hlength (current : K) : (values ++ [current]).length = values.length + 1 := List.length_append
  by_cases hvalues : values = []
  · -- without a history the expected value is the current one
    subst hvalues
    refine .inr fun current => ⟨_, rfl, ?_, ?_, ?_⟩ <;>
      simp [ZScoreDetector.detect, judged, units, tiny_pos, guardedScore, h, h.le]
  · refine .inl ⟨1, d.threshold, mean values, if 2 < values.length + 1 then N.std values else 0, "zscore",
      fun z => "z=" ++ N.fixed4 z ++ " vs threshold " ++ N.str d.threshold, h, fun current => ?_⟩
    have hmean : 1 < values.length + 1 := Nat.succ_lt_succ (List.length_pos_iff.mpr hvalues)
    simp only [ZScoreDetector.detect, hlength, if_pos hmean, List.dropLast_concat, one_mul]

private theorem MADDetector.judges (d : MADDetector K) (h : 0 < d.threshold) (values : List K) :
    JudgesByDistance fun current => some (d.detect N values current) := by
  by_cases hsize : values.length < 3
  · simp only [MADDetector.detect, if_pos hsize]
    exact judges_insufficient ..
  · refine .inl ⟨6745 / 10000, d.threshold, median values, medianAbsoluteDeviation values, "mad",
      fun z => "modified_z=" ++ N.fixed4 z ++ " vs threshold " ++ N.str d.threshold, h, fun current => ?_⟩
    simp only [d.detect_of_three_le N (not_lt.mp hsize), modifiedZ_eq]

private theorem EWMADetector.judges (d : EWMADetector K) (h : 0 < d.sigmaThreshold) (values : List K) :
    JudgesByDistance (d.detect N values) := by
  by_cases hsize : values.length < d.span
  · have hdetect : d.detect N values = fun current =>
        some (insufficient mean values current "ewma" "insufficient points for EWMA") :=
      funext fun current => if_pos hsize
    rw [hdetect]
    exact judges_insufficient ..
  · refine .inl ⟨1, d.sigmaThreshold, d.expected values, N.std (d.win values), "ewma",
      fun z => "EWMA deviation z=" ++ N.fixed4 z, h, fun current => ?_⟩
    simp only [d.detect_of_span_le N (not_lt.mp hsize), one_mul, bareScore_of_pos h, guardedScore_of_pos h,
      Option.map_some]

/-- A long history decides about the expected value and the spread, whatever value follows. -/
private theorem SeasonalDecompositionDetector.detect_of_period_le (d : SeasonalDecompositionDetector K)
    (h : 0 < d.zThreshold) {values : List K} (hsize : ¬ values.length < d.effectivePeriod values.length * 2) :
    ∃ expected spread, ∀ current, d.detect N values current =
      let z := units (current - expected) spread
      some (judged z d.zThreshold (guardedScore z d.zThreshold) expected current "seasonal"
        ("seasonal residual z=" ++ N.fixed4 z)) := by
  let period := d.effectivePeriod values.length
  let trend := convolveSame values (List.replicate (window period) (1 / window period : K))
  let detrended := List.zipWith (· - ·) values trend
  let seasonal := (List.range values.length).map (phaseMean detrended period)
  let residual := List.zipWith (· - ·) detrended seasonal
  refine ⟨trend.getD (values.length - 1) 0 + seasonal.getD (values.length - 1) 0,
    if 2 < values.length then N.std residual else 0, fun current => ?_⟩
  rw [SeasonalDecompositionDetector.detect, if_neg hsize]
  simp only [bareScore_of_pos h, guardedScore_of_pos h]
  rfl

private theorem SeasonalDecompositionDetector.judges (d : SeasonalDecompositionDetector K) (h : 0 < d.zThreshold)
    (values : List K) : JudgesByDistance (d.detect N values) := by
  by_cases hsize : values.length < d.effectivePeriod values.length * 2
  · have hdetect : d.detect N values = fun current =>
        some (insufficient mean values current "seasonal" "insufficient history for seasonal model") :=
      funext fun current => if_pos hsize
    rw [hdetect]
    exact judges_insufficient ..
  · obtain ⟨expected, spread, hdetect⟩ := d.detect_of_period_le N h hsize
    refine .inl ⟨1, d.zThreshold, expected, spread, "seasonal", fun z => "seasonal residual z=" ++ N.fixed4 z,
      h, fun current => ?_⟩
    simp only [hdetect, one_mul]

/-- Every one of the four judges by the distance. -/
private theorem Measures.judges {detect : List K → K → Option (DetectionResult K)} (h : Measures N detect)
    (values : List K) : JudgesByDistance (detect values) := by
  cases h with
  | zscore d h => exact d.judges N h values
  | mad d h => exact d.judges N h values
  | ewma d h => exact d.judges N h values
  | seasonal d h => exact d.judges N h values

end Distances

section Forest

private theorem half_lt_logistic_iff (x : ℝ) : 1 / 2 < 1 / (1 + Real.exp x) ↔ x < 0 := by
  have hpos : 0 < 1 + Real.exp x := add_pos one_pos (Real.exp_pos x)
  have htwo : (2 : ℝ) = 1 + 1 := one_add_one_eq_two.symm
  rw [one_div_lt_one_div two_pos hpos, htwo, add_lt_add_iff_left, Real.exp_lt_one_iff]

/-- The two cut-offs of the isolation forest agree where its prediction follows its decision function. -/
private theorem IsolationForestDetector.detect_coherent (N : Numerics ℝ)
    {fit : ℝ → Int → List ℝ → FittedForest ℝ} (hpredict : ∀ contamination randomState values current,
      (fit contamination randomState values).predict current = -1 ↔
        (fit contamination randomState values).decisionFunction current < 0)
    (d : IsolationForestDetector ℝ) (values : List ℝ) (current : ℝ) :
    (d.detect N Real.exp fit values current).Coherent := by
  rw [IsolationForestDetector.detect]
  split
  · obtain ⟨r, hr, hcoherent⟩ := (judges_insufficient mean values "isolation_forest"
      "insufficient history for isolation forest").coherent current
    exact Option.some.inj hr ▸ hcoherent
  · have hlogistic (x : ℝ) : 0 ≤ 1 / (1 + Real.exp x) ∧ 1 / (1 + Real.exp x) ≤ 1 := by
      have hone : 1 ≤ 1 + Real.exp x := le_add_of_nonneg_right (Real.exp_pos x).le
      exact ⟨div_nonneg zero_le_one (zero_le_one.trans hone), div_le_one_of_le₀ hone (zero_le_one.trans hone)⟩
    have hclf := hpredict (min d.contamination (1 / 2)) d.randomState values current
    dsimp only
    generalize fit (min d.contamination (1 / 2)) d.randomState values = clf at hclf ⊢
    by_cases hpred : clf.predict current = -1
    · have hraw : clf.decisionFunction current * 4 < 0 := mul_neg_of_neg_of_pos (hclf.mp hpred) four_pos
      refine coherent_of_flag ?_ ?_ ?_ ?_ <;> simp only [if_pos hpred]
      · exact (hlogistic _).1
      · exact (hlogistic _).2
      · exact iff_of_true (decide_eq_true hpred) ((half_lt_logistic_iff _).mpr hraw)
      · exact (if_pos (decide_eq_true hpred)).symm
    · have hlow : ¬ (1 / 2 : ℝ) < (3 : Nat) / 10 := by norm_num
      refine coherent_of_flag ?_ ?_ ?_ ?_ <;> simp only [if_neg hpred]
      · exact le_min (hlogistic _).1 (by norm_num)
      · exact (min_le_left _ _).trans (hlogistic _).2
      · exact iff_of_false (by simp [hpred]) fun h => hlow (lt_min_iff.mp h).2
      · simp only [hpred, decide_false, Bool.false_eq_true, if_false]

/-- Every registered detector returns a coherent verdict. -/
private theorem Registered.coherent {N : Numerics ℝ} {fit : ℝ → Int → List ℝ → FittedForest ℝ}
    (hpredict : ∀ contamination randomState values current,
      (fit contamination randomState values).predict current = -1 ↔
        (fit contamination randomState values).decisionFunction current < 0)
    {detect : List ℝ → ℝ → Option (DetectionResult ℝ)} (h : Registered N Real.exp fit detect)
    (values : List ℝ) (current : ℝ) : ∃ r, detect values current = some r ∧ r.Coherent := by
  cases h with
  | measures h => exact (h.judges N values).coherent current
  | isolationForest d => exact ⟨_, rfl, d.detect_coherent N hpredict values current⟩

end Forest

end BackendProjects.Anomaly.Detectors

/-! ### The rules that a recorded anomaly meets -/

namespace BackendProjects.Anomaly
open Library Workflow Detectors

/-- A detector of the platform flags what a detector in exact arithmetic flags of the numbers that the floats
are read as, and finds it as severe. -/
def Detector.Follows {K : Type*} (d : Detector) (reading : PyFloat → K)
    (detect : List K → K → Option (Detectors.DetectionResult K)) : Prop :=
  ∀ values current, ∃ r, detect (values.map reading) (reading current) = some r ∧
    (d.detect values current).isAnomaly = r.isAnomaly ∧ (d.detect values current).severity = r.severity

/-- A record is written for a flagged result, with its severity. -/
theorem runDetection_severity {P : Platform} {st : Stores} {sourceName metricName : String} {value : PyFloat}
    {recordId : String → RecordId} {row : AnomalyRecord}
    (h : Write.record row ∈ P.runDetection st sourceName metricName value recordId) :
    ∃ d ∈ P.detectors, ∃ values current,
      (d.detect values current).isAnomaly = true ∧ row.severity = (d.detect values current).severity := by
  refine runDetection_forall (Q := fun w => ∀ row, w = .record row → ∃ d ∈ P.detectors, ∃ values current,
    (d.detect values current).isAnomaly = true ∧ row.severity = (d.detect values current).severity)
    ?_ ?_ _ h row rfl
  · intro source values current d _ _ hd hflag row hrow
    exact ⟨d, hd, values, current, hflag, by rw [← Write.record.inj hrow]; rfl⟩
  · exact fun _ _ _ _ hrow => nomatch hrow

private theorem severityMeetsThreshold_of_coherent {K : Type*} [Field K] [LinearOrder K]
    {r : Detectors.DetectionResult K} (h : r.Coherent) (hflag : r.isAnomaly = true) {threshold : String}
    (hthreshold : threshold = "low" ∨ threshold = "medium") :
    severityMeetsThreshold r.severity threshold = true := by
  rw [h.severity_eq, if_pos hflag]
  rcases calculateSeverity_cases (h.score_iff.mp hflag).le with hs | hs | hs <;>
    rcases hthreshold with rfl | rfl <;> rw [hs] <;> rfl

/-- Flag, score and severity of every verdict fit together, those of the four detectors that measure a distance
grow with it, and what is recorded meets every rule that asks for low or medium severity. -/
theorem verdicts_cohere (N : Numerics ℝ) {fit : ℝ → Int → List ℝ → FittedForest ℝ}
    (hpredict : ∀ contamination randomState values current,
      (fit contamination randomState values).predict current = -1 ↔
        (fit contamination randomState values).decisionFunction current < 0) :
    (∀ detect, Registered N Real.exp fit detect → ∀ values current,
      ∃ r, detect values current = some r ∧ r.Coherent) ∧
    (∀ detect, Measures N detect → ∀ values, MonotoneInDistance (detect values)) ∧
    ∀ P : Platform,
      (∀ d ∈ P.detectors, ∃ reading detect, Registered N Real.exp fit detect ∧ d.Follows reading detect) →
      ∀ st sourceName metricName value recordId row,
        Write.record row ∈ P.runDetection st sourceName metricName value recordId →
        ∀ rule : AlertRule, rule.severityThreshold = "low" ∨ rule.severityThreshold = "medium" →
          severityMeetsThreshold row.severity rule.severityThreshold = true := by
  refine ⟨?_, ?_, ?_⟩
  · exact fun detect hdetect => hdetect.coherent hpredict
  · exact fun detect hdetect values => (hdetect.judges N values).monotone
  · intro P hP st sourceName metricName value recordId row hrow rule hrule
    obtain ⟨d, hd, values, current, hflag, hseverity⟩ := runDetection_severity hrow
    obtain ⟨reading, detect, hdetect, hfollows⟩ := hP d hd
    obtain ⟨r, hr, hisAnomaly, hsevere⟩ := hfollows values current
    obtain ⟨r', hr', hcoherent⟩ := hdetect.coherent hpredict (values.map reading) (reading current)
    obtain rfl := Option.some.inj (hr.symm.trans hr')
    rw [hseverity, hsevere]
    exact severityMeetsThreshold_of_coherent hcoherent (hisAnomaly.symm.trans hflag) hrule

private def constantForest : FittedForest ℝ where
  predict _ := 1
  decisionFunction _ := 0

private noncomputable def readFloat : PyFloat → ℝ
  | .finite q => q
  | .inf _ => 0
  | .nan => 0

private noncomputable def zscoreDetector (d : ZScoreDetector ℝ) : Detector where
  detect values current :=
    let r := d.detect Numerics.real (values.map readFloat) (readFloat current)
    { isAnomaly := r.isAnomaly, score := .nan, expectedValue := none, actualValue := current
      deviation := .nan, detectorName := r.detectorName, severity := r.severity, reason := r.reason }
  actual _ _ := rfl

private noncomputable def zscorePlatform (d : ZScoreDetector ℝ) : Platform where
  reprFloat _ := ""
  detectors := [zscoreDetector d]

theorem verdicts_cohere_zscore :
    (IsolationForestDetector.detect Numerics.real Real.exp (fun _ _ _ => constantForest) {}
      (List.replicate 8 10) 10).Coherent ∧
    MonotoneInDistance (fun current => some ((⟨1⟩ : ZScoreDetector ℝ).detect Numerics.real [1, 2, 3] current)) ∧
    ∀ st row, Write.record row ∈ (zscorePlatform ⟨1⟩).runDetection st "sensor" "cpu" .nan id →
      severityMeetsThreshold row.severity "medium" = true := by
  have hpredict (contamination : ℝ) (randomState : Int) (values : List ℝ) (current : ℝ) :
      constantForest.predict current = -1 ↔ constantForest.decisionFunction current < 0 :=
    iff_of_false (show (1 : Int) ≠ -1 by decide) (lt_irrefl 0)
  have hzscore : Measures Numerics.real fun values current =>
      some ((⟨1⟩ : ZScoreDetector ℝ).detect Numerics.real values current) := .zscore ⟨1⟩ one_pos
  obtain ⟨hcoherent, hmonotone, hmeets⟩ :=
    @verdicts_cohere Numerics.real (fun _ _ _ => constantForest) hpredict
  refine ⟨?_, hmonotone _ hzscore [1, 2, 3], fun st row hrow => ?_⟩
  · obtain ⟨r, hr, h⟩ := hcoherent _ (.isolationForest {}) (List.replicate 8 10) 10
    exact Option.some.inj hr ▸ h
  · refine hmeets (zscorePlatform ⟨1⟩) (fun d hd => ?_) st _ _ _ _ row hrow
      { id := "r", sourceId := none, metricName := none, detectorType := "zscore"
        severityThreshold := "medium" } (.inr rfl)
    obtain rfl := List.mem_singleton.mp hd
    exact ⟨readFloat, _, .measures hzscore, fun values current => ⟨_, rfl, rfl, rfl⟩⟩

end BackendProjects.Anomaly
