import BackendProjects.Workflow.Retry
import Mathlib.Algebra.Order.Field.Basic
import Mathlib.Tactic.NormNum

/-! Which back-off delays respect the configured maximum, and which are defined at all. -/
namespace BackendProjects.Workflow

/-! ### Exact delays -/

/-- The delay before jitter if every int fitted in a double. -/
def RetryStrategy.exactBackoff : RetryStrategy → Nat → Rat
  | .fixed delay, _ => delay
  | .exponential baseDelay maxDelay _, attempt => min (baseDelay * 2 ^ (attempt - 1)) maxDelay
  | .linear initialDelay increment maxDelay, attempt =>
      min (initialDelay + increment * ((attempt : Rat) - 1)) maxDelay

namespace RetryConfig
variable (config : RetryConfig)

def exactStrategy : RetryStrategy :=
  if config.strategy = "exponential" then .exponential config.delaySeconds config.maxDelaySeconds true
  else if config.strategy = "linear" then
    .linear config.delaySeconds config.delaySeconds config.maxDelaySeconds
  else .fixed config.delaySeconds

def exactDelay (attempt : Nat) (sample : Rat) : Rat :=
  config.exactStrategy.jittered sample (config.exactStrategy.exactBackoff attempt)

/-- A jitter that stretches the delay does not stretch it over the maximum, and a constant delay is not
over it from the start. -/
def KeepsMaximum (attempt : Nat) (sample : Rat) : Prop :=
  if config.strategy = "exponential" then
    config.maxDelaySeconds = 0 ∨ sample ≤ 1 / 2 ∨
      config.delaySeconds * 2 ^ (attempt - 1) * (1 / 2 + sample) ≤ (config.maxDelaySeconds : Rat)
  else config.strategy = "linear" ∨ config.delaySeconds ≤ config.maxDelaySeconds

end RetryConfig

private theorem eq_of_toFloat {i : Int} {x : Rat} (h : toFloat i = .ok x) : x = i := by
  unfold toFloat at h
  split at h
  · exact (Except.ok.inj h).symm
  · cases h

private theorem eq_exactStrategy {config : RetryConfig} {strategy : RetryStrategy}
    (h : getRetryStrategy (some config) = .ok strategy) : strategy = config.exactStrategy := by
  unfold RetryConfig.exactStrategy
  by_cases hexp : config.strategy = "exponential"
  · rw [getRetryStrategy_exponential hexp] at h
    obtain ⟨baseDelay, hbase, h⟩ := ok_bind h
    obtain ⟨maxDelay, hmax, h⟩ := ok_bind h
    rw [if_pos hexp, ← eq_of_toFloat hbase, ← eq_of_toFloat hmax]
    exact (Except.ok.inj h).symm
  · rw [if_neg hexp]
    by_cases hlin : config.strategy = "linear"
    · rw [getRetryStrategy_linear hlin] at h
      obtain ⟨d, hd, h⟩ := ok_bind h
      obtain ⟨maxDelay, hmax, h⟩ := ok_bind h
      rw [if_pos hlin, ← eq_of_toFloat hd, ← eq_of_toFloat hmax]
      exact (Except.ok.inj h).symm
    · rw [getRetryStrategy_fixed hexp hlin] at h
      obtain ⟨d, hd, h⟩ := ok_bind h
      rw [if_neg hlin, ← eq_of_toFloat hd]
      exact (Except.ok.inj h).symm

private theorem RetryStrategy.eq_exactBackoff {strategy : RetryStrategy} {attempt : Nat} {delay : Rat}
    (h : strategy.backoff attempt = .ok delay) : delay = strategy.exactBackoff attempt := by
  cases strategy with
  | fixed d => exact (Except.ok.inj h).symm
  | exponential baseDelay maxDelay jitter =>
    rw [backoff] at h
    obtain ⟨factor, hfactor, rfl⟩ := ok_map h
    rw [exactBackoff, eq_of_toFloat hfactor, Int.cast_pow, Int.cast_ofNat]
  | linear initialDelay increment maxDelay =>
    rw [backoff] at h
    obtain ⟨factor, hfactor, rfl⟩ := ok_map h
    rw [exactBackoff, eq_of_toFloat hfactor, Int.cast_sub, Int.cast_natCast, Int.cast_one]

/-- A delay that the loop gets is the exact one. -/
theorem eq_exactDelay {config : RetryConfig} {attempt : Nat} {sample delay : Rat}
    (h : (getRetryStrategy (some config)).bind (·.getDelay attempt sample) = .ok delay) :
    delay = config.exactDelay attempt sample := by
  obtain ⟨strategy, hstrategy, hdelay⟩ := ok_bind h
  obtain ⟨plain, hplain, rfl⟩ := ok_map hdelay
  rw [RetryConfig.exactDelay, ← eq_exactStrategy hstrategy, ← RetryStrategy.eq_exactBackoff hplain]

/-! ### The configured maximum -/

/-- A bounded number that is scaled stays within its bound unless the factor stretches the bound and what it
was taken of. -/
theorem min_mul_le_iff {x bound factor : Rat} (hbound : 0 ≤ bound) (hfactor : 0 ≤ factor) :
    min x bound * factor ≤ bound ↔ bound = 0 ∨ factor ≤ 1 ∨ x * factor ≤ bound := by
  have hstretch : bound * factor ≤ bound ↔ bound = 0 ∨ factor ≤ 1 := by
    rcases hbound.eq_or_lt with rfl | hpos
    · simp
    · rw [mul_le_iff_le_one_right hpos, or_iff_right hpos.ne']
  rw [min_mul_of_nonneg _ _ hfactor, min_le_iff, hstretch, or_comm, or_assoc]

section Maximum
variable {config : RetryConfig} {attempt : Nat} {sample : Rat}

private theorem exactDelay_exponential (h : config.strategy = "exponential") :
    config.exactDelay attempt sample =
      min ((config.delaySeconds : Rat) * 2 ^ (attempt - 1)) config.maxDelaySeconds * (1 / 2 + sample) := by
  rw [RetryConfig.exactDelay, RetryConfig.exactStrategy, if_pos h]
  rfl

private theorem exactDelay_linear (h : config.strategy = "linear") :
    config.exactDelay attempt sample =
      min ((config.delaySeconds : Rat) + config.delaySeconds * (attempt - 1)) config.maxDelaySeconds := by
  have hexp : config.strategy ≠ "exponential" := by
    rw [h]
    decide
  rw [RetryConfig.exactDelay, RetryConfig.exactStrategy, if_neg hexp, if_pos h]
  rfl

private theorem exactDelay_fixed (hexp : config.strategy ≠ "exponential") (hlin : config.strategy ≠ "linear") :
    config.exactDelay attempt sample = config.delaySeconds := by
  rw [RetryConfig.exactDelay, RetryConfig.exactStrategy, if_neg hexp, if_neg hlin]
  rfl

private theorem exactDelay_nonneg (hdelay : 0 ≤ config.delaySeconds) (hmax : 0 ≤ config.maxDelaySeconds)
    (hattempt : 1 ≤ attempt) (hsample : 0 ≤ sample) : 0 ≤ config.exactDelay attempt sample := by
  have hdelay' : (0 : Rat) ≤ config.delaySeconds := Int.cast_nonneg hdelay
  have hmax' : (0 : Rat) ≤ config.maxDelaySeconds := Int.cast_nonneg hmax
  have hsteps : (0 : Rat) ≤ (attempt : Rat) - 1 := sub_nonneg.mpr (by exact_mod_cast hattempt)
  by_cases hexp : config.strategy = "exponential"
  · rw [exactDelay_exponential hexp]
    exact mul_nonneg (le_min (mul_nonneg hdelay' (by positivity)) hmax') (by positivity)
  · by_cases hlin : config.strategy = "linear"
    · rw [exactDelay_linear hlin]
      exact le_min (add_nonneg hdelay' (mul_nonneg hdelay' hsteps)) hmax'
    · rw [exactDelay_fixed hexp hlin]
      exact hdelay'

/-- Delays are never negative, and each strategy keeps to the maximum in its own cases: the exponential one
scales a delay after it was bounded, and the constant one does not look at the bound. -/
theorem delay_within_maximum_iff (hdelay : 0 ≤ config.delaySeconds) (hmax : 0 ≤ config.maxDelaySeconds)
    (hattempt : 1 ≤ attempt) (hsample : 0 ≤ sample) :
    (∀ delay, (getRetryStrategy (some config)).bind (·.getDelay attempt sample) = .ok delay →
      delay = config.exactDelay attempt sample) ∧
    (0 ≤ config.exactDelay attempt sample ∧
      config.exactDelay attempt sample ≤ config.maxDelaySeconds ↔ config.KeepsMaximum attempt sample) := by
  refine ⟨fun delay h => eq_exactDelay h, ?_⟩
  rw [and_iff_right (exactDelay_nonneg hdelay hmax hattempt hsample), RetryConfig.KeepsMaximum]
  by_cases hexp : config.strategy = "exponential"
  · have hfactor : 0 ≤ 1 / 2 + sample := by positivity
    have hstretch : 1 / 2 + sample ≤ 1 ↔ sample ≤ 1 / 2 := by constructor <;> intro h <;> linarith
    rw [if_pos hexp, exactDelay_exponential hexp, min_mul_le_iff (Int.cast_nonneg hmax) hfactor, hstretch,
      Int.cast_eq_zero]
  · rw [if_neg hexp]
    by_cases hlin : config.strategy = "linear"
    · rw [exactDelay_linear hlin]
      exact iff_of_true (min_le_right _ _) (.inl hlin)
    · rw [exactDelay_fixed hexp hlin, or_iff_right hlin]
      exact Int.cast_le

end Maximum

theorem delay_within_maximum_iff_readme :
    RetryConfig.exactDelay { strategy := "exponential", delaySeconds := 2, maxDelaySeconds := 120 } 3 (1 / 4)
      ≤ 120 :=
  ((@delay_within_maximum_iff { strategy := "exponential", delaySeconds := 2, maxDelaySeconds := 120 } 3 (1 / 4)
    (by decide) (by decide) (by decide) (by norm_num)).2.mpr (.inr (.inl (by norm_num)))).2

/-- The eighth attempt waits for 375 seconds instead of at most 300, and a constant delay of 500 seconds is not
bounded at all. -/
theorem jitter_and_constant_exceed_maximum :
    (getRetryStrategy (some { strategy := "exponential" })).bind (·.getDelay 8 (3 / 4)) = .ok 375 ∧
    (getRetryStrategy (some { delaySeconds := 500 })).bind (·.getDelay 1 0) = .ok 500 ∧
    ¬ (375 : Rat) ≤ (RetryConfig.maxDelaySeconds {}) ∧ ¬ (500 : Rat) ≤ (RetryConfig.maxDelaySeconds {}) := by
  refine ⟨?_, ?_, by norm_num, by norm_num⟩
  · decide +kernel
  · decide +kernel

/-! ### Delays that are not defined -/

/-- The settings are read without an error, and then every admitted attempt has a delay exactly if the strategy
can convert what it takes of the attempt's number. -/
theorem delay_defined_iff {config : RetryConfig} (hdelay : FitsFloat config.delaySeconds)
    (hmax : FitsFloat config.maxDelaySeconds) {attempt : Nat} (_ : 1 ≤ attempt)
    (_ : (attempt : Int) < config.maxAttempts) :
    (∃ strategy, getRetryStrategy (some config) = .ok strategy ∧
      ∀ sample, ∃ delay, strategy.getDelay attempt sample = .ok delay) ↔
    (config.strategy = "exponential" → attempt ≤ 1024) ∧
      (config.strategy = "linear" → FitsFloat ((attempt : Int) - 1)) := by
  have hsettings : SettingsFit (some config) := by
    intro config' h
    obtain rfl := Option.some.inj h
    exact ⟨hdelay, fun _ => hmax⟩
  have hfactor : FactorFits (some config) attempt ↔ (config.strategy = "exponential" → attempt ≤ 1024) ∧
      (config.strategy = "linear" → FitsFloat ((attempt : Int) - 1)) :=
    ⟨fun h => h config rfl, fun h config' hconfig => Option.some.inj hconfig ▸ h⟩
  rw [← hfactor]
  have hok := getRetryStrategy_isOk.mpr hsettings
  cases hstrategy : getRetryStrategy (some config) with
  | error e =>
    rw [hstrategy] at hok
    cases hok
  | ok strategy =>
    rw [← RetryStrategy.backoff_isOk hstrategy attempt]
    constructor
    · rintro ⟨strategy', h, hdelays⟩
      obtain rfl := Except.ok.inj h
      obtain ⟨delay, hdelay⟩ := hdelays 0
      rw [← strategy.getDelay_isOk attempt 0, hdelay]
      rfl
    · exact fun h => ⟨strategy, rfl, strategy.exists_getDelay h⟩

theorem delay_defined_iff_default :
    ∃ strategy, getRetryStrategy (some { strategy := "exponential" }) = .ok strategy ∧
      ∀ sample, ∃ delay, strategy.getDelay 2 sample = .ok delay :=
  (@delay_defined_iff { strategy := "exponential" } (toFloat_isOk.mp (by decide +kernel))
    (toFloat_isOk.mp (by decide +kernel)) 2 (by decide) (by decide)).mpr
      ⟨fun _ => by decide, fun h => absurd h (by decide)⟩

/-- The settings fit, and the delay of the attempt 1025 of 1030 raises, whatever the sample. -/
theorem patient_delay_raises :
    FitsFloat 5 ∧ FitsFloat 300 ∧ (1025 : Int) < RetryConfig.maxAttempts { maxAttempts := 1030 } ∧
      ∀ sample, (getRetryStrategy (some { maxAttempts := 1030, strategy := "exponential" })).bind
        (·.getDelay 1025 sample) = .error (.overflowError "int too large to convert to float") := by
  refine ⟨toFloat_isOk.mp (by decide +kernel), toFloat_isOk.mp (by decide +kernel), by decide, fun sample => ?_⟩
  have hdelay : toFloat 5 = .ok 5 := by decide +kernel
  have hmax : toFloat 300 = .ok 300 := by decide +kernel
  have hfactor : toFloat (2 ^ (1025 - 1)) = .error (.overflowError "int too large to convert to float") := by
    decide +kernel
  have hstrategy : getRetryStrategy (some { maxAttempts := 1030, strategy := "exponential" }) =
      .ok (.exponential 5 300 true) := by
    rw [getRetryStrategy_exponential rfl, hdelay, hmax]
    rfl
  rw [hstrategy, Except.bind, RetryStrategy.getDelay, RetryStrategy.backoff, hfactor]
  rfl

end BackendProjects.Workflow
