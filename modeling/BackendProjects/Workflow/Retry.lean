import BackendProjects.Workflow.Values
import Mathlib.Algebra.Order.Field.Rat
import Mathlib.Tactic.Linarith

/-! Retry strategies. Delays are exact rationals; what is kept of double arithmetic is that
an integer which does not fit in a double cannot be converted to one. -/
namespace BackendProjects.Workflow

structure RetryConfig where
  maxAttempts : Int := 3
  strategy : String := "fixed"
  delaySeconds : Int := 5
  maxDelaySeconds : Int := 300
  deriving DecidableEq

/-- `float(i)` for an int; from 2^1024 - 2^970 on, rounding leaves the range of a double. -/
def toFloat (i : Int) : Except PyError Rat :=
  if |i| < 2 ^ 1024 - 2 ^ 970 then .ok i else .error (.overflowError "int too large to convert to float")

inductive RetryStrategy where
  | fixed (delay : Rat)
  | exponential (baseDelay maxDelay : Rat) (jitter : Bool)
  | linear (initialDelay increment maxDelay : Rat)

def RetryStrategy.backoff : RetryStrategy → Nat → Except PyError Rat
  | .fixed delay, _ => .ok delay
  | .exponential baseDelay maxDelay _, attempt =>
      (toFloat (2 ^ (attempt - 1))).map (fun factor => min (baseDelay * factor) maxDelay)
  | .linear initialDelay increment maxDelay, attempt =>
      (toFloat ((attempt : Int) - 1)).map (fun factor => min (initialDelay + increment * factor) maxDelay)

/-- Only the exponential strategy scales its delay, by a random sample from [0, 1). -/
def RetryStrategy.jittered (sample delay : Rat) : RetryStrategy → Rat
  | .exponential _ _ true => delay * (1 / 2 + sample)
  | _ => delay

def RetryStrategy.getDelay (strategy : RetryStrategy) (attempt : Nat) (sample : Rat) :
    Except PyError Rat :=
  (strategy.backoff attempt).map (fun delay => strategy.jittered sample delay)

/-- The settings of a task always carry all four fields; a task without settings gets the
default fixed delay. -/
def getRetryStrategy : Option RetryConfig → Except PyError RetryStrategy
  | none => .ok (.fixed 5)
  | some config => do
      if config.strategy = "exponential" then
        let baseDelay ← toFloat config.delaySeconds
        let maxDelay ← toFloat config.maxDelaySeconds
        return .exponential baseDelay maxDelay true
      if config.strategy = "linear" then
        let d ← toFloat config.delaySeconds
        let maxDelay ← toFloat config.maxDelaySeconds
        return .linear d d maxDelay
      let d ← toFloat config.delaySeconds
      return .fixed d

/-- The integers that a double can come near to. -/
def FitsFloat (i : Int) : Prop := |i| < 2 ^ 1024 - 2 ^ 970

theorem toFloat_isOk {i : Int} : (toFloat i).toBool = true ↔ FitsFloat i := by
  unfold toFloat FitsFloat
  split
  · next h => exact iff_of_true rfl h
  · next h => exact iff_of_false Bool.false_ne_true h

/-- The largest power of two that fits in a double. -/
theorem fitsFloat_two_pow {n : Nat} : FitsFloat (2 ^ n) ↔ n ≤ 1023 := by
  rw [FitsFloat, abs_of_pos (by positivity)]
  constructor
  · intro hlt
    by_contra hn
    have hle : (2 : Int) ^ 1024 ≤ 2 ^ n := pow_le_pow_right₀ (by norm_num) (by omega)
    exact absurd (hlt.trans_le (sub_le_self _ (by positivity))) hle.not_gt
  · intro hn
    have hle : (2 : Int) ^ n ≤ 2 ^ 1023 := pow_le_pow_right₀ (by norm_num) hn
    have hhalf : (2 : Int) ^ 970 < 2 ^ 1023 := pow_lt_pow_right₀ (by norm_num) (by norm_num)
    have hdouble : (2 : Int) ^ 1024 = 2 * 2 ^ 1023 := pow_succ' 2 1023
    rw [hdouble, two_mul]
    exact lt_sub_iff_add_lt.mpr (add_lt_add_of_le_of_lt hle hhalf)

/-- Whether a delay is defined does not depend on the random sample. -/
theorem RetryStrategy.getDelay_isOk (strategy : RetryStrategy) (attempt : Nat) (sample : Rat) :
    (strategy.getDelay attempt sample).toBool = (strategy.backoff attempt).toBool := by
  unfold getDelay
  cases strategy.backoff attempt <;> rfl

theorem RetryStrategy.exists_getDelay (strategy : RetryStrategy) {attempt : Nat}
    (h : (strategy.backoff attempt).toBool = true) (sample : Rat) :
    ∃ delay, strategy.getDelay attempt sample = .ok delay := by
  rw [← strategy.getDelay_isOk attempt sample] at h
  cases hd : strategy.getDelay attempt sample with
  | error e =>
    rw [hd] at h
    cases h
  | ok delay => exact ⟨delay, rfl⟩

/-- What two steps return comes from what the first of them returned. -/
theorem ok_bind {α β : Type} {x : Except PyError α} {f : α → Except PyError β} {b : β}
    (h : x >>= f = .ok b) : ∃ a, x = .ok a ∧ f a = .ok b := by
  cases x with
  | error e => cases h
  | ok a => exact ⟨a, rfl, h⟩

theorem ok_map {α β : Type} {x : Except PyError α} {f : α → β} {b : β} (h : x.map f = .ok b) :
    ∃ a, x = .ok a ∧ f a = b := by
  cases x with
  | error e => cases h
  | ok a => exact ⟨a, rfl, Except.ok.inj h⟩

/-! ### Which delays are defined -/

def SettingsFit (retryConfig : Option RetryConfig) : Prop :=
  ∀ config, retryConfig = some config → FitsFloat config.delaySeconds ∧
    (config.strategy = "exponential" ∨ config.strategy = "linear" → FitsFloat config.maxDelaySeconds)

def FactorFits (retryConfig : Option RetryConfig) (attempt : Nat) : Prop :=
  ∀ config, retryConfig = some config → (config.strategy = "exponential" → attempt ≤ 1024) ∧
    (config.strategy = "linear" → FitsFloat ((attempt : Int) - 1))

section Strategies
variable {config : RetryConfig}

theorem getRetryStrategy_exponential (h : config.strategy = "exponential") :
    getRetryStrategy (some config) = (do
      let baseDelay ← toFloat config.delaySeconds
      let maxDelay ← toFloat config.maxDelaySeconds
      return .exponential baseDelay maxDelay true) := by
  simp only [getRetryStrategy, h, if_true]

theorem getRetryStrategy_linear (h : config.strategy = "linear") :
    getRetryStrategy (some config) = (do
      let d ← toFloat config.delaySeconds
      let maxDelay ← toFloat config.maxDelaySeconds
      return .linear d d maxDelay) := by
  have hne : ("linear" : String) ≠ "exponential" := by decide
  simp only [getRetryStrategy, h, if_neg hne, if_true]

theorem getRetryStrategy_fixed (hexp : config.strategy ≠ "exponential")
    (hlin : config.strategy ≠ "linear") :
    getRetryStrategy (some config) = (do
      let d ← toFloat config.delaySeconds
      return .fixed d) := by
  simp only [getRetryStrategy, hexp, hlin, if_false]

private theorem toBool_both {α β γ : Type} (x : Except PyError α) (y : Except PyError β)
    (f : α → β → γ) :
    (do let a ← x; let b ← y; return f a b).toBool = true ↔ x.toBool = true ∧ y.toBool = true := by
  cases x with
  | error e => exact iff_of_false Bool.false_ne_true (fun h => Bool.false_ne_true h.1)
  | ok a => exact ⟨fun h => ⟨rfl, by cases y <;> [cases h; rfl]⟩, fun h => by cases y <;> [cases h.2; rfl]⟩

private theorem toBool_map {α β : Type} (x : Except PyError α) (f : α → β) :
    (x.map f).toBool = x.toBool := by
  cases x <;> rfl

theorem getRetryStrategy_isOk {retryConfig : Option RetryConfig} :
    (getRetryStrategy retryConfig).toBool = true ↔ SettingsFit retryConfig := by
  cases retryConfig with
  | none => exact iff_of_true rfl (fun _ h => nomatch h)
  | some config =>
    have hfit : SettingsFit (some config) ↔ FitsFloat config.delaySeconds ∧
        (config.strategy = "exponential" ∨ config.strategy = "linear" →
          FitsFloat config.maxDelaySeconds) :=
      ⟨fun h => h config rfl, fun h _ hc => Option.some.inj hc ▸ h⟩
    rw [hfit, ← toFloat_isOk, ← toFloat_isOk]
    by_cases hexp : config.strategy = "exponential"
    · rw [getRetryStrategy_exponential hexp, toBool_both, imp_iff_right (Or.inl hexp)]
    · by_cases hlin : config.strategy = "linear"
      · rw [getRetryStrategy_linear hlin, toBool_both, imp_iff_right (Or.inr hlin)]
      · have hnone : ¬ (config.strategy = "exponential" ∨ config.strategy = "linear") := by
          rintro (h | h)
          · exact hexp h
          · exact hlin h
        rw [getRetryStrategy_fixed hexp hlin]
        simp only [hnone, false_imp_iff, and_true]
        cases toFloat config.delaySeconds <;> exact Iff.rfl

/-- The delay of an attempt is defined when its factor can be converted. -/
theorem RetryStrategy.backoff_isOk {retryConfig : Option RetryConfig} {strategy : RetryStrategy}
    (h : getRetryStrategy retryConfig = .ok strategy) (attempt : Nat) :
    (strategy.backoff attempt).toBool = true ↔ FactorFits retryConfig attempt := by
  cases retryConfig with
  | none =>
    cases h
    exact iff_of_true rfl (fun _ h => nomatch h)
  | some config =>
    have hfit : FactorFits (some config) attempt ↔
        (config.strategy = "exponential" → attempt ≤ 1024) ∧
          (config.strategy = "linear" → FitsFloat ((attempt : Int) - 1)) :=
      ⟨fun h => h config rfl, fun h _ hc => Option.some.inj hc ▸ h⟩
    rw [hfit]
    by_cases hexp : config.strategy = "exponential"
    · have hlin : config.strategy ≠ "linear" := by
        rw [hexp]
        decide
      rw [getRetryStrategy_exponential hexp] at h
      obtain ⟨baseDelay, -, h⟩ := ok_bind h
      obtain ⟨maxDelay, -, h⟩ := ok_bind h
      obtain rfl := Except.ok.inj h
      rw [backoff, toBool_map, toFloat_isOk, fitsFloat_two_pow]
      refine ⟨fun hle => ⟨fun _ => by omega, fun h => absurd h hlin⟩, fun h => ?_⟩
      have hle := h.1 hexp
      omega
    · by_cases hlin : config.strategy = "linear"
      · rw [getRetryStrategy_linear hlin] at h
        obtain ⟨d, -, h⟩ := ok_bind h
        obtain ⟨maxDelay, -, h⟩ := ok_bind h
        obtain rfl := Except.ok.inj h
        rw [backoff, toBool_map, toFloat_isOk]
        exact ⟨fun h => ⟨fun h' => absurd h' hexp, fun _ => h⟩, fun h => h.2 hlin⟩
      · rw [getRetryStrategy_fixed hexp hlin] at h
        obtain ⟨d, -, h⟩ := ok_bind h
        obtain rfl := Except.ok.inj h
        exact iff_of_true rfl ⟨fun h => absurd h hexp, fun h => absurd h hlin⟩

end Strategies

end BackendProjects.Workflow
