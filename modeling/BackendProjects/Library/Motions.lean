import BackendProjects.Library.Statistics
import Mathlib.Algebra.BigOperators.Ring.List
import Mathlib.Tactic.Ring

/-! Translations and reflections of the line, and what they leave of the mean, the variance and the
median of a list. -/
namespace BackendProjects.Library

structure Motion (K : Type*) [Ring K] where
  sign : K
  shift : K
  sign_eq : sign = 1 ∨ sign = -1

namespace Motion

section Ring
variable {K : Type*} [Ring K] (m : Motion K)

def apply (x : K) : K := m.sign * x + m.shift

def translation (b : K) : Motion K := ⟨1, b, .inl rfl⟩

def reflection : Motion K := ⟨-1, 0, .inr rfl⟩

def linear : Motion K := ⟨m.sign, 0, m.sign_eq⟩

theorem translation_apply (b x : K) : (translation b).apply x = x + b := by
  simp [translation, apply]

theorem reflection_apply (x : K) : (reflection : Motion K).apply x = -x := by
  simp [reflection, apply]

theorem apply_sub (x y : K) : m.apply x - m.apply y = m.linear.apply (x - y) := by
  simp [apply, linear, mul_sub]

private theorem sign_mul_self : m.sign * m.sign = 1 := by
  rcases m.sign_eq with h | h <;> simp [h]

end Ring

section Field
variable {K : Type*} [Field K] (m : Motion K)

/-- An average with two weights moves with what it is taken of. -/
theorem apply_average (a x y : K) : m.apply (a * x + (1 - a) * y) = a * m.apply x + (1 - a) * m.apply y := by
  unfold apply
  ring

theorem mean_map [CharZero K] {l : List K} (hne : l ≠ []) : mean (l.map m.apply) = m.apply (mean l) := by
  have happly : l.map m.apply = l.map (fun x => m.shift + m.sign * x) :=
    List.map_congr_left fun x _ => add_comm ..
  rw [happly, mean_map_add hne, mean, List.sum_map_mul_left, List.map_id', List.length_map, mul_div_assoc,
    add_comm]
  rfl

theorem sampleVariance_map [CharZero K] (l : List K) : sampleVariance (l.map m.apply) = sampleVariance l := by
  cases l with
  | nil => rfl
  | cons x l =>
    have hsquare (y z : K) : (m.apply y - m.apply z) ^ 2 = (y - z) ^ 2 := by
      rw [apply_sub, linear, apply, add_zero, mul_pow, sq m.sign, sign_mul_self, one_mul]
    rw [sampleVariance, m.mean_map (List.cons_ne_nil x l), List.length_map, List.map_map, sampleVariance]
    simp only [Function.comp_def, hsquare]

private theorem getD_map_apply {s : List K} {i : Nat} (hi : i < s.length) :
    (s.map m.apply).getD i 0 = m.apply (s.getD i 0) := by
  rw [List.getD_eq_getElem _ _ (by simpa using hi), List.getElem_map, List.getD_eq_getElem _ _ hi]

private theorem getD_reverse {s : List K} {i : Nat} (hi : i < s.length) :
    s.reverse.getD i 0 = s.getD (s.length - 1 - i) 0 := by
  rw [List.getD_eq_getElem _ _ (by simpa using hi), List.getElem_reverse,
    List.getD_eq_getElem _ _ (by omega)]

private def middle (sorted : List K) : K :=
  if sorted.length % 2 = 1 then sorted.getD (sorted.length / 2) 0
  else (sorted.getD (sorted.length / 2 - 1) 0 + sorted.getD (sorted.length / 2) 0) / (2 : Nat)

private theorem middle_reverse (s : List K) : middle s.reverse = middle s := by
  by_cases hnil : s = []
  · rw [hnil, List.reverse_nil]
  have hpos := List.length_pos_iff.mpr hnil
  unfold middle
  rw [List.length_reverse]
  split
  · rw [getD_reverse (by omega)]
    congr 1
    omega
  · rw [getD_reverse (by omega), getD_reverse (by omega), add_comm]
    congr 3 <;> omega

end Field

/-! ### The median -/

section Median
variable {K : Type*} [Field K] [LinearOrder K] (m : Motion K)

theorem abs_linear (x : K) : |m.linear.apply x| = |x| := by
  rcases m.sign_eq with h | h <;> simp [linear, apply, h]

private theorem median_eq (l : List K) : median l = middle (l.insertionSort (· ≤ ·)) := by
  rw [middle, List.length_insertionSort]
  rfl

variable [IsStrictOrderedRing K]

private theorem middle_map {s : List K} (hne : s ≠ []) : middle (s.map m.apply) = m.apply (middle s) := by
  have hpos := List.length_pos_iff.mpr hne
  unfold middle
  rw [List.length_map]
  split
  · exact getD_map_apply m (by omega)
  · rw [getD_map_apply m (by omega), getD_map_apply m (by omega), Nat.cast_ofNat, apply, apply, apply]
    ring

/-- A motion keeps the order of a sorted list, or turns it round. -/
private theorem insertionSort_map (l : List K) :
    (l.map m.apply).insertionSort (· ≤ ·) = (l.insertionSort (· ≤ ·)).map m.apply ∨
    (l.map m.apply).insertionSort (· ≤ ·) = ((l.insertionSort (· ≤ ·)).map m.apply).reverse := by
  have hperm : ((l.map m.apply).insertionSort (· ≤ ·)).Perm ((l.insertionSort (· ≤ ·)).map m.apply) :=
    (List.perm_insertionSort ..).trans ((List.perm_insertionSort ..).map _).symm
  have hsorted := List.pairwise_insertionSort (· ≤ ·) l
  have hmoved := List.pairwise_insertionSort (· ≤ ·) (l.map m.apply)
  rcases m.sign_eq with h | h
  · refine .inl (hperm.eq_of_pairwise' hmoved (List.pairwise_map.mpr (hsorted.imp fun hle => ?_)))
    simpa [apply, h] using hle
  · refine .inr ((hperm.trans (List.reverse_perm _).symm).eq_of_pairwise' hmoved ?_)
    refine List.pairwise_reverse.mpr (List.pairwise_map.mpr (hsorted.imp fun hle => ?_))
    rw [apply, apply, h]
    linarith

theorem median_map {l : List K} (hne : l ≠ []) : median (l.map m.apply) = m.apply (median l) := by
  have hsorted : l.insertionSort (· ≤ ·) ≠ [] := by
    rw [← List.length_pos_iff, List.length_insertionSort]
    exact List.length_pos_iff.mpr hne
  rw [median_eq, median_eq, ← m.middle_map hsorted]
  rcases m.insertionSort_map l with h | h
  · rw [h]
  · rw [h, middle_reverse]

theorem medianAbsoluteDeviation_map (l : List K) :
    medianAbsoluteDeviation (l.map m.apply) = medianAbsoluteDeviation l := by
  cases l with
  | nil => rfl
  | cons x l =>
    rw [medianAbsoluteDeviation, m.median_map (List.cons_ne_nil x l), List.map_map, medianAbsoluteDeviation]
    simp only [Function.comp_def, apply_sub, abs_linear]

end Median

end Motion

end BackendProjects.Library
