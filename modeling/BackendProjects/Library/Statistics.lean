import Mathlib.Algebra.BigOperators.Group.List.Basic
import Mathlib.Algebra.Order.BigOperators.Group.List
import Mathlib.Algebra.Order.BigOperators.Ring.Finset
import Mathlib.Algebra.Order.Field.Basic
import Mathlib.Data.List.GetD
import Mathlib.Data.List.Sort
import Mathlib.Tactic.FieldSimp
import Mathlib.Tactic.Linarith

/-! Means, variances and medians of lists in exact arithmetic, and where the median of a list is
when the majority of its elements is known. -/
namespace BackendProjects.Library

section Definitions
variable {K : Type*} [Field K]

def mean (l : List K) : K := l.sum / l.length

def sampleVariance (l : List K) : K := (l.map (fun x => (x - mean l) ^ 2)).sum / ((l.length : K) - 1)

theorem mean_map_add [CharZero K] {ι : Type*} {l : List ι} (hne : l ≠ []) (c : K) (f : ι → K) :
    mean (l.map (fun i => c + f i)) = c + mean (l.map f) := by
  have hlength : (l.length : K) ≠ 0 := by simpa using hne
  simp only [mean, List.length_map, List.sum_map_add, List.map_const', List.sum_replicate, nsmul_eq_mul]
  field_simp

variable [LinearOrder K]

def median (l : List K) : K :=
  let sorted := l.insertionSort (· ≤ ·)
  if l.length % 2 = 1 then sorted.getD (l.length / 2) 0
  else (sorted.getD (l.length / 2 - 1) 0 + sorted.getD (l.length / 2) 0) / (2 : Nat)

def medianAbsoluteDeviation (l : List K) : K := median (l.map (fun x => |x - median l|))

end Definitions

/-! ### Counting from both ends of a sorted list -/

section Order
variable {α : Type*} [LinearOrder α] {l : List α} {a b : α} {i : Nat}

/-- Fewer elements than the index are below a bound: the element is not. -/
theorem le_getElem_of_countP (h : l.Pairwise (· ≤ ·)) (hi : i < l.length)
    (hcount : l.countP (· < a) ≤ i) : a ≤ l[i] := by
  by_contra hlt
  have hall : (l.take (i + 1)).countP (· < a) = (l.take (i + 1)).length := by
    rw [List.countP_eq_length]
    intro x hx
    obtain ⟨j, hj, rfl⟩ := List.getElem_of_mem hx
    rw [List.length_take] at hj
    rw [List.getElem_take]
    have hle : l[j] ≤ l[i] := by
      obtain rfl | hji : j = i ∨ j < i := by omega
      · exact le_refl _
      · exact List.pairwise_iff_getElem.mp h j i (by omega) hi hji
    exact decide_eq_true (hle.trans_lt (not_le.mp hlt))
  have hsub := (List.take_sublist (i + 1) l).countP_le (p := (· < a))
  rw [hall, List.length_take] at hsub
  omega

/-- More elements than the index are within a bound: the element is. -/
theorem getElem_le_of_countP (h : l.Pairwise (· ≤ ·)) (hi : i < l.length)
    (hcount : i < l.countP (· ≤ b)) : l[i] ≤ b := by
  by_contra hlt
  have hnone : (l.drop i).countP (· ≤ b) = 0 := by
    rw [List.countP_eq_zero]
    intro x hx
    obtain ⟨j, hj, rfl⟩ := List.getElem_of_mem hx
    rw [List.length_drop] at hj
    rw [List.getElem_drop]
    have hle : l[i] ≤ l[i + j] := by
      obtain rfl | hj0 : j = 0 ∨ 0 < j := by omega
      · exact le_refl _
      · exact List.pairwise_iff_getElem.mp h i (i + j) hi (by omega) (by omega)
    simpa using (not_le.mp hlt).trans_le hle
  have hsplit : l.countP (· ≤ b) = (l.take i).countP (· ≤ b) + (l.drop i).countP (· ≤ b) := by
    rw [← List.countP_append, List.take_append_drop]
  have hfew := List.countP_le_length (p := (· ≤ b)) (l := l.take i)
  rw [hnone] at hsplit
  rw [List.length_take] at hfew
  omega

private theorem countP_sorted (p : α → Bool) : (l.insertionSort (· ≤ ·)).countP p = l.countP p :=
  (List.perm_insertionSort (· ≤ ·) l).countP_eq p

private theorem countP_lt_add (l : List α) (a : α) :
    l.countP (· < a) + l.countP (a ≤ ·) = l.length := by
  have h := List.length_eq_countP_add_countP (p := fun x => decide (x < a)) (l := l)
  have hnot : (fun x => decide ¬ (decide (x < a) = true)) = fun x => decide (a ≤ x) := by
    funext x
    simp
  rw [h, hnot]

end Order

/-! ### Averages are between the extremes -/

def WithinRange {α : Type*} [LE α] (l : List α) (a : α) : Prop := ∃ lo ∈ l, ∃ hi ∈ l, lo ≤ a ∧ a ≤ hi

/-- Whatever bounds all elements bounds the value. -/
theorem withinRange_of_bounds {α : Type*} [LinearOrder α] {l : List α} {a : α} (hne : l ≠ [])
    (h : ∀ lo hi, (∀ x ∈ l, lo ≤ x ∧ x ≤ hi) → lo ≤ a ∧ a ≤ hi) : WithinRange l a := by
  have hnonempty : l.toFinset.Nonempty := List.toFinset_nonempty_iff l |>.mpr hne
  obtain ⟨lo, hlo, hleast⟩ := l.toFinset.exists_min_image id hnonempty
  obtain ⟨hi, hhi, hgreatest⟩ := l.toFinset.exists_max_image id hnonempty
  refine ⟨lo, List.mem_toFinset.mp hlo, hi, List.mem_toFinset.mp hhi, h lo hi fun x hx => ?_⟩
  exact ⟨hleast x (List.mem_toFinset.mpr hx), hgreatest x (List.mem_toFinset.mpr hx)⟩

section Averages
variable {K : Type*} [Field K] [LinearOrder K] [IsStrictOrderedRing K]

theorem mean_withinRange {l : List K} (hne : l ≠ []) : WithinRange l (mean l) := by
  have hpos : (0 : K) < l.length := Nat.cast_pos.mpr (List.length_pos_iff.mpr hne)
  refine withinRange_of_bounds hne fun lo hi h => ?_
  rw [mean, le_div_iff₀ hpos, div_le_iff₀ hpos, mul_comm, mul_comm hi, ← nsmul_eq_mul, ← nsmul_eq_mul]
  exact ⟨List.card_nsmul_le_sum l lo fun x hx => (h x hx).1, List.sum_le_card_nsmul l hi fun x hx => (h x hx).2⟩

/-- A sum with weights that are not negative and add up to one. -/
theorem weighted_bounds {n : Nat} {w x : Nat → K} (hw : ∀ j < n, 0 ≤ w j)
    (hsum : ∑ j ∈ Finset.range n, w j = 1) {lo hi : K} (h : ∀ j < n, lo ≤ x j ∧ x j ≤ hi) :
    lo ≤ ∑ j ∈ Finset.range n, w j * x j ∧ ∑ j ∈ Finset.range n, w j * x j ≤ hi := by
  have hconst (c : K) : ∑ j ∈ Finset.range n, w j * c = c := by
    rw [← Finset.sum_mul, hsum, one_mul]
  constructor
  · calc lo = ∑ j ∈ Finset.range n, w j * lo := (hconst lo).symm
      _ ≤ ∑ j ∈ Finset.range n, w j * x j := Finset.sum_le_sum fun j hj =>
        mul_le_mul_of_nonneg_left (h j (Finset.mem_range.mp hj)).1 (hw j (Finset.mem_range.mp hj))
  · calc ∑ j ∈ Finset.range n, w j * x j ≤ ∑ j ∈ Finset.range n, w j * hi := Finset.sum_le_sum fun j hj =>
        mul_le_mul_of_nonneg_left (h j (Finset.mem_range.mp hj)).2 (hw j (Finset.mem_range.mp hj))
      _ = hi := hconst hi

end Averages

/-! ### The median and the majority -/

section Median
variable {K : Type*} [Field K] [LinearOrder K] [IsStrictOrderedRing K] {l : List K} {a b : K}

/-- A majority from a bound on takes the median with it. -/
theorem le_median (h : l.length < 2 * l.countP (a ≤ ·)) : a ≤ median l := by
  have hsorted := List.pairwise_insertionSort (· ≤ ·) l
  have hlength := List.length_insertionSort (· ≤ ·) l
  have hbelow : 2 * (l.insertionSort (· ≤ ·)).countP (· < a) < l.length := by
    have hadd := countP_lt_add l a
    rw [countP_sorted]
    omega
  have hat {i : Nat} (hi : i < l.length) (hcount : (l.insertionSort (· ≤ ·)).countP (· < a) ≤ i) :
      a ≤ (l.insertionSort (· ≤ ·)).getD i 0 := by
    rw [List.getD_eq_getElem _ _ (hlength.symm ▸ hi)]
    exact le_getElem_of_countP hsorted _ hcount
  unfold median
  split
  · exact hat (by omega) (by omega)
  · have hleft := hat (i := l.length / 2 - 1) (by omega) (by omega)
    have hright := hat (i := l.length / 2) (by omega) (by omega)
    linarith

/-- A majority up to a bound takes the median with it. -/
theorem median_le (h : l.length < 2 * l.countP (· ≤ b)) : median l ≤ b := by
  have hsorted := List.pairwise_insertionSort (· ≤ ·) l
  have hlength := List.length_insertionSort (· ≤ ·) l
  have hwithin : l.length < 2 * (l.insertionSort (· ≤ ·)).countP (· ≤ b) := by
    rw [countP_sorted]
    exact h
  have hle := List.countP_le_length (p := (· ≤ b)) (l := l)
  have hat {i : Nat} (hi : i < l.length) (hcount : i < (l.insertionSort (· ≤ ·)).countP (· ≤ b)) :
      (l.insertionSort (· ≤ ·)).getD i 0 ≤ b := by
    rw [List.getD_eq_getElem _ _ (hlength.symm ▸ hi)]
    exact getElem_le_of_countP hsorted _ hcount
  unfold median
  split
  · exact hat (by omega) (by omega)
  · have hleft := hat (i := l.length / 2 - 1) (by omega) (by omega)
    have hright := hat (i := l.length / 2) (by omega) (by omega)
    linarith

/-- A majority in an interval has the median in it. -/
theorem median_mem_Icc (h : l.length < 2 * l.countP (fun x => a ≤ x ∧ x ≤ b)) :
    median l ∈ Set.Icc a b := by
  refine ⟨le_median (h.trans_le ?_), median_le (h.trans_le ?_)⟩
  · refine Nat.mul_le_mul_left 2 (List.countP_mono_left fun x _ hx => ?_)
    exact decide_eq_true (of_decide_eq_true hx).1
  · refine Nat.mul_le_mul_left 2 (List.countP_mono_left fun x _ hx => ?_)
    exact decide_eq_true (of_decide_eq_true hx).2

/-- The width of an interval that holds a majority bounds the distances to the median. -/
theorem medianAbsoluteDeviation_le (h : l.length < 2 * l.countP (fun x => a ≤ x ∧ x ≤ b)) :
    medianAbsoluteDeviation l ≤ b - a := by
  obtain ⟨hleft, hright⟩ := median_mem_Icc h
  refine median_le ?_
  rw [List.length_map, List.countP_map]
  refine h.trans_le (Nat.mul_le_mul_left 2 (List.countP_mono_left fun x _ hx => ?_))
  obtain ⟨hax, hxb⟩ := of_decide_eq_true hx
  exact decide_eq_true (abs_sub_le_iff.mpr ⟨by linarith, by linarith⟩)

end Median

end BackendProjects.Library
