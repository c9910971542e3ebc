import Mathlib.Data.Prod.Lex
import Mathlib.Data.List.Count
import Mathlib.Data.List.Nodup
import Mathlib.Data.List.Perm.Basic
import Mathlib.Data.List.Sort
import Mathlib.Data.Set.Finite.Lemmas
import Mathlib.Tactic.Common

/-! Redis sorted sets: members ordered by score and then by text, ranges by rank, and what is kept when
only the greatest members are. -/
namespace BackendProjects.Library

/-- A member with its score; the payload is what the text stands for. -/
structure ScoredMember (S T P : Type*) where
  score : S
  text : T
  payload : P
  deriving DecidableEq

def ScoredMember.key {S T P : Type*} (m : ScoredMember S T P) : S ×ₗ T := toLex (m.score, m.text)

/-- Members with distinct texts in the order of their keys. -/
structure SortedSet (S T P : Type*) [LinearOrder S] [LinearOrder T] where
  members : List (ScoredMember S T P)
  sorted : members.Pairwise (fun a b => a.key < b.key)
  distinct : (members.map ScoredMember.text).Nodup

namespace SortedSet
variable {S T P : Type*} [LinearOrder S] [LinearOrder T] (s : SortedSet S T P)

def empty : SortedSet S T P := ⟨[], .nil, .nil⟩

/-- ZADD of one member: a member with the same text gets the new score. -/
def zadd (m : ScoredMember S T P) : SortedSet S T P where
  members :=
    s.members.filter (fun a => a.text ≠ m.text ∧ a.key < m.key) ++
      m :: s.members.filter (fun a => a.text ≠ m.text ∧ m.key < a.key)
  sorted := by
    rw [List.pairwise_append, List.pairwise_cons]
    refine ⟨s.sorted.filter _, ⟨fun b hb => ?_, s.sorted.filter _⟩, fun a ha b hb => ?_⟩
    · exact (of_decide_eq_true (List.mem_filter.mp hb).2).2
    · have hlt := (of_decide_eq_true (List.mem_filter.mp ha).2).2
      rcases List.mem_cons.mp hb with rfl | hb
      · exact hlt
      · exact hlt.trans (of_decide_eq_true (List.mem_filter.mp hb).2).2
  distinct := by
    have hother {a : ScoredMember S T P} {p : ScoredMember S T P → Prop} [DecidablePred p]
        (ha : a ∈ s.members.filter (fun a => a.text ≠ m.text ∧ p a)) : a ∈ s.members ∧ a.text ≠ m.text :=
      ⟨(List.mem_filter.mp ha).1, (of_decide_eq_true (List.mem_filter.mp ha).2).1⟩
    have hdistinct := List.pairwise_map.mp s.distinct
    rw [List.Nodup, List.pairwise_map, List.pairwise_append, List.pairwise_cons]
    refine ⟨hdistinct.filter _, ⟨fun b hb => (hother hb).2.symm, hdistinct.filter _⟩, fun a ha b hb => ?_⟩
    rcases List.mem_cons.mp hb with rfl | hb
    · exact (hother ha).2
    · intro htext
      obtain rfl := List.inj_on_of_nodup_map s.distinct (hother ha).1 (hother hb).1 htext
      have hbelow := (of_decide_eq_true (List.mem_filter.mp ha).2).2
      exact lt_asymm hbelow (of_decide_eq_true (List.mem_filter.mp hb).2).2

def zcard : Nat := s.members.length

/-- The first rank of a range and the one after its last; negative indexes count from the end. -/
def ranks (n : Nat) (start stop : Int) : Nat × Nat :=
  ((if start < 0 then n + start else start).toNat,
    (min (if stop < 0 then n + stop else stop) (n - 1) + 1).toNat)

def zrange (start stop : Int) : List (ScoredMember S T P) :=
  let (first, last) := ranks s.zcard start stop
  (s.members.take last).drop first

private theorem outside_sublist {α : Type*} (l : List α) (first last : Nat) :
    (l.take first ++ l.drop (max first last)).Sublist l := by
  have hdrop : (l.drop (max first last)).Sublist (l.drop first) :=
    List.drop_sublist_drop_left l (le_max_left first last)
  have happend := (List.Sublist.refl (l.take first)).append hdrop
  rwa [List.take_append_drop] at happend

def zremrangebyrank (start stop : Int) : SortedSet S T P where
  members :=
    let (first, last) := ranks s.zcard start stop
    s.members.take first ++ s.members.drop (max first last)
  sorted := s.sorted.sublist (outside_sublist ..)
  distinct := s.distinct.sublist ((outside_sublist ..).map _)

/-! ### Counting from above -/

def above (k : S ×ₗ T) : Nat := s.members.countP (fun a => k < a.key)

variable {s} {m x : ScoredMember S T P} {k : S ×ₗ T}

theorem mem_zadd (h : ∀ a ∈ s.members, a.text ≠ m.text) : x ∈ (s.zadd m).members ↔ x ∈ s.members ∨ x = m := by
  simp only [zadd, List.mem_append, List.mem_cons, List.mem_filter, decide_eq_true_eq]
  constructor
  · rintro (⟨hx, -⟩ | rfl | ⟨hx, -⟩)
    · exact Or.inl hx
    · exact Or.inr rfl
    · exact Or.inl hx
  · rintro (hx | rfl)
    · have hne : x.key ≠ m.key := fun heq => h x hx (congrArg (fun k => (ofLex k).2) heq)
      rcases lt_or_gt_of_ne hne with hlt | hgt
      · exact Or.inl ⟨hx, h x hx, hlt⟩
      · exact Or.inr (Or.inr ⟨hx, h x hx, hgt⟩)
    · exact Or.inr (Or.inl rfl)

private theorem zadd_perm (h : ∀ a ∈ s.members, a.text ≠ m.text) : (s.zadd m).members.Perm (m :: s.members) := by
  refine (List.perm_ext_iff_of_nodup (s.zadd m).distinct.of_map ?_).mpr (fun x => ?_)
  · exact List.nodup_cons.mpr ⟨fun hm => h m hm rfl, s.distinct.of_map⟩
  · rw [mem_zadd h, List.mem_cons, or_comm]

theorem zcard_zadd (h : ∀ a ∈ s.members, a.text ≠ m.text) : (s.zadd m).zcard = s.zcard + 1 :=
  (zadd_perm h).length_eq

private theorem above_zadd (h : ∀ a ∈ s.members, a.text ≠ m.text) :
    (s.zadd m).above k = s.above k + if k < m.key then 1 else 0 := by
  rw [above, (zadd_perm h).countP_eq, List.countP_cons]
  simp [above]

/-- A member is among the last ones when few enough are greater. -/
theorem mem_drop_of_sorted {l : List (ScoredMember S T P)} (h : l.Pairwise (fun a b => a.key < b.key))
    (n : Nat) : x ∈ l.drop n ↔ x ∈ l ∧ l.countP (fun a => x.key < a.key) + n < l.length := by
  induction l generalizing n with
  | nil => simp
  | cons a l ih =>
    obtain ⟨hbelow, hsorted⟩ := List.pairwise_cons.mp h
    cases n with
    | zero =>
      rw [List.drop_zero, Nat.add_zero]
      exact ⟨fun hx => ⟨hx, List.countP_lt_length_iff.mpr ⟨x, hx, by simp⟩⟩, fun hx => hx.1⟩
    | succ n =>
      rw [List.drop_succ_cons, ih hsorted]
      by_cases hx : x ∈ l
      · simp only [hx, true_and, List.mem_cons, or_true, List.length_cons]
        rw [List.countP_cons_of_neg (by simpa using (hbelow x hx).le)]
        omega
      · simp only [hx, false_and, false_iff, List.mem_cons, or_false, List.length_cons, not_and, not_lt]
        rintro rfl
        have hall : l.countP (fun b => x.key < b.key) = l.length :=
          List.countP_eq_length.mpr (fun b hb => decide_eq_true (hbelow b hb))
        rw [List.countP_cons_of_neg (by simp), hall]
        omega

private theorem countP_drop_of_sorted {l : List (ScoredMember S T P)} (h : l.Pairwise (fun a b => a.key < b.key))
    (n : Nat) : (l.drop n).countP (fun a => k < a.key) =
      min (l.countP (fun a => k < a.key)) (l.length - n) := by
  induction l generalizing n with
  | nil => simp
  | cons a l ih =>
    obtain ⟨hbelow, hsorted⟩ := List.pairwise_cons.mp h
    have hlength : l.countP (fun a => k < a.key) ≤ l.length := List.countP_le_length
    cases n with
    | zero => rw [List.drop_zero, Nat.sub_zero, min_eq_left List.countP_le_length]
    | succ n =>
      rw [List.drop_succ_cons, ih hsorted, List.length_cons]
      by_cases ha : k < a.key
      · have hall : l.countP (fun b => k < b.key) = l.length :=
          List.countP_eq_length.mpr (fun b hb => decide_eq_true (ha.trans (hbelow b hb)))
        rw [List.countP_cons_of_pos (by simpa using ha), hall]
        omega
      · rw [List.countP_cons_of_neg (by simpa using ha)]
        omega

/-- The greatest member is the last one. -/
theorem getLast?_eq_some : s.members.getLast? = some x ↔ x ∈ s.members ∧ s.above x.key = 0 := by
  constructor
  · intro h
    obtain ⟨l, hl⟩ := List.getLast?_eq_some_iff.mp h
    have hsorted := s.sorted
    rw [hl, List.pairwise_append] at hsorted
    refine ⟨by simp [hl], ?_⟩
    rw [above, hl, List.countP_eq_zero]
    intro a ha
    rcases List.mem_append.mp ha with ha | ha
    · simpa using (hsorted.2.2 a ha x (by simp)).le
    · simp [List.mem_singleton.mp ha]
  · rintro ⟨hx, hnone⟩
    obtain ⟨below, rest, hl⟩ := List.append_of_mem hx
    have hsorted := s.sorted
    rw [hl, List.pairwise_append, List.pairwise_cons] at hsorted
    have hrest : rest = [] := by
      rw [List.eq_nil_iff_forall_not_mem]
      intro b hb
      rw [above, List.countP_eq_zero] at hnone
      exact hnone b (by simp [hl, hb]) (decide_eq_true (hsorted.2.1.1 b hb))
    rw [hl, hrest]
    simp

/-- A range of the last ranks ends with the greatest member. -/
theorem getLast?_zrange {size : Int} (h : 0 < size) :
    (s.zrange (-size) (-1)).getLast? = s.members.getLast? := by
  have hlast : (min (if (-1 : Int) < 0 then (s.zcard : Int) + -1 else -1) ((s.zcard : Int) - 1) + 1).toNat =
      s.members.length := by
    simp only [zcard]
    split <;> omega
  have hfirst : (if -size < 0 then (s.zcard : Int) + -size else -size).toNat = (s.zcard - size).toNat := by
    rw [if_pos (by omega)]
    rfl
  simp only [zrange, ranks, hlast, hfirst, List.take_length, List.getLast?_drop]
  split
  · next hle =>
    have hnil : s.members = [] := by
      rw [← List.length_eq_zero_iff]
      simp only [zcard] at hle
      omega
    simp [hnil]
  · rfl

/-! ### Keeping the greatest -/

/-- The removal of the lowest members of a set that has more than so many. -/
def trim (s : SortedSet S T P) (size : Int) : SortedSet S T P :=
  if size < s.zcard then s.zremrangebyrank 0 (s.zcard - size - 1) else s

/-- The removal of the ranks up to one. -/
theorem zremrangebyrank_members {stop : Int} (h : 0 ≤ stop) :
    (s.zremrangebyrank 0 stop).members = s.members.drop (stop + 1).toNat := by
  unfold zremrangebyrank ranks
  have hlast : (min (if stop < 0 then (s.zcard : Int) + stop else stop) ((s.zcard : Int) - 1) + 1).toNat =
      min (stop + 1).toNat s.zcard := by
    split <;> omega
  simp only [lt_irrefl, if_false, Int.toNat_zero, List.take_zero, List.nil_append, Nat.zero_max, hlast]
  rcases le_total (stop + 1).toNat s.zcard with hle | hle
  · rw [min_eq_left hle]
  · rw [min_eq_right hle, List.drop_eq_nil_of_le hle]
    exact List.drop_length

private theorem trim_members (size : Int) :
    (s.trim size).members = s.members.drop (s.zcard - size).toNat := by
  unfold trim
  split
  · next h =>
    rw [zremrangebyrank_members (by omega)]
    congr 1
    omega
  · next h =>
    have hzero : ((s.zcard : Int) - size).toNat = 0 := by omega
    rw [hzero, List.drop_zero]

private theorem above_le_zcard : s.above k ≤ s.zcard := List.countP_le_length

/-- A member is kept when fewer than so many are greater. -/
theorem mem_trim (size : Int) : x ∈ (s.trim size).members ↔ x ∈ s.members ∧ (s.above x.key : Int) < size := by
  rw [trim_members, mem_drop_of_sorted s.sorted]
  refine and_congr_right (fun hx => ?_)
  have hlt : s.above x.key < s.zcard := List.countP_lt_length_iff.mpr ⟨x, hx, by simp⟩
  simp only [above, zcard] at hlt ⊢
  omega

private theorem above_trim (size : Int) : ((s.trim size).above k : Int) = min (s.above k : Int) (max size 0) := by
  have hle : s.above k ≤ s.zcard := above_le_zcard
  rw [above, trim_members, countP_drop_of_sorted s.sorted]
  simp only [above, zcard] at hle ⊢
  omega

def push (size : Int) (s : SortedSet S T P) (m : ScoredMember S T P) : SortedSet S T P := (s.zadd m).trim size

/-- Members that are pushed one after the other are kept like all of them at once. -/
theorem foldl_push (size : Int) {ms : List (ScoredMember S T P)}
    (fresh : ∀ a ∈ s.members, ∀ b ∈ m :: ms, a.text ≠ b.text)
    (distinct : ((m :: ms).map ScoredMember.text).Nodup) :
    (∀ x, x ∈ ((m :: ms).foldl (push size) s).members ↔ (x ∈ s.members ∨ x ∈ m :: ms) ∧
      (s.above x.key + (m :: ms).countP (fun a => x.key < a.key) : Int) < size) ∧
    ∀ k, ((((m :: ms).foldl (push size) s).above k : Nat) : Int) =
      min (s.above k + (m :: ms).countP (fun a => k < a.key) : Int) (max size 0) := by
  have hfresh : ∀ a ∈ s.members, a.text ≠ m.text := fun a ha => fresh a ha m List.mem_cons_self
  induction ms generalizing s m with
  | nil =>
    simp only [List.foldl_cons, List.foldl_nil, push, mem_trim, above_trim, mem_zadd hfresh, above_zadd hfresh,
      List.mem_singleton, List.countP_singleton, decide_eq_true_eq]
    exact ⟨fun x => by push_cast; rfl, fun k => by push_cast; rfl⟩
  | cons m' ms ih =>
    have hmem : ∀ x, x ∈ (push size s m).members ↔ (x ∈ s.members ∨ x = m) ∧
        (s.above x.key + (if x.key < m.key then 1 else 0 : Nat) : Int) < size := by
      intro x
      rw [push, mem_trim, mem_zadd hfresh, above_zadd hfresh, Int.natCast_add]
    have habove : ∀ k, ((push size s m).above k : Int) =
        min (s.above k + (if k < m.key then 1 else 0 : Nat) : Int) (max size 0) := by
      intro k
      rw [push, above_trim, above_zadd hfresh, Int.natCast_add]
    have hfresh' : ∀ a ∈ (push size s m).members, ∀ b ∈ m' :: ms, a.text ≠ b.text := by
      intro a ha b hb
      rcases ((hmem a).mp ha).1 with ha | rfl
      · exact fresh a ha b (List.mem_cons_of_mem _ hb)
      · intro htext
        exact (List.nodup_cons.mp distinct).1 (htext ▸ List.mem_map_of_mem hb)
    obtain ⟨hmems, haboves⟩ := ih hfresh' (List.nodup_cons.mp distinct).2
      (fun a ha => hfresh' a ha m' List.mem_cons_self)
    refine ⟨fun x => ?_, fun k => ?_⟩
    · rw [List.foldl_cons, hmems, habove, hmem, List.mem_cons (a := x) (b := m), List.countP_cons (a := m)]
      simp only [decide_eq_true_eq, ← or_assoc]
      by_cases hkept : (s.above x.key + (if x.key < m.key then 1 else 0 : Nat) : Int) < size
      · simp only [hkept, and_true]
        refine and_congr_right (fun _ => ?_)
        push_cast
        omega
      · refine iff_of_false (fun h => hkept ?_) (fun h => hkept ?_)
        · have := h.2
          omega
        · have := h.2
          push_cast at this ⊢
          omega
    · rw [List.foldl_cons, haboves, habove, List.countP_cons (a := m)]
      simp only [decide_eq_true_eq]
      push_cast
      omega

/-! ### Histories -/

section History
variable {size : Int} {ms : List (ScoredMember S T P)}

/-- A set that members were pushed to holds the greatest of all of them. -/
theorem mem_pushed (size : Int) (hms : ms ≠ []) (distinct : ((s.members ++ ms).map ScoredMember.text).Nodup) :
    (∀ x, x ∈ (ms.foldl (push size) s).members ↔ x ∈ s.members ++ ms ∧
      ((s.members ++ ms).countP (fun m => x.key < m.key) : Int) < size) ∧
    ∀ k, ((ms.foldl (push size) s).above k : Int) =
      min ((s.members ++ ms).countP (fun m => k < m.key) : Int) (max size 0) := by
  obtain ⟨m, ms, rfl⟩ := List.exists_cons_of_ne_nil hms
  rw [List.map_append, List.nodup_append] at distinct
  obtain ⟨hmem, habove⟩ := foldl_push size
    (fun x hx y hy => distinct.2.2 _ (List.mem_map_of_mem hx) _ (List.mem_map_of_mem hy)) distinct.2.1
  refine ⟨fun x => ?_, fun k => ?_⟩
  · rw [hmem, List.mem_append, List.countP_append, Int.natCast_add]
    rfl
  · rw [habove, List.countP_append, Int.natCast_add]
    rfl

/-- The last member is the greatest of all of them. -/
theorem greatest_pushed (hms : ms ≠ []) (distinct : ((s.members ++ ms).map ScoredMember.text).Nodup) :
    ((ms.foldl (push size) s).zrange (-size) (-1)).getLast? = some m ↔
      0 < size ∧ m ∈ s.members ++ ms ∧ ∀ m' ∈ s.members ++ ms, m'.key ≤ m.key := by
  obtain ⟨hmem, habove⟩ := mem_pushed size hms distinct
  rcases lt_or_ge 0 size with hsize | hsize
  · have hnone : (ms.foldl (push size) s).above m.key = 0 ↔ ∀ m' ∈ s.members ++ ms, m'.key ≤ m.key := by
      have hcount : (s.members ++ ms).countP (fun m' => m.key < m'.key) = 0 ↔
          ∀ m' ∈ s.members ++ ms, m'.key ≤ m.key := by
        simp only [List.countP_eq_zero, decide_eq_true_eq, not_lt]
      have habove := habove m.key
      rw [← hcount]
      omega
    rw [getLast?_zrange hsize, getLast?_eq_some, hmem, hnone]
    constructor
    · exact fun ⟨⟨hm, _⟩, hmax⟩ => ⟨hsize, hm, hmax⟩
    · rintro ⟨-, hm, hmax⟩
      have hcount : (s.members ++ ms).countP (fun m' => m.key < m'.key) = 0 := by
        simpa only [List.countP_eq_zero, decide_eq_true_eq, not_lt] using hmax
      exact ⟨⟨hm, by rw [hcount]; exact hsize⟩, hmax⟩
  · have hempty : (ms.foldl (push size) s).members = [] := by
      rw [List.eq_nil_iff_forall_not_mem]
      intro x hx
      have hfew := ((hmem x).mp hx).2
      omega
    refine iff_of_false ?_ (fun h => by omega)
    simp [zrange, hempty]

private theorem above_anti {k k' : S ×ₗ T} (h : k ≤ k') : s.above k' ≤ s.above k :=
  List.countP_mono_left (fun _ _ hlt => by simp only [decide_eq_true_eq] at *; exact h.trans_lt hlt)

/-- When every new member has as many old ones above it, only the old ones matter for the others. -/
theorem le_above_of_outranked (h : ∀ x ∈ ms, size ≤ s.above x.key) :
    size ≤ (s.members ++ ms).countP (fun m => k < m.key) ↔ size ≤ s.above k := by
  rw [List.countP_append, Int.natCast_add]
  constructor
  · intro hcount
    by_cases hnew : ∃ x ∈ ms, k < x.key
    · obtain ⟨x, hx, hlt⟩ := hnew
      exact (h x hx).trans (by exact_mod_cast above_anti hlt.le)
    · have hnone : ms.countP (fun m => k < m.key) = 0 := by
        simpa only [List.countP_eq_zero, decide_eq_true_eq, not_exists, not_and] using hnew
      rw [hnone] at hcount
      simpa [above] using hcount
  · intro habove
    rw [above] at habove
    omega

/-- None of the new members is kept exactly when each has enough old ones above it. -/
theorem outranked_iff : (∀ x ∈ ms, size ≤ (s.members ++ ms).countP (fun m => x.key < m.key)) ↔
    ∀ x ∈ ms, size ≤ s.above x.key := by
  refine ⟨fun h x hx => ?_, fun h x hx => (le_above_of_outranked h).mpr (h x hx)⟩
  obtain ⟨y, hy, hmax⟩ := Set.exists_max_image {x | x ∈ ms} ScoredMember.key (List.finite_toSet ms) ⟨x, hx⟩
  have hnone : ms.countP (fun m => y.key < m.key) = 0 := by
    simp only [List.countP_eq_zero, decide_eq_true_eq, not_lt]
    exact hmax
  have hgreatest := h y hy
  rw [List.countP_append, hnone, Nat.add_zero] at hgreatest
  exact hgreatest.trans (by exact_mod_cast above_anti (hmax x hx))

/-- The order leaves no choice but the members. -/
theorem eq_of_members {s t : SortedSet S T P} (h : ∀ x, x ∈ s.members ↔ x ∈ t.members) : s = t := by
  have hperm : s.members.Perm t.members :=
    (List.perm_ext_iff_of_nodup (List.Nodup.of_map _ s.distinct) (List.Nodup.of_map _ t.distinct)).mpr h
  have heq : s.members = t.members :=
    hperm.eq_of_pairwise (fun _ _ _ _ hlt hgt => absurd hgt (lt_asymm hlt)) s.sorted t.sorted
  cases s
  cases t
  cases heq
  rfl

/-- Members that are pushed leave a set of at most so many as it was exactly when each of them has so many
above it. -/
theorem pushed_eq_self_iff (hms : ms ≠ []) (distinct : ((s.members ++ ms).map ScoredMember.text).Nodup) :
    ms.foldl (push size) s = s ↔ (s.zcard : Int) ≤ max size 0 ∧ ∀ x ∈ ms, size ≤ s.above x.key := by
  obtain ⟨hmem, -⟩ := mem_pushed size hms distinct
  have hnew : ∀ x ∈ ms, x ∉ s.members := by
    rw [List.map_append, List.nodup_append] at distinct
    exact fun x hx hold => distinct.2.2 _ (List.mem_map_of_mem hold) _ (List.mem_map_of_mem hx) rfl
  constructor
  · intro heq
    rw [heq] at hmem
    refine ⟨?_, outranked_iff.mp (fun x hx => ?_)⟩
    · rw [← heq, ← List.dropLast_append_getLast hms, List.foldl_append, List.foldl_cons, List.foldl_nil, push,
        zcard, trim_members, List.length_drop]
      simp only [zcard]
      omega
    · by_contra hfew
      exact hnew x hx ((hmem x).mpr ⟨List.mem_append_right _ hx, Int.not_le.mp hfew⟩)
  · rintro ⟨hcard, habove⟩
    have hsame : ∀ x, x ∈ (ms.foldl (push size) s).members ↔ x ∈ s.members := by
      intro x
      rw [hmem, ← Int.not_le, le_above_of_outranked habove, List.mem_append]
      constructor
      · rintro ⟨hx | hx, hfew⟩
        · exact hx
        · exact absurd (habove x hx) hfew
      · intro hx
        have hlt : s.above x.key < s.zcard := List.countP_lt_length_iff.mpr ⟨x, hx, by simp⟩
        exact ⟨Or.inl hx, by omega⟩
    exact eq_of_members hsame

end History

/-! ### The greatest of a list -/

section Greatest
variable {ms ms' : List (ScoredMember S T P)} {size : Int}

def greatest (n : Nat) (ms : List (ScoredMember S T P)) : List (ScoredMember S T P) :=
  (ms.insertionSort (fun a b => a.key ≤ b.key)).drop (ms.length - n)

private theorem pairwise_insertionSort_key (distinct : (ms.map ScoredMember.text).Nodup) :
    (ms.insertionSort (fun a b => a.key ≤ b.key)).Pairwise (fun a b => a.key < b.key) := by
  have total : Std.Total (fun a b : ScoredMember S T P => a.key ≤ b.key) := ⟨fun a b => le_total a.key b.key⟩
  have trans : IsTrans (ScoredMember S T P) (fun a b => a.key ≤ b.key) := ⟨fun _ _ _ => le_trans⟩
  have hsorted := List.pairwise_insertionSort (fun a b : ScoredMember S T P => a.key ≤ b.key) ms
  have hperm := (List.perm_insertionSort (fun a b : ScoredMember S T P => a.key ≤ b.key) ms).map
    ScoredMember.text
  have hdistinct := List.pairwise_map.mp (hperm.nodup_iff.mpr distinct)
  refine (hsorted.and hdistinct).imp (fun {a b} h => lt_of_le_of_ne h.1 (fun heq => h.2 ?_))
  exact congrArg (fun k => (ofLex k).2) heq

theorem length_greatest (n : Nat) : (greatest n ms).length = min n ms.length := by
  rw [greatest, List.length_drop, List.length_insertionSort]
  omega

private theorem mem_greatest {n : Nat} (distinct : (ms.map ScoredMember.text).Nodup) :
    x ∈ greatest n ms ↔ x ∈ ms ∧ ms.countP (fun a => x.key < a.key) < n := by
  have hperm := List.perm_insertionSort (fun a b : ScoredMember S T P => a.key ≤ b.key) ms
  rw [greatest, mem_drop_of_sorted (pairwise_insertionSort_key distinct), hperm.mem_iff, hperm.countP_eq,
    List.length_insertionSort]
  refine and_congr_right (fun hx => ?_)
  have hlt : ms.countP (fun a => x.key < a.key) < ms.length :=
    List.countP_lt_length_iff.mpr ⟨x, hx, by simp⟩
  omega

/-- Pushing members one after the other to an empty set keeps the greatest of them. -/
theorem members_foldl_push (distinct : (ms.map ScoredMember.text).Nodup) :
    (ms.foldl (push size) empty).members = greatest size.toNat ms := by
  have hmem : ∀ x, x ∈ (ms.foldl (push size) empty).members ↔ x ∈ greatest size.toNat ms := by
    intro x
    cases ms with
    | nil => simp [greatest, empty]
    | cons m ms =>
      rw [(mem_pushed (s := empty) size (List.cons_ne_nil m ms) distinct).1, mem_greatest distinct]
      simp only [empty, List.nil_append]
      exact and_congr_right (fun _ => by omega)
  have hsorted : (greatest size.toNat ms).Pairwise (fun a b => a.key < b.key) :=
    (pairwise_insertionSort_key distinct).sublist (List.drop_sublist ..)
  have hnodup : (greatest size.toNat ms).Nodup :=
    hsorted.imp (fun h heq => absurd (heq ▸ h) (lt_irrefl _))
  have hperm := (List.perm_ext_iff_of_nodup (ms.foldl (push size) empty).distinct.of_map hnodup).mpr hmem
  exact hperm.eq_of_pairwise (fun _ _ _ _ hlt hgt => absurd hgt (lt_asymm hlt))
    (ms.foldl (push size) empty).sorted hsorted

/-- The order in which members come does not matter. -/
theorem foldl_push_perm (h : ms'.Perm ms) (distinct : (ms.map ScoredMember.text).Nodup) :
    ms'.foldl (push size) empty = ms.foldl (push size) empty := by
  have distinct' : (ms'.map ScoredMember.text).Nodup := (h.map _).nodup_iff.mpr distinct
  refine eq_of_members (fun x => ?_)
  rw [members_foldl_push distinct, members_foldl_push distinct', mem_greatest distinct,
    mem_greatest distinct', h.mem_iff, h.countP_eq]

/-- A range of at least as many ranks as there are is the whole set. -/
theorem zrange_all (h : (s.zcard : Int) ≤ size) : s.zrange (-size) (-1) = s.members := by
  have hfirst : (if -size < 0 then (s.zcard : Int) + -size else -size).toNat = 0 := by
    split <;> omega
  have hlast : s.zcard ≤
      (min (if (-1 : Int) < 0 then (s.zcard : Int) + -1 else -1) ((s.zcard : Int) - 1) + 1).toNat := by
    split <;> omega
  simp only [zrange, ranks, hfirst, List.drop_zero]
  exact List.take_of_length_le hlast

end Greatest

end SortedSet
end BackendProjects.Library
