import Mathlib.Data.Rat.Defs
import Mathlib.Tactic.Common

/-! JSON documents, and objects that are read and rewritten by their keys. -/
namespace BackendProjects.Library

/-- A JSON value; a number without a fraction is an integer. -/
inductive Json where
  | null
  | bool (b : Bool)
  | int (i : Int)
  | float (q : Rat)
  | str (s : String)
  | arr (xs : List Json)
  | obj (members : List (String × Json))

namespace Json

abbrev Members := List (String × Json)

namespace Members
variable (o extra : Members)

/-- Of two keys for the same thing, the first one where the object has it. -/
def chosen (first second : String) : String := if (o.lookup first).isSome then first else second

def without (keys : List String) : Members := o.filter (fun e => e.1 ∉ keys)

/-- Write the members of another object over those of this one: a key that is there keeps its
place. -/
def overlay : Members :=
  o.map (fun e => (e.1, (extra.lookup e.1).getD e.2)) ++ extra.without (o.map Prod.fst)

variable {o extra} {key : String} {keys : List String} {value : Json}

theorem chosen_eq_or (first second : String) :
    o.chosen first second = first ∨ o.chosen first second = second := by
  unfold chosen
  split
  · exact Or.inl rfl
  · exact Or.inr rfl

theorem lookup_chosen (first second : String) :
    o.lookup (o.chosen first second) = (o.lookup first).or (o.lookup second) := by
  unfold chosen
  cases hfirst : o.lookup first with
  | none => rfl
  | some value => exact hfirst

theorem lookup_without_of_mem (h : key ∈ keys) : (o.without keys).lookup key = none := by
  rw [List.lookup_eq_none_iff]
  rintro e he
  have hout := (List.mem_filter.mp he).2
  simp only [decide_eq_true_eq] at hout
  rw [bne_iff_ne]
  rintro rfl
  exact hout h

theorem lookup_without_of_notMem (h : key ∉ keys) : (o.without keys).lookup key = o.lookup key := by
  induction o with
  | nil => rfl
  | cons e rest ih =>
    obtain ⟨k, v⟩ := e
    simp only [without, List.filter_cons] at ih ⊢
    by_cases hk : k ∈ keys
    · have hne : key ≠ k := fun heq => h (heq ▸ hk)
      simpa [hk, List.lookup_cons, beq_eq_false_iff_ne.mpr hne] using ih
    · simp only [hk, not_false_eq_true, decide_true, if_true, List.lookup_cons]
      rw [ih]

/-- Without the chosen key, the first of the two is not there. -/
theorem lookup_without_chosen (first second : String) (h : o.chosen first second ∈ keys) :
    (o.without keys).lookup first = none := by
  cases hfirst : o.lookup first with
  | some value =>
    have hchosen : o.chosen first second = first := if_pos (by simp [hfirst])
    exact lookup_without_of_mem (hchosen ▸ h)
  | none =>
    by_cases hin : first ∈ keys
    · exact lookup_without_of_mem hin
    · rw [lookup_without_of_notMem hin, hfirst]

/-- After an overlay, a key reads the value written last. -/
theorem lookup_overlay : (o.overlay extra).lookup key = (extra.lookup key).or (o.lookup key) := by
  have hfields : (o.map (fun e => (e.1, (extra.lookup e.1).getD e.2))).lookup key =
      (o.lookup key).map (fun value => (extra.lookup key).getD value) := by
    induction o with
    | nil => rfl
    | cons e rest ih =>
      obtain ⟨k, v⟩ := e
      simp only [List.map_cons, List.lookup_cons, ih]
      split
      · next heq => rw [beq_iff_eq.mp heq]; rfl
      · rfl
  rw [overlay, List.lookup_append, hfields]
  by_cases hkey : key ∈ o.map Prod.fst
  · rw [lookup_without_of_mem hkey, Option.or_none]
    cases hvalue : o.lookup key with
    | none =>
      obtain ⟨e, he, rfl⟩ := List.mem_map.mp hkey
      have hno := List.lookup_eq_none_iff.mp hvalue e he
      simp at hno
    | some value => cases extra.lookup key <;> rfl
  · have hnone : o.lookup key = none := by
      rw [List.lookup_eq_none_iff]
      rintro e he
      rw [bne_iff_ne]
      rintro rfl
      exact hkey (List.mem_map_of_mem he)
    rw [hnone, lookup_without_of_notMem hkey, Option.or_none]
    rfl

/-- The members that an overlay adds are those of the other object. -/
theorem without_overlay (h : ∀ key ∈ o.map Prod.fst, key ∈ keys) :
    (o.overlay extra).without keys = extra.without keys := by
  have hfields :
      (o.map (fun e => (e.1, (extra.lookup e.1).getD e.2))).filter (fun e => e.1 ∉ keys) = [] := by
    rw [List.filter_eq_nil_iff]
    intro e he
    obtain ⟨field, hfield, rfl⟩ := List.mem_map.mp he
    simpa using h _ (List.mem_map_of_mem hfield)
  have hextra : (extra.without (o.map Prod.fst)).without keys = extra.without keys := by
    simp only [without, List.filter_filter]
    refine List.filter_congr (fun e _ => ?_)
    by_cases hin : e.1 ∈ o.map Prod.fst
    · simp [h _ hin]
    · simp only [hin, not_false_eq_true, decide_true, Bool.and_true]
  rw [overlay, without, List.filter_append, hfields, List.nil_append]
  exact hextra

theorem without_eq_self (h : ∀ key ∈ keys, o.lookup key = none) : o.without keys = o := by
  refine List.filter_eq_self.mpr (fun e he => ?_)
  simp only [decide_eq_true_eq]
  intro hin
  have hno := List.lookup_eq_none_iff.mp (h e.1 hin) e he
  simp at hno

end Members
end Json
end BackendProjects.Library
