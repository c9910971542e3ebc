import BackendProjects.Library.Runs
import BackendProjects.Library.WriteBack

/-! A value that sessions load, set in their copy and write back if the copy has changed. However the sessions
overlap, the value is one that some session has set, or nobody has set any. -/
namespace BackendProjects.Library
variable {S A : Type*} [DecidableEq S] [DecidableEq A]

omit [DecidableEq A] in
/-- What is found after an update has been put there, or was there before. -/
theorem update_eq_some {f : S → Option A} {i j : S} {o : Option A} {a : A}
    (h : Function.update f i o j = some a) : o = some a ∨ f j = some a := by
  by_cases hj : j = i
  · subst hj
    rw [Function.update_self] at h
    exact Or.inl h
  · rw [Function.update_of_ne hj] at h
    exact Or.inr h

/-- The value, what the open sessions have loaded, and what the committed ones have set, the latest first. -/
structure Register (S A : Type*) where
  value : A
  loaded : S → Option A
  settings : List A

namespace Register

inductive Step (r : Register S A) : Register S A → Prop
  | load (i : S) : Step r { r with loaded := Function.update r.loaded i (some r.value) }
  | set (i : S) {old : A} (new : A) (h : r.loaded i = some old) :
      Step r ⟨writeBack old new r.value, Function.update r.loaded i none, new :: r.settings⟩
  | close (i : S) : Step r { r with loaded := Function.update r.loaded i none }

/-- The value is the first one as long as nobody has set it, and then one of those that were set. -/
structure Sound (first : A) (r : Register S A) : Prop where
  untouched : r.settings = [] → r.value = first ∧ ∀ i old, r.loaded i = some old → old = first
  touched : r.settings ≠ [] → r.value ∈ r.settings

variable {first : A} {r r' : Register S A}

omit [DecidableEq S] [DecidableEq A] in
theorem Sound.init (first : A) : Sound first (⟨first, fun _ => none, []⟩ : Register S A) where
  untouched := fun _ => ⟨rfl, fun _ _ h => by cases h⟩
  touched := fun h => absurd rfl h

omit [DecidableEq S] [DecidableEq A] in
/-- Either nobody has set the value, or it is one of those that were set. -/
theorem Sound.settled (inv : Sound first r) : r.settings = [] ∨ r.value ∈ r.settings := by
  by_cases hnone : r.settings = []
  · exact Or.inl hnone
  · exact Or.inr (inv.touched hnone)

theorem Sound.step (inv : Sound first r) (h : Step r r') : Sound first r' := by
  cases h with
  | load i =>
    refine ⟨fun hnone => ⟨(inv.untouched hnone).1, fun j old hj => ?_⟩, inv.touched⟩
    rcases update_eq_some hj with hvalue | hj
    · exact (Option.some.inj hvalue).symm.trans (inv.untouched hnone).1
    · exact (inv.untouched hnone).2 j old hj
  | @set i old new hi =>
    refine ⟨fun hnone => absurd hnone (List.cons_ne_nil _ _), fun _ => ?_⟩
    by_cases hnone : r.settings = []
    · -- The first session that sets the value has loaded it as it is.
      obtain ⟨hvalue, hloaded⟩ := inv.untouched hnone
      rw [hvalue, hloaded i old hi, writeBack_fresh]
      exact List.mem_cons_self
    · rcases writeBack_eq_or old new r.value with h | h <;> rw [h]
      · exact List.mem_cons_of_mem _ (inv.touched hnone)
      · exact List.mem_cons_self
  | close i =>
    refine ⟨fun hnone => ⟨(inv.untouched hnone).1, fun j old hj => ?_⟩, inv.touched⟩
    exact (inv.untouched hnone).2 j old ((update_eq_some hj).resolve_left (by simp))

end Register

end BackendProjects.Library
