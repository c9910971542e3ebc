import Mathlib.Logic.Relation
import Mathlib.Tactic.Common

/-! Sessions that load a value, change their copy and write it back later. Only a changed
value is written, and nothing compares the loaded value with the one that is replaced. -/
namespace BackendProjects.Library
variable {A : Type*} [DecidableEq A]

/-- What a store holds after a session that loaded `old` flushes `new` over `cur`. -/
def writeBack (old new cur : A) : A := if new = old then cur else new

@[simp] theorem writeBack_same (old cur : A) : writeBack old old cur = cur := if_pos rfl

/-- A session whose copy is current leaves exactly its own value. -/
@[simp] theorem writeBack_fresh (old new : A) : writeBack old new old = new := by
  unfold writeBack
  split
  · next h => exact h.symm
  · rfl

theorem writeBack_of_ne {old new : A} (h : new ≠ old) (cur : A) : writeBack old new cur = new :=
  if_neg h

theorem writeBack_eq_or (old new cur : A) :
    writeBack old new cur = cur ∨ writeBack old new cur = new := by
  unfold writeBack
  split
  · exact Or.inl rfl
  · exact Or.inr rfl

/-- A move that is legal from the loaded value is legal in the store when the copy is current. -/
theorem writeBack_moves {R : A → A → Prop} {old new cur : A} (fresh : cur = old)
    (h : Relation.ReflGen R old new) : Relation.ReflGen R cur (writeBack old new cur) := by
  subst fresh
  rwa [writeBack_fresh]

end BackendProjects.Library
