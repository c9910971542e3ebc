import Mathlib.Data.Rat.Defs
import Mathlib.Tactic.Common

/-! The Python values and errors that the workflow engine handles. -/
namespace BackendProjects.Workflow

abbrev TaskId := String

/-- Microseconds since the epoch. -/
abbrev Time := Nat

/-- A Python float: a finite one is the rational it stands for. -/
inductive PyFloat where
  | finite (q : Rat)
  | inf (negative : Bool)
  | nan
  deriving DecidableEq

/-- Task outputs, configurations and input data. A dict keeps its insertion order. -/
inductive PyValue where
  | none
  | bool (b : Bool)
  | int (i : Int)
  | float (f : PyFloat)
  | str (s : String)
  | list (xs : List PyValue)
  | tuple (xs : List PyValue)
  | set (xs : List PyValue)
  | dict (entries : List (PyValue × PyValue))

namespace PyValue

mutual
def decEq : (a b : PyValue) → Decidable (a = b)
  | .none, .none => isTrue rfl
  | .bool a, .bool b => decidable_of_iff (a = b) (by simp)
  | .int a, .int b => decidable_of_iff (a = b) (by simp)
  | .float a, .float b => decidable_of_iff (a = b) (by simp)
  | .str a, .str b => decidable_of_iff (a = b) (by simp)
  | .list a, .list b => have := decEqList a b; decidable_of_iff (a = b) (by simp)
  | .tuple a, .tuple b => have := decEqList a b; decidable_of_iff (a = b) (by simp)
  | .set a, .set b => have := decEqList a b; decidable_of_iff (a = b) (by simp)
  | .dict a, .dict b => have := decEqEntries a b; decidable_of_iff (a = b) (by simp)
  | .none, .bool _ | .none, .int _ | .none, .float _ | .none, .str _ | .none, .list _
  | .none, .tuple _ | .none, .set _ | .none, .dict _ => isFalse (by simp)
  | .bool _, .none | .bool _, .int _ | .bool _, .float _ | .bool _, .str _ | .bool _, .list _
  | .bool _, .tuple _ | .bool _, .set _ | .bool _, .dict _ => isFalse (by simp)
  | .int _, .none | .int _, .bool _ | .int _, .float _ | .int _, .str _ | .int _, .list _
  | .int _, .tuple _ | .int _, .set _ | .int _, .dict _ => isFalse (by simp)
  | .float _, .none | .float _, .bool _ | .float _, .int _ | .float _, .str _ | .float _, .list _
  | .float _, .tuple _ | .float _, .set _ | .float _, .dict _ => isFalse (by simp)
  | .str _, .none | .str _, .bool _ | .str _, .int _ | .str _, .float _ | .str _, .list _
  | .str _, .tuple _ | .str _, .set _ | .str _, .dict _ => isFalse (by simp)
  | .list _, .none | .list _, .bool _ | .list _, .int _ | .list _, .float _ | .list _, .str _
  | .list _, .tuple _ | .list _, .set _ | .list _, .dict _ => isFalse (by simp)
  | .tuple _, .none | .tuple _, .bool _ | .tuple _, .int _ | .tuple _, .float _ | .tuple _, .str _
  | .tuple _, .list _ | .tuple _, .set _ | .tuple _, .dict _ => isFalse (by simp)
  | .set _, .none | .set _, .bool _ | .set _, .int _ | .set _, .float _ | .set _, .str _
  | .set _, .list _ | .set _, .tuple _ | .set _, .dict _ => isFalse (by simp)
  | .dict _, .none | .dict _, .bool _ | .dict _, .int _ | .dict _, .float _ | .dict _, .str _
  | .dict _, .list _ | .dict _, .tuple _ | .dict _, .set _ => isFalse (by simp)

def decEqList : (a b : List PyValue) → Decidable (a = b)
  | [], [] => isTrue rfl
  | [], _ :: _ => isFalse (by simp)
  | _ :: _, [] => isFalse (by simp)
  | x :: xs, y :: ys =>
      have := decEq x y
      have := decEqList xs ys
      decidable_of_iff (x = y ∧ xs = ys) (by simp)

def decEqEntries : (a b : List (PyValue × PyValue)) → Decidable (a = b)
  | [], [] => isTrue rfl
  | [], _ :: _ => isFalse (by simp)
  | _ :: _, [] => isFalse (by simp)
  | (k, v) :: xs, (l, w) :: ys =>
      have := decEq k l
      have := decEq v w
      have := decEqEntries xs ys
      decidable_of_iff (k = l ∧ v = w ∧ xs = ys) (by simp [and_assoc])
end

instance : DecidableEq PyValue := decEq

instance : Inhabited PyValue := ⟨.none⟩

def truthy : PyValue → Bool
  | .none => false
  | .bool b => b
  | .int i => i ≠ 0
  | .float f => f ≠ .finite 0
  | .str s => s ≠ ""
  | .list xs | .tuple xs | .set xs => !xs.isEmpty
  | .dict entries => !entries.isEmpty

/-- `a or b` -/
def orElse (a b : PyValue) : PyValue := if a.truthy then a else b

end PyValue

/-- The entries of a Python dict; its keys are distinct. -/
abbrev PyDict := List (PyValue × PyValue)

namespace PyDict

/-- `d.get(key)`, with nothing where the key is absent. -/
def get? (d : PyDict) (key : PyValue) : Option PyValue := (d.find? (fun e => e.1 = key)).map Prod.snd

/-- `d[key] = value`: an existing key keeps its place. -/
def set : PyDict → PyValue → PyValue → PyDict
  | [], key, value => [(key, value)]
  | (k, v) :: rest, key, value =>
      if k = key then (k, value) :: rest else (k, v) :: set rest key value

/-- `{**d, **e}` -/
def update (d e : PyDict) : PyDict := e.foldl (fun acc entry => acc.set entry.1 entry.2) d

@[simp] theorem get?_set (d : PyDict) (key value : PyValue) : (d.set key value).get? key = some value := by
  induction d with
  | nil => simp [set, get?]
  | cons entry rest ih =>
    obtain ⟨k, v⟩ := entry
    rw [set]
    split
    · next h => simp [get?, h]
    · next h =>
      simp only [get?, List.find?_cons, h, decide_false] at ih ⊢
      exact ih

theorem get?_set_of_ne (d : PyDict) {key other : PyValue} (h : other ≠ key) (value : PyValue) :
    (d.set key value).get? other = d.get? other := by
  induction d with
  | nil => simp [set, get?, Ne.symm h]
  | cons entry rest ih =>
    obtain ⟨k, v⟩ := entry
    rw [set]
    split
    · next hk => simp [get?, hk, Ne.symm h]
    · next hk =>
      simp only [get?, List.find?_cons] at ih ⊢
      split
      · rfl
      · exact ih

end PyDict

/-- The exceptions that the engine raises, with their texts. -/
inductive PyError where
  | nameError (message : String)
  | attributeError (message : String)
  | typeError (message : String)
  | valueError (message : String)
  | keyError (message : String)
  | overflowError (message : String)
  | handlerError (message : String)
  deriving DecidableEq

end BackendProjects.Workflow
