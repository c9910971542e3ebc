import BackendProjects.Library.Json
import BackendProjects.Workflow.Values

/-! Python values as JSON: what `json.dumps` writes, what it refuses, and what is read back. -/
namespace BackendProjects.Workflow
open Library

namespace PyValue

mutual
/-- `json.loads` -/
def loads : Json → PyValue
  | .null => .none
  | .bool b => .bool b
  | .int i => .int i
  | .float q => .float (.finite q)
  | .str s => .str s
  | .arr xs => .list (loadsList xs)
  | .obj members => .dict (loadsMembers members)

def loadsList : List Json → List PyValue
  | [] => []
  | x :: xs => loads x :: loadsList xs

def loadsMembers : Json.Members → PyDict
  | [] => []
  | (key, value) :: rest => (.str key, loads value) :: loadsMembers rest
end

/-- The text of a key; `reprFloat` is Python's `repr` of a finite float. -/
def keyText (reprFloat : Rat → String) : PyValue → Option String
  | .str s => some s
  | .int i => some (toString i)
  | .bool true => some "true"
  | .bool false => some "false"
  | .none => some "null"
  | .float (.finite q) => some (reprFloat q)
  | .float (.inf false) => some "Infinity"
  | .float (.inf true) => some "-Infinity"
  | .float .nan => some "NaN"
  | .list _ | .tuple _ | .set _ | .dict _ => Option.none

mutual
/-- `json.dumps`, with nothing where it raises TypeError or writes what is not JSON. Python raises for an integer
of more than 4300 digits too, and Postgres refuses a text with NUL: both are left out. -/
def dumps (reprFloat : Rat → String) : PyValue → Option Json
  | .none => some .null
  | .bool b => some (.bool b)
  | .int i => some (.int i)
  | .float (.finite q) => some (.float q)
  | .float (.inf _) | .float .nan => Option.none
  | .str s => some (.str s)
  | .list xs | .tuple xs => (dumpsList reprFloat xs).map .arr
  | .set _ => Option.none
  | .dict entries => (dumpsEntries reprFloat entries).map .obj

def dumpsList (reprFloat : Rat → String) : List PyValue → Option (List Json)
  | [] => some []
  | x :: xs => do return (← dumps reprFloat x) :: (← dumpsList reprFloat xs)

def dumpsEntries (reprFloat : Rat → String) : List (PyValue × PyValue) → Option Json.Members
  | [] => some []
  | (key, value) :: rest => do
      return (← keyText reprFloat key, ← dumps reprFloat value) :: (← dumpsEntries reprFloat rest)
end

def IsKey : PyValue → Prop
  | .list _ | .tuple _ | .set _ | .dict _ => False
  | _ => True

/-- The values that JSON can write: no set and no infinite or undefined float in them, and no dict
with a container for a key. -/
inductive Encodable : PyValue → Prop
  | none : Encodable .none
  | bool (b : Bool) : Encodable (.bool b)
  | int (i : Int) : Encodable (.int i)
  | float (q : Rat) : Encodable (.float (.finite q))
  | str (s : String) : Encodable (.str s)
  | list {xs : List PyValue} (h : ∀ x ∈ xs, Encodable x) : Encodable (.list xs)
  | tuple {xs : List PyValue} (h : ∀ x ∈ xs, Encodable x) : Encodable (.tuple xs)
  | dict {entries : List (PyValue × PyValue)} (keys : ∀ e ∈ entries, e.1.IsKey)
      (values : ∀ e ∈ entries, Encodable e.2) : Encodable (.dict entries)

private theorem keyText_isSome (r : Rat → String) (key : PyValue) : (keyText r key).isSome = true ↔ key.IsKey := by
  unfold keyText
  split <;> simp [IsKey]

mutual
theorem dumps_isSome (r : Rat → String) : (v : PyValue) → ((dumps r v).isSome = true ↔ v.Encodable)
  | .none => by simp [dumps, Encodable.none]
  | .bool b => by simp [dumps, Encodable.bool]
  | .int i => by simp [dumps, Encodable.int]
  | .float (.finite q) => by simp [dumps, Encodable.float]
  | .float (.inf _) => by constructor <;> (intro h; cases h)
  | .float .nan => by constructor <;> (intro h; cases h)
  | .str s => by simp [dumps, Encodable.str]
  | .list xs => by
      rw [dumps, Option.isSome_map, dumpsList_isSome r xs]
      exact ⟨.list, fun h => by cases h with | list h => exact h⟩
  | .tuple xs => by
      rw [dumps, Option.isSome_map, dumpsList_isSome r xs]
      exact ⟨.tuple, fun h => by cases h with | tuple h => exact h⟩
  | .set _ => by constructor <;> (intro h; cases h)
  | .dict entries => by
      rw [dumps, Option.isSome_map, dumpsEntries_isSome r entries]
      constructor
      · exact fun h => .dict (fun e he => (h e he).1) (fun e he => (h e he).2)
      · intro h
        cases h with
        | dict keys values => exact fun e he => ⟨keys e he, values e he⟩

theorem dumpsList_isSome (r : Rat → String) : (xs : List PyValue) →
    ((dumpsList r xs).isSome = true ↔ ∀ x ∈ xs, x.Encodable)
  | [] => by simp [dumpsList]
  | x :: xs => by
      have hx := dumps_isSome r x
      have hxs := dumpsList_isSome r xs
      rw [List.forall_mem_cons, ← hx, ← hxs, dumpsList]
      cases dumps r x <;> cases dumpsList r xs <;> simp

theorem dumpsEntries_isSome (r : Rat → String) : (entries : List (PyValue × PyValue)) →
    ((dumpsEntries r entries).isSome = true ↔ ∀ e ∈ entries, e.1.IsKey ∧ e.2.Encodable)
  | [] => by simp [dumpsEntries]
  | (key, value) :: rest => by
      have hkey := keyText_isSome r key
      have hvalue := dumps_isSome r value
      have hrest := dumpsEntries_isSome r rest
      rw [List.forall_mem_cons, ← hkey, ← hvalue, ← hrest, dumpsEntries]
      cases keyText r key <;> cases dumps r value <;> cases dumpsEntries r rest <;> simp
end

end PyValue
end BackendProjects.Workflow
