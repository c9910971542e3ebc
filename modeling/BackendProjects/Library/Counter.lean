import BackendProjects.Library.Register
import Mathlib.Data.List.Chain

/-! A number that sessions load, raise by one and write back, with nothing that keeps them from overlapping. It
counts the writes exactly if no session writes over another one. -/
namespace BackendProjects.Library
variable {S : Type*} [DecidableEq S]

/-- The number, what the open sessions have loaded, and of every write what its session had loaded and what it has
replaced, the latest first. -/
structure Counter (S : Type*) where
  value : Nat
  loaded : S → Option Nat
  writes : List (Nat × Nat)

namespace Counter

def start (n : Nat) : Counter S := ⟨n, fun _ => none, []⟩

inductive Step (c : Counter S) : Counter S → Prop
  | load (i : S) : Step c { c with loaded := Function.update c.loaded i (some c.value) }
  | write (i : S) {n : Nat} (h : c.loaded i = some n) :
      Step c ⟨n + 1, Function.update c.loaded i none, (n, c.value) :: c.writes⟩
  | close (i : S) : Step c { c with loaded := Function.update c.loaded i none }

/-- The values that writes lead to, where no session has seen more than there were writes. -/
inductive Recorded (first : Nat) : Nat → List (Nat × Nat) → Prop
  | first : Recorded first first []
  | write {n value : Nat} {writes : List (Nat × Nat)} (before : Recorded first value writes)
      (hle : n ≤ first + writes.length) (hlast : n = first + writes.length → value = n) :
      Recorded first (n + 1) ((n, value) :: writes)

variable {first value : Nat} {writes : List (Nat × Nat)} {c c' : Counter S}

theorem Recorded.le (h : Recorded first value writes) : value ≤ first + writes.length := by
  cases h with
  | first => exact Nat.le_refl _
  | write _ hle _ => exact Nat.succ_le_succ hle

theorem Recorded.exact_iff (h : Recorded first value writes) :
    value = first + writes.length ↔ ∀ w ∈ writes, w.1 = w.2 := by
  induction h with
  | first => simp
  | @write n value writes before hle hlast ih =>
    rw [List.forall_mem_cons, ← ih, List.length_cons, ← Nat.add_assoc, Nat.succ_inj]
    constructor
    · intro hn
      have hvalue := hlast hn
      exact ⟨hvalue.symm, hvalue.trans hn⟩
    · rintro ⟨hsame, hvalue⟩
      exact hsame.trans hvalue

/-- The values only rise if and only if the last one counts the writes. -/
theorem Recorded.rising_iff (h : Recorded first value writes) :
    value = first + writes.length ↔ (value :: writes.map Prod.snd).Pairwise (· > ·) := by
  rw [← List.isChain_iff_pairwise]
  induction h with
  | first => simp
  | @write n value writes before hle hlast ih =>
    rw [List.map_cons, List.isChain_cons_cons, ← ih, List.length_cons, ← Nat.add_assoc, Nat.succ_inj]
    have hbefore := before.le
    constructor
    · intro hn
      have hvalue := hlast hn
      omega
    · rintro ⟨hgt, hvalue⟩
      omega

structure Sound (first : Nat) (c : Counter S) : Prop where
  recorded : Recorded first c.value c.writes
  le : ∀ i n, c.loaded i = some n → n ≤ first + c.writes.length
  last : ∀ i n, c.loaded i = some n → n = first + c.writes.length → c.value = n

omit [DecidableEq S] in
theorem Sound.init (first : Nat) : Sound first (start first : Counter S) where
  recorded := .first
  le := fun _ _ h => by cases h
  last := fun _ _ h => by cases h

theorem Sound.step (inv : Sound first c) (h : Step c c') : Sound first c' := by
  cases h with
  | load i =>
    refine ⟨inv.recorded, fun j n h => ?_, fun j n h hn => ?_⟩
    · rcases update_eq_some h with hvalue | h
      · rw [← Option.some.inj hvalue]
        exact inv.recorded.le
      · exact inv.le j n h
    · rcases update_eq_some h with hvalue | h
      · exact Option.some.inj hvalue
      · exact inv.last j n h hn
  | @write i n hi =>
    have hopen {j m} (h : Function.update c.loaded i none j = some m) : m ≤ first + c.writes.length :=
      inv.le j m ((update_eq_some h).resolve_left (by simp))
    refine ⟨.write inv.recorded (inv.le i n hi) (inv.last i n hi), fun j m h => ?_, fun j m h hm => ?_⟩
    · exact (hopen h).trans (by simp)
    · have hle := hopen h
      rw [List.length_cons] at hm
      omega
  | close i =>
    refine ⟨inv.recorded, fun j m h => ?_, fun j m h => ?_⟩
    · exact inv.le j m ((update_eq_some h).resolve_left (by simp))
    · exact inv.last j m ((update_eq_some h).resolve_left (by simp))

end Counter

end BackendProjects.Library
