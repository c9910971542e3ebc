import BackendProjects.Library.Runs
import Mathlib.Logic.Function.Basic

/-! A lock that is a key with a deadline: whoever finds no key sets one, and a release deletes
whatever key is there. It excludes as long as no key expires under the client that set it. -/
namespace BackendProjects.Library

/-- The key with who set it and when it may expire, and the clients between acquire and release. -/
structure Lease (C : Type*) where
  now : Nat
  key : Option (C × Nat)
  inside : C → Bool

namespace Lease
variable {C : Type*}

def free : Lease C := ⟨0, none, fun _ => false⟩

inductive Expires (l : Lease C) : Lease C → Prop
  | expire (c : C) (deadline : Nat) (isSet : l.key = some (c, deadline)) (due : deadline ≤ l.now) :
      Expires l { l with key := none }

theorem Expires.unset {l l' : Lease C} (h : Expires l l') : l'.key = none := by
  cases h
  rfl

theorem Expires.inside {l l' : Lease C} (h : Expires l l') : l'.inside = l.inside := by
  cases h
  rfl

/-- No key expires under the client that set it. -/
def InTime (l l' : Lease C) : Prop :=
  Expires l l' → ∀ c deadline, l.key = some (c, deadline) → l.inside c = false

def Held (l : Lease C) : Prop := ∀ c, l.inside c = true → ∃ deadline, l.key = some (c, deadline)

theorem Held.unique {l : Lease C} (h : Held l) {c d : C} (hc : l.inside c = true) (hd : l.inside d = true) :
    c = d := by
  obtain ⟨_, hkey⟩ := h c hc
  obtain ⟨_, hkey'⟩ := h d hd
  rw [hkey, Option.some.injEq, Prod.mk.injEq] at hkey'
  exact hkey'.1

variable [DecidableEq C]

def enter (l : Lease C) (c : C) (ttl : Nat) : Lease C :=
  { l with key := some (c, l.now + ttl), inside := Function.update l.inside c true }

def leave (l : Lease C) (c : C) : Lease C := { l with inside := Function.update l.inside c false }

inductive Acquires (c : C) (l : Lease C) : Lease C → Prop
  | granted (ttl : Nat) (out : l.inside c = false) (unset : l.key = none) : Acquires c l (l.enter c ttl)
  | refused (out : l.inside c = false) (isSet : l.key ≠ none) : Acquires c l l

inductive Releases (c : C) (l : Lease C) : Lease C → Prop
  | release (inn : l.inside c = true) : Releases c l { l.leave c with key := none }

/-- A client that dies is no longer inside, and its key stays. -/
inductive Step (l l' : Lease C) : Prop
  | tick (now : Nat) (later : l.now ≤ now) (h : l' = { l with now := now })
  | acquire (c : C) (h : Acquires c l l')
  | release (c : C) (h : Releases c l l')
  | expire (h : Expires l l')
  | die (c : C) (h : l' = l.leave c)

variable {l l' : Lease C} {c : C}

private theorem Held.leave (h : Held l) (c : C) : Held (l.leave c) := by
  intro d hd
  refine h d ?_
  by_cases hdc : d = c
  · simp [Lease.leave, hdc] at hd
  · simpa [Lease.leave, hdc] using hd

private theorem Held.acquires (h : Held l) (hstep : Acquires c l l') : Held l' := by
  cases hstep with
  | granted ttl out unset =>
    intro d hd
    by_cases hdc : d = c
    · exact ⟨l.now + ttl, by rw [enter, hdc]⟩
    · obtain ⟨_, hkey⟩ := h d (by simpa [enter, hdc] using hd)
      rw [unset] at hkey
      cases hkey
  | refused => exact h

/-- The client that leaves was alone, so nobody misses the key. -/
theorem Held.releases (h : Held l) (hstep : Releases c l l') : Held l' := by
  cases hstep with
  | release inn =>
    intro d hd
    by_cases hdc : d = c
    · simp [Lease.leave, hdc] at hd
    · exact absurd (h.unique (by simpa [Lease.leave, hdc] using hd) inn) hdc

omit [DecidableEq C] in
private theorem Held.expires (h : Held l) (intime : InTime l l') (hstep : Expires l l') : Held l' := by
  have hout := intime hstep
  cases hstep with
  | expire _ _ _ due =>
    intro c hc
    obtain ⟨_, hkey⟩ := h c hc
    exact absurd hc (by simp [hout c _ hkey])

theorem Held.step (h : Held l) (hstep : Where InTime Step l l') : Held l' := by
  obtain ⟨intime, hstep⟩ := hstep
  cases hstep with
  | tick now _ hnow => exact hnow ▸ h
  | acquire c hstep => exact h.acquires hstep
  | release c hstep => exact h.releases hstep
  | expire hstep => exact h.expires intime hstep
  | die c hdie => exact hdie ▸ h.leave c

end Lease
end BackendProjects.Library
