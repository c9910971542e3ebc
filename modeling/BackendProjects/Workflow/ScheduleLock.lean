import BackendProjects.Library.Lease
import BackendProjects.Workflow.Values

/-! The Redis lock of a schedule. It has an expiry but no owner, so it excludes only where no key
expires under a client that is still at work. -/
namespace BackendProjects.Workflow
open Library
variable {C : Type} [DecidableEq C]

/-- A text in Redis; who set it is not in Redis. -/
structure RedisEntry (C : Type) where
  value : String
  expiresAt : Time
  setBy : C

abbrev Redis (C : Type) := String → Option (RedisEntry C)

namespace Redis

def lockKey (key : String) : String := "lock:" ++ key

def setIfAbsent (redis : Redis C) (key value : String) (expiresAt : Time) (c : C) : Bool × Redis C :=
  if (redis key).isSome then (false, redis)
  else (true, Function.update redis key (some ⟨value, expiresAt, c⟩))

def delete (redis : Redis C) (key : String) : Redis C := Function.update redis key none

def acquireLock (redis : Redis C) (now : Time) (c : C) (key : String) (ttl : Nat := 30) : Bool × Redis C :=
  redis.setIfAbsent (lockKey key) "1" (now + ttl) c

def releaseLock (redis : Redis C) (key : String) : Redis C := redis.delete (lockKey key)

def syncAcquireLock (redis : Redis C) (now : Time) (c : C) (key : String) (ttl : Nat := 120) :
    Bool × Redis C := redis.setIfAbsent (lockKey key) "1" (now + ttl) c

def syncReleaseLock (redis : Redis C) (key : String) : Redis C := redis.delete (lockKey key)

end Redis

/-- Redis and the clients between a successful acquire_lock on one key and their release_lock. -/
structure LockClients (C : Type) where
  now : Time
  redis : Redis C
  inside : C → Bool

namespace LockClients

def answered (s : LockClients C) (c : C) (answer : Bool × Redis C) : LockClients C :=
  { s with redis := answer.2, inside := if answer.1 then Function.update s.inside c true else s.inside }

def released (s : LockClients C) (c : C) (redis : Redis C) : LockClients C :=
  { s with redis := redis, inside := Function.update s.inside c false }

/-- A step on one key; other keys change as they like. -/
inductive Step (key : String) (s : LockClients C) : LockClients C → Prop
  | tick (now : Time) (later : s.now ≤ now) : Step key s { s with now := now }
  | acquire (c : C) (ttl : Nat) (out : s.inside c = false) :
      Step key s (s.answered c (s.redis.acquireLock s.now c key ttl))
  | syncAcquire (c : C) (ttl : Nat) (out : s.inside c = false) :
      Step key s (s.answered c (s.redis.syncAcquireLock s.now c key ttl))
  | release (c : C) (inn : s.inside c = true) : Step key s (s.released c (s.redis.releaseLock key))
  | syncRelease (c : C) (inn : s.inside c = true) : Step key s (s.released c (s.redis.syncReleaseLock key))
  | expire (e : RedisEntry C) (isSet : s.redis (Redis.lockKey key) = some e) (due : e.expiresAt ≤ s.now) :
      Step key s { s with redis := s.redis.delete (Redis.lockKey key) }
  | other (redis : Redis C) (same : redis (Redis.lockKey key) = s.redis (Redis.lockKey key)) :
      Step key s { s with redis := redis }
  | die (c : C) : Step key s { s with inside := Function.update s.inside c false }

def lease (key : String) (s : LockClients C) : Lease C where
  now := s.now
  key := (s.redis (Redis.lockKey key)).map (fun e => (e.setBy, e.expiresAt))
  inside := s.inside

/-- No key expires under the client that set it. -/
def InTime (key : String) (s s' : LockClients C) : Prop := Lease.InTime (s.lease key) (s'.lease key)

variable {key : String} {s s' : LockClients C} {c : C}

private theorem lease_answered (out : s.inside c = false) (ttl : Nat) : Lease.Acquires c (s.lease key)
    ((s.answered c (s.redis.setIfAbsent (Redis.lockKey key) "1" (s.now + ttl) c)).lease key) := by
  cases hkey : s.redis (Redis.lockKey key) with
  | none =>
    have hgranted := Lease.Acquires.granted (l := s.lease key) ttl out (by simp [lease, hkey])
    simpa [lease, answered, Redis.setIfAbsent, hkey, Lease.enter] using hgranted
  | some e =>
    have hrefused := Lease.Acquires.refused (l := s.lease key) out (by simp [lease, hkey])
    simpa [lease, answered, Redis.setIfAbsent, hkey] using hrefused

private theorem lease_released (inn : s.inside c = true) :
    Lease.Releases c (s.lease key) ((s.released c (s.redis.delete (Redis.lockKey key))).lease key) := by
  have hrelease := Lease.Releases.release (l := s.lease key) inn
  simpa [lease, released, Redis.delete, Lease.leave] using hrelease

/-- A step on the key is a step of the lease; other keys do not touch it. -/
private theorem Step.lease (h : Step key s s') :
    s'.lease key = s.lease key ∨ Lease.Step (s.lease key) (s'.lease key) := by
  cases h with
  | tick now later => exact Or.inr (.tick now later rfl)
  | acquire c ttl out | syncAcquire c ttl out => exact Or.inr (.acquire c (lease_answered out ttl))
  | release c inn | syncRelease c inn => exact Or.inr (.release c (lease_released inn))
  | expire e isSet due =>
    have hexpire := Lease.Expires.expire (l := s.lease key) e.setBy e.expiresAt
      (by simp [LockClients.lease, isSet]) due
    exact Or.inr (.expire (by simpa [LockClients.lease, Redis.delete] using hexpire))
  | other redis same => exact Or.inl (by simp only [LockClients.lease, same])
  | die c => exact Or.inr (.die c rfl)

private theorem held_of_run (run : Run (Where (InTime key) (Step key)) s s') (h : ∀ c, s.inside c = false) :
    Lease.Held (s'.lease key) := by
  have hkept : ∀ s s' : LockClients C, Lease.Held (s.lease key) → Where (InTime key) (Step key) s s' →
      Lease.Held (s'.lease key) := by
    rintro s s' inv ⟨intime, hstep⟩
    rcases hstep.lease with hsame | hlease
    · exact hsame ▸ inv
    · exact inv.step ⟨intime, hlease⟩
  refine run.invariant hkept (fun c hc => ?_)
  rw [show (s.lease key).inside c = s.inside c from rfl, h c] at hc
  cases hc

end LockClients

/-- In a run where no key expires under the client that set it, at most one client is between
acquire_lock and release_lock, and what its release_lock deletes is its own key. -/
theorem schedule_lock_excludes {key : String} {s s' : LockClients C}
    (run : Run (Where (LockClients.InTime key) (LockClients.Step key)) s s') (h : ∀ c, s.inside c = false) :
    (∀ c d, s'.inside c = true → s'.inside d = true → c = d) ∧
    ∀ c e, s'.inside c = true → s'.redis (Redis.lockKey key) = some e → e.setBy = c := by
  have held := LockClients.held_of_run run h
  refine ⟨fun c d hc hd => held.unique hc hd, fun c e hc he => ?_⟩
  obtain ⟨deadline, hkey⟩ := held c hc
  simp only [LockClients.lease, he, Option.map_some, Option.some.injEq, Prod.mk.injEq] at hkey
  exact hkey.1

/-! ### Two checkers of one schedule -/

private def nobody : LockClients Nat := ⟨0, fun _ => none, fun _ => false⟩

private def first : LockClients Nat := nobody.answered 0 (nobody.redis.acquireLock 0 0 "s" 120)

private def expired : LockClients Nat := ⟨120, first.redis.delete (Redis.lockKey "s"), first.inside⟩

private def second : LockClients Nat := expired.answered 1 (expired.redis.acquireLock 120 1 "s" 120)

private theorem first_step : LockClients.Step "s" nobody first := .acquire 0 120 rfl

private def freed : LockClients Nat := first.released 0 (first.redis.releaseLock "s")

private def taken : LockClients Nat := freed.answered 1 (freed.redis.syncAcquireLock 0 1 "s" 120)

private def dead : LockClients Nat := { taken with now := 120, inside := Function.update taken.inside 1 false }

private def lapsed : LockClients Nat := { dead with redis := dead.redis.delete (Redis.lockKey "s") }

private def retaken : LockClients Nat := lapsed.answered 0 (lapsed.redis.acquireLock 120 0 "s" 120)

private theorem inTime_of_isSome {s s' : LockClients Nat} {key : String}
    (h : (s'.redis (Redis.lockKey key)).isSome) : s.InTime key s' := by
  intro hexpires
  have hunset := hexpires.unset
  simp [LockClients.lease, Option.isSome_iff_ne_none.mp h] at hunset

private theorem inTime_of_inside {s s' : LockClients Nat} {key : String} {c : Nat}
    (h : s'.inside c ≠ s.inside c) : s.InTime key s' :=
  fun hexpires => absurd (congrFun hexpires.inside c) h

/-- A second client is refused until the first one releases the key. It dies with the key that it
sets then, and once that one has expired the first client acquires it again. -/
theorem schedule_lock_excludes_retaken :
    (∀ c d, retaken.inside c = true → retaken.inside d = true → c = d) ∧
    ∀ c e, retaken.inside c = true → retaken.redis (Redis.lockKey "s") = some e → e.setBy = c := by
  have hrefused : LockClients.Step "s" first first := .acquire 1 120 rfl
  have hrelease : LockClients.Step "s" first freed := .release 0 rfl
  have htaken : LockClients.Step "s" freed taken := .syncAcquire 1 120 rfl
  have htick : LockClients.Step "s" taken { taken with now := 120 } := .tick 120 (Nat.zero_le _)
  have hdie : LockClients.Step "s" { taken with now := 120 } dead := .die 1
  have hexpire : LockClients.Step "s" dead lapsed := .expire ⟨"1", 120, 1⟩ rfl (Nat.le_refl _)
  have hretaken : LockClients.Step "s" lapsed retaken := .acquire 0 120 rfl
  -- the key that expires is the dead client's
  have hdead : dead.InTime "s" lapsed := by
    intro _ c deadline hkey
    cases hkey
    rfl
  have run : Run (Where (LockClients.InTime "s") (LockClients.Step "s")) nobody freed :=
    .tail (.tail (.single ⟨inTime_of_isSome rfl, first_step⟩) ⟨inTime_of_isSome rfl, hrefused⟩)
      ⟨inTime_of_inside (c := 0) Bool.false_ne_true, hrelease⟩
  have rest : Run (Where (LockClients.InTime "s") (LockClients.Step "s")) freed dead :=
    .tail (.tail (.single ⟨inTime_of_isSome rfl, htaken⟩) ⟨inTime_of_isSome rfl, htick⟩)
      ⟨inTime_of_isSome rfl, hdie⟩
  exact schedule_lock_excludes
    (.tail (.tail (run.trans rest) ⟨hdead, hexpire⟩) ⟨inTime_of_isSome rfl, hretaken⟩) (fun _ => rfl)

/-- The key of the first checker expires, the second one sets its own, and both are inside; the
first one's release would delete the second one's key. -/
theorem slow_checker_shares_the_lock : ∃ s, Run (LockClients.Step "s") nobody s ∧
    (s.inside 0 = true ∧ s.inside 1 = true) ∧
    ∃ e, s.redis (Redis.lockKey "s") = some e ∧ e.setBy = 1 ∧
      s.redis.releaseLock "s" (Redis.lockKey "s") = none := by
  have htick : LockClients.Step "s" first { first with now := 120 } := .tick 120 (Nat.zero_le _)
  have hexpire : LockClients.Step "s" { first with now := 120 } expired :=
    .expire ⟨"1", 120, 0⟩ rfl (Nat.le_refl _)
  have hsecond : LockClients.Step "s" expired second := .acquire 1 120 rfl
  exact ⟨second, .tail (.tail (.tail (.single first_step) htick) hexpire) hsecond, ⟨rfl, rfl⟩,
    ⟨"1", 240, 1⟩, rfl, rfl, rfl⟩

end BackendProjects.Workflow
