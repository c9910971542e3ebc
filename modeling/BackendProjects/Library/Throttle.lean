import BackendProjects.Library.Runs
import Mathlib.Algebra.Order.Monoid.Defs
import Mathlib.Data.List.Pairwise
import Mathlib.Logic.Function.Basic

/-! A throttle: a caller that finds no live key acts, and then sets the key with a deadline. The check and
the setting are apart, so acts keep their distance only while no two callers are in between. -/
namespace BackendProjects.Library
variable {C K E T : Type*}

/-- Where a caller stands: it may have found the key of something free, and have done it. -/
inductive ThrottlePlace (E : Type*) where
  | outside
  | passed (what : E)
  | acted (what : E)

def ThrottlePlace.pending : ThrottlePlace E → Option E
  | .outside => none
  | .passed what | .acted what => some what

structure ThrottledAct (C E T : Type*) where
  what : E
  owner : C
  since : T
  armedAt : Option T := none

structure Throttle (C K E T : Type*) where
  now : T
  deadline : K → Option T
  place : C → ThrottlePlace E
  acts : List (ThrottledAct C E T)

namespace Throttle

def cooling [LinearOrder T] (s : Throttle C K E T) (k : K) : Bool := (s.deadline k).any (s.now < ·)

section
variable [DecidableEq C] (s : Throttle C K E T) (c : C)

def goTo (place : ThrottlePlace E) : Throttle C K E T := { s with place := Function.update s.place c place }

def act (what : E) : Throttle C K E T :=
  { s.goTo c (.acted what) with acts := s.acts ++ [{ what := what, owner := c, since := s.now }] }

def stamp (a : ThrottledAct C E T) : ThrottledAct C E T :=
  if a.owner = c ∧ a.armedAt.isNone then { a with armedAt := some s.now } else a

def arm [DecidableEq K] [Add T] (key : E → K) (ttl : T) (what : E) : Throttle C K E T :=
  { s.goTo c .outside with
    deadline := Function.update s.deadline (key what) (some (s.now + ttl))
    acts := s.acts.map (s.stamp c) }

def abort : Throttle C K E T := { s.goTo c .outside with acts := s.acts.filter (fun a => a.owner ≠ c) }

theorem goTo_place (d : C) (place : ThrottlePlace E) :
    (s.goTo c place).place d = if d = c then place else s.place d := by
  simp [goTo, Function.update_apply]

private theorem act_place (what : E) (d : C) : (s.act c what).place d = if d = c then .acted what else s.place d :=
  s.goTo_place c d _

private theorem arm_place [DecidableEq K] [Add T] (key : E → K) (ttl : T) (what : E) (d : C) :
    (s.arm c key ttl what).place d = if d = c then .outside else s.place d :=
  s.goTo_place c d _

theorem abort_place (d : C) : (s.abort c).place d = if d = c then .outside else s.place d := s.goTo_place c d _

/-- A caller that leaves, or goes on with what it is about, is about nothing new. -/
theorem pending_goTo {s : Throttle C K E T} {c : C} (place : ThrottlePlace E)
    (h : ∀ what, place.pending = some what → (s.place c).pending = some what) (d : C) (what : E)
    (hd : ((s.goTo c place).place d).pending = some what) : (s.place d).pending = some what := by
  rw [goTo_place] at hd
  split at hd
  · next heq => exact heq ▸ h what hd
  · exact hd

variable {s c}

private theorem stamp_what (a : ThrottledAct C E T) : (s.stamp c a).what = a.what := by
  unfold stamp
  split <;> rfl

private theorem stamp_since (a : ThrottledAct C E T) : (s.stamp c a).since = a.since := by
  unfold stamp
  split <;> rfl

private theorem stamp_of_armed {a : ThrottledAct C E T} {t : T} (h : a.armedAt = some t) : s.stamp c a = a := by
  simp [stamp, h]

end

inductive Step [DecidableEq C] [DecidableEq K] [LinearOrder T] [Add T] (key : E → K) (ttl : T)
    (s : Throttle C K E T) : Throttle C K E T → Prop
  | tick (now : T) (later : s.now ≤ now) : Step key ttl s { s with now := now }
  | pass (c : C) (what : E) (out : s.place c = .outside) (free : s.cooling (key what) = false) :
      Step key ttl s (s.goTo c (.passed what))
  | act (c : C) (what : E) (passed : s.place c = .passed what) : Step key ttl s (s.act c what)
  | arm (c : C) (what : E) (acted : s.place c = .acted what) : Step key ttl s (s.arm c key ttl what)
  | abort (c : C) : Step key ttl s (s.abort c)

def Alone (key : E → K) (s s' : Throttle C K E T) : Prop :=
  ∀ c what, s.place c = .outside → s'.place c = .passed what →
    ∀ d other, (s.place d).pending = some other → key other ≠ key what

def Apart [LE T] [Add T] (key : E → K) (ttl : T) (a b : ThrottledAct C E T) : Prop :=
  key a.what = key b.what → ∃ t, a.armedAt = some t ∧ t + ttl ≤ b.since

structure Inv [LE T] [Add T] (key : E → K) (ttl : T) (s : Throttle C K E T) : Prop where
  exclusive : ∀ c d what other, (s.place c).pending = some what → (s.place d).pending = some other →
    key what = key other → c = d
  armed : ∀ a ∈ s.acts, ∀ t, a.armedAt = some t →
    t ≤ s.now ∧ ∃ d, s.deadline (key a.what) = some d ∧ t + ttl ≤ d
  unarmed : ∀ a ∈ s.acts, a.armedAt = none → s.place a.owner = .acted a.what
  passed : ∀ c what, s.place c = .passed what → ∀ a ∈ s.acts, key a.what = key what →
    ∃ t, a.armedAt = some t ∧ t + ttl ≤ s.now
  apart : s.acts.Pairwise (Apart key ttl)

/-- Before anything is done. -/
theorem Inv.start [LE T] [Add T] {key : E → K} {ttl : T} {s : Throttle C K E T}
    (hout : ∀ c, s.place c = .outside) (hacts : s.acts = []) : Inv key ttl s where
  exclusive c d what other hc := by
    rw [hout] at hc
    cases hc
  armed a ha := by
    rw [hacts] at ha
    cases ha
  unarmed a ha := by
    rw [hacts] at ha
    cases ha
  passed c what hc := by
    rw [hout] at hc
    cases hc
  apart := hacts ▸ .nil

section
variable [LinearOrder T] [Add T] {key : E → K} {ttl : T} {s s' : Throttle C K E T} {c : C} {what : E}

theorem Inv.tick (inv : Inv key ttl s) {now : T} (later : s.now ≤ now) :
    Inv key ttl { s with now := now } where
  exclusive := inv.exclusive
  armed a ha t ht := ⟨(inv.armed a ha t ht).1.trans later, (inv.armed a ha t ht).2⟩
  unarmed := inv.unarmed
  passed c what hc a ha hkey := by
    obtain ⟨t, ht, hle⟩ := inv.passed c what hc a ha hkey
    exact ⟨t, ht, hle.trans later⟩
  apart := inv.apart

variable [DecidableEq C]

/-- A key that is found free with nobody in between has seen the deadlines of all acts on it. -/
theorem Inv.pass (inv : Inv key ttl s) (out : s.place c = .outside) (free : s.cooling (key what) = false)
    (alone : ∀ d other, (s.place d).pending = some other → key other ≠ key what) :
    Inv key ttl (s.goTo c (.passed what)) where
  exclusive d e one other hd he hkey := by
    have hbefore (d : C) (one : E) (hd : ((s.goTo c (.passed what)).place d).pending = some one) :
        (d = c ∧ what = one) ∨ (s.place d).pending = some one := by
      rw [goTo_place] at hd
      split at hd
      · next heq => exact Or.inl ⟨heq, Option.some.inj hd⟩
      · exact Or.inr hd
    rcases hbefore d one hd with ⟨rfl, rfl⟩ | hd' <;> rcases hbefore e other he with ⟨rfl, rfl⟩ | he'
    · rfl
    · exact absurd hkey.symm (alone e other he')
    · exact absurd hkey (alone d one hd')
    · exact inv.exclusive d e one other hd' he' hkey
  armed := inv.armed
  unarmed a ha hnone := by
    have hplace := inv.unarmed a ha hnone
    rw [goTo_place, if_neg]
    · exact hplace
    · intro heq
      rw [heq, out] at hplace
      cases hplace
  passed d other hd a ha hkey := by
    rw [goTo_place] at hd
    split at hd
    · cases hd
      cases harmed : a.armedAt with
      | none =>
        have hplace := inv.unarmed a ha harmed
        exact absurd hkey (alone a.owner a.what (by rw [hplace]; rfl))
      | some t =>
        obtain ⟨-, deadline, hdeadline, hle⟩ := inv.armed a ha t harmed
        rw [hkey] at hdeadline
        have hpast : deadline ≤ s.now := by simpa [cooling, hdeadline] using free
        exact ⟨t, rfl, hle.trans hpast⟩
    · exact inv.passed d other hd a ha hkey
  apart := inv.apart

/-- Who has passed when another has acted had passed before, for another key than that of the act. -/
theorem Inv.passed_of_act (inv : Inv key ttl s) (passed : s.place c = .passed what) {d : C} {other : E}
    (hd : (s.act c what).place d = .passed other) : s.place d = .passed other ∧ key what ≠ key other := by
  rw [act_place] at hd
  split at hd
  · cases hd
  · next hne =>
    refine ⟨hd, fun hkey => hne ?_⟩
    exact inv.exclusive d c other what (by rw [hd]; rfl) (by rw [passed]; rfl) hkey.symm

private theorem Inv.act (inv : Inv key ttl s) (passed : s.place c = .passed what) : Inv key ttl
    (s.act c what) where
  exclusive d e one other hd he hkey := by
    have hbefore := pending_goTo (s := s) (c := c) (.acted what) (by rw [passed]; exact fun _ => id)
    exact inv.exclusive d e one other (hbefore d one hd) (hbefore e other he) hkey
  armed a ha t ht := by
    rcases List.mem_append.mp ha with ha | ha
    · exact inv.armed a ha t ht
    · rw [List.mem_singleton.mp ha] at ht
      cases ht
  unarmed a ha hnone := by
    rw [act_place]
    rcases List.mem_append.mp ha with ha | ha
    · have hplace := inv.unarmed a ha hnone
      rw [if_neg]
      · exact hplace
      · intro heq
        rw [heq, passed] at hplace
        cases hplace
    · rw [List.mem_singleton.mp ha, if_pos rfl]
  passed d other hd a ha hkey := by
    obtain ⟨hbefore, hother⟩ := inv.passed_of_act passed hd
    rcases List.mem_append.mp ha with ha | ha
    · exact inv.passed d other hbefore a ha hkey
    · rw [List.mem_singleton.mp ha] at hkey
      exact absurd hkey hother
  apart := by
    refine List.pairwise_append.mpr ⟨inv.apart, List.pairwise_singleton _ _, fun a ha b hb hkey => ?_⟩
    rw [List.mem_singleton.mp hb] at hkey ⊢
    exact inv.passed c what passed a ha hkey

theorem Inv.abort (inv : Inv key ttl s) (c : C) : Inv key ttl (s.abort c) where
  exclusive d e one other hd he hkey := by
    have hbefore := pending_goTo (s := s) (c := c) .outside (fun _ h => nomatch h)
    exact inv.exclusive d e one other (hbefore d one hd) (hbefore e other he) hkey
  armed a ha := inv.armed a (List.mem_filter.mp ha |>.1)
  unarmed a ha hnone := by
    obtain ⟨ha, howner⟩ := List.mem_filter.mp ha
    rw [abort_place, if_neg (by simpa using howner)]
    exact inv.unarmed a ha hnone
  passed d other hd a ha hkey := by
    rw [abort_place] at hd
    split at hd
    · cases hd
    · exact inv.passed d other hd a (List.mem_filter.mp ha |>.1) hkey
  apart := inv.apart.filter _

variable [DecidableEq K]

private theorem Inv.arm [AddRightMono T] (inv : Inv key ttl s) (acted : s.place c = .acted what) :
    Inv key ttl (s.arm c key ttl what) where
  exclusive d e one other hd he hkey := by
    have hbefore := pending_goTo (s := s) (c := c) .outside (fun _ h => nomatch h)
    exact inv.exclusive d e one other (hbefore d one hd) (hbefore e other he) hkey
  armed b hb t ht := by
    obtain ⟨a, ha, rfl⟩ := List.mem_map.mp hb
    rw [stamp_what]
    change t ≤ s.now ∧
      ∃ d, Function.update s.deadline (key what) (some (s.now + ttl)) (key a.what) = some d ∧ _
    have htime : t ≤ s.now ∧ (key a.what ≠ key what →
        ∃ d, s.deadline (key a.what) = some d ∧ t + ttl ≤ d) := by
      cases harmed : a.armedAt with
      | some t' =>
        rw [stamp_of_armed harmed, harmed] at ht
        cases ht
        exact (inv.armed a ha t harmed).imp_right (fun h _ => h)
      | none =>
        unfold stamp at ht
        split at ht
        · next howner =>
          cases ht
          have hplace := inv.unarmed a ha harmed
          rw [howner.1, acted] at hplace
          cases hplace
          exact ⟨le_rfl, fun hne => absurd rfl hne⟩
        · rw [harmed] at ht
          cases ht
    refine ⟨htime.1, ?_⟩
    by_cases hkey : key a.what = key what
    · exact ⟨s.now + ttl, by rw [hkey, Function.update_self], by gcongr; exact htime.1⟩
    · rw [Function.update_of_ne hkey]
      exact htime.2 hkey
  unarmed b hb hnone := by
    obtain ⟨a, ha, rfl⟩ := List.mem_map.mp hb
    unfold stamp at hnone ⊢
    split at hnone
    · cases hnone
    · next howner =>
      rw [if_neg howner, arm_place, if_neg (fun heq => howner ⟨heq, by simp [hnone]⟩)]
      exact inv.unarmed a ha hnone
  passed d other hd b hb hkey := by
    obtain ⟨a, ha, rfl⟩ := List.mem_map.mp hb
    rw [arm_place] at hd
    split at hd
    · cases hd
    · rw [stamp_what] at hkey
      obtain ⟨t, ht, hle⟩ := inv.passed d other hd a ha hkey
      rw [stamp_of_armed ht]
      exact ⟨t, ht, hle⟩
  apart := by
    refine List.pairwise_map.mpr (inv.apart.imp (fun {a b} h hkey => ?_))
    rw [stamp_what, stamp_what] at hkey
    obtain ⟨t, ht, hle⟩ := h hkey
    rw [stamp_of_armed ht, stamp_since]
    exact ⟨t, ht, hle⟩

/-- The acts keep their distance as long as nobody is in between when a key is found free. -/
theorem Inv.step [AddRightMono T] (inv : Inv key ttl s) (h : Where (Alone key) (Step key ttl) s s') :
    Inv key ttl s' := by
  obtain ⟨alone, hstep⟩ := h
  cases hstep with
  | tick now later => exact inv.tick later
  | pass c what out free => exact inv.pass out free (alone c what out (by rw [goTo_place, if_pos rfl]))
  | act c what passed => exact inv.act passed
  | arm c what acted => exact inv.arm acted
  | abort c => exact inv.abort c

end

/-! ### What is done once -/

/-- No two acts are of the same kind, and nobody is about to do another one. -/
structure Once (same : E → E → Prop) (s : Throttle C K E T) : Prop where
  passed : ∀ c what, s.place c = .passed what → ∀ a ∈ s.acts, ¬ same a.what what
  once : s.acts.Pairwise (fun a b => ¬ same a.what b.what)

/-- Of what has been done, something of the same kind as what a caller is about to do has set its key less
than the time ago. -/
def Recent [LT T] [Add T] (same : E → E → Prop) (ttl : T) (s : Throttle C K E T) (what : E) : Prop :=
  ∀ a ∈ s.acts, same a.what what → ∃ t, a.armedAt = some t ∧ s.now < t + ttl

theorem Once.start {same : E → E → Prop} {s : Throttle C K E T} (hout : ∀ c, s.place c = .outside)
    (hacts : s.acts = []) : Once same s where
  passed c what hc := by
    rw [hout] at hc
    cases hc
  once := hacts ▸ .nil

section
variable [DecidableEq C] {same : E → E → Prop} {s : Throttle C K E T} {c : C}

theorem Once.abort (once : Once same s) (c : C) : Once same (s.abort c) where
  passed d other hd a ha := by
    rw [abort_place] at hd
    split at hd
    · cases hd
    · exact once.passed d other hd a (List.mem_filter.mp ha |>.1)
  once := once.once.filter _

private theorem Once.arm [DecidableEq K] [Add T] {key : E → K} {ttl : T} {what : E} (once : Once same s) :
    Once same (s.arm c key ttl what) where
  passed d other hd b hb := by
    obtain ⟨a, ha, rfl⟩ := List.mem_map.mp hb
    rw [arm_place] at hd
    rw [stamp_what]
    split at hd
    · cases hd
    · exact once.passed d other hd a ha
  once := by
    refine List.pairwise_map.mpr (once.once.imp (fun {a b} h => ?_))
    rw [stamp_what, stamp_what]
    exact h

end

section
variable [LinearOrder T] [Add T] {same : E → E → Prop} {key : E → K} {ttl : T} {s s' : Throttle C K E T}
  {c : C} {what : E}

/-- A key that was set less than the time ago is not found free. -/
theorem Recent.cooling (inv : Inv key ttl s) (recent : Recent same ttl s what) {a : ThrottledAct C E T}
    (ha : a ∈ s.acts) (hsame : same a.what what) (hkey : key a.what = key what) :
    s.cooling (key what) = true := by
  obtain ⟨t, ht, hlt⟩ := recent a ha hsame
  obtain ⟨-, deadline, hdeadline, hle⟩ := inv.armed a ha t ht
  rw [Throttle.cooling, ← hkey, hdeadline]
  simpa using hlt.trans_le hle

variable [DecidableEq C]

private theorem Once.pass (inv : Inv key ttl s) (once : Once same s) (hkey : ∀ a b, same a b → key a = key b)
    (free : s.cooling (key what) = false) (recent : Recent same ttl s what) :
    Once same (s.goTo c (.passed what)) where
  passed d other hd a ha hsame := by
    rw [goTo_place] at hd
    split at hd
    · cases hd
      rw [recent.cooling inv ha hsame (hkey _ _ hsame)] at free
      cases free
    · exact once.passed d other hd a ha hsame
  once := once.once

/-- Whoever else is about to do something of the same kind holds the same key. -/
theorem Once.act (inv : Inv key ttl s) (once : Once same s) (hkey : ∀ a b, same a b → key a = key b)
    (passed : s.place c = .passed what) : Once same (s.act c what) where
  passed d other hd a ha hsame := by
    obtain ⟨hbefore, hother⟩ := inv.passed_of_act passed hd
    rcases List.mem_append.mp ha with ha | ha
    · exact once.passed d other hbefore a ha hsame
    · rw [List.mem_singleton.mp ha] at hsame
      exact absurd (hkey _ _ hsame) hother
  once := by
    refine List.pairwise_append.mpr ⟨once.once, List.pairwise_singleton _ _, fun a ha b hb => ?_⟩
    rw [List.mem_singleton.mp hb]
    exact once.passed c what passed a ha

variable [DecidableEq K]

/-- Nothing is done twice as long as whatever is found free, but has been done, was done less than the
time ago. -/
theorem Once.step (inv : Inv key ttl s) (once : Once same s) (hkey : ∀ a b, same a b → key a = key b)
    (recent : ∀ c what, s.place c = .outside → s'.place c = .passed what → Recent same ttl s what)
    (h : Step key ttl s s') : Once same s' := by
  cases h with
  | tick now later => exact ⟨once.passed, once.once⟩
  | pass c what out free => exact once.pass inv hkey free (recent c what out (by rw [goTo_place, if_pos rfl]))
  | act c what passed => exact once.act inv hkey passed
  | arm c what acted => exact once.arm
  | abort c => exact once.abort c

end

end Throttle
end BackendProjects.Library
