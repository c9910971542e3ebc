import BackendProjects.Anomaly.Stores
import BackendProjects.Library.Runs

/-! Concurrent additions to one sliding window. Each is three commands to Redis, and the number of members
that the last one removes is computed from a count that others may have acted on since. -/
namespace BackendProjects.Anomaly
open Library
variable {C : Type} [DecidableEq C]

inductive AddCall where
  | waiting
  | added
  | counted (n : Nat)
  | returned
  deriving DecidableEq

structure WindowCalls (C : Type) where
  window : SlidingWindow
  call : C → AddCall

namespace WindowCalls

def start (window : SlidingWindow) : WindowCalls C := ⟨window, fun _ => .waiting⟩

def goTo (s : WindowCalls C) (c : C) (call : AddCall) : WindowCalls C :=
  { s with call := Function.update s.call c call }

/-- The next command of a call: ZADD, ZCARD, or ZREMRANGEBYRANK. -/
def step (windowSize : Nat) (member : C → WindowMember) (c : C) (s : WindowCalls C) : Option (WindowCalls C) :=
  match s.call c with
  | .waiting => some { s.goTo c .added with window := s.window.zadd (member c) }
  | .added =>
    let n := s.window.zcard
    some (s.goTo c (if n > windowSize then .counted n else .returned))
  | .counted n =>
    some { s.goTo c .returned with window := s.window.zremrangebyrank 0 ((n : Int) - windowSize - 1) }
  | .returned => none

def Step (windowSize : Nat) (member : C → WindowMember) (s s' : WindowCalls C) : Prop :=
  ∃ c, step windowSize member c s = some s'

/-- A call that is to remove members and returns has found at least as many as it has counted. -/
def Unshrunk (s s' : WindowCalls C) : Prop :=
  ∀ c n, s.call c = .counted n → s'.call c = .returned → n ≤ s.window.zcard

structure FreshMembers (window : SlidingWindow) (member : C → WindowMember) : Prop where
  new : ∀ a ∈ window.members, ∀ c, a.text ≠ (member c).text
  distinct : ∀ c d, (member c).text = (member d).text → c = d

variable {windowSize : Nat} {member : C → WindowMember} {window : SlidingWindow} {s s' : WindowCalls C} {c : C}

/-- What the next command of a call does. -/
theorem step_cases (h : step windowSize member c s = some s') :
    (s.call c = .waiting ∧ s' = { s.goTo c .added with window := s.window.zadd (member c) }) ∨
    (s.call c = .added ∧ windowSize < s.window.zcard ∧ s' = s.goTo c (.counted s.window.zcard)) ∨
    (s.call c = .added ∧ s.window.zcard ≤ windowSize ∧ s' = s.goTo c .returned) ∨
    ∃ n, s.call c = .counted n ∧
      s' = { s.goTo c .returned with window := s.window.zremrangebyrank 0 ((n : Int) - windowSize - 1) } := by
  unfold step at h
  split at h
  · next hc => exact Or.inl ⟨hc, (Option.some.inj h).symm⟩
  · next hc =>
    have hs := Option.some.inj h
    split at hs
    · next hn => exact Or.inr (Or.inl ⟨hc, hn, hs.symm⟩)
    · next hn => exact Or.inr (Or.inr (Or.inl ⟨hc, Nat.le_of_not_lt hn, hs.symm⟩))
  · next n hc => exact Or.inr (Or.inr (Or.inr ⟨n, hc, (Option.some.inj h).symm⟩))
  · cases h

private theorem step_legal (cs : List C) : ∀ c ∈ cs, ∀ s s', step windowSize member c s = some s' →
    Step windowSize member s s' := fun c _ _ _ h => ⟨c, h⟩

/-- A call that nobody disturbs pushes its member. -/
theorem execute_alone (hc : s.call c = .waiting) : ∃ cs, (∀ d ∈ cs, d = c) ∧
    execute (step windowSize member) cs s = some
      { s.goTo c .returned with window := SortedSet.push windowSize s.window (member c) } := by
  by_cases hn : windowSize < (s.window.zadd (member c)).zcard
  · refine ⟨[c, c, c], by simp, ?_⟩
    simp [execute, step, hc, hn, goTo, SortedSet.push, SortedSet.trim]
  · refine ⟨[c, c], by simp, ?_⟩
    simp [execute, step, hc, hn, goTo, SortedSet.push, SortedSet.trim]

/-! ### Counting members -/

structure Counts (windowSize : Nat) (member : C → WindowMember) (window : SlidingWindow) (s : WindowCalls C)
    (begun : Finset C) : Prop where
  begun_iff : ∀ c, c ∈ begun ↔ s.call c ≠ .waiting
  counted_gt : ∀ c n, s.call c = .counted n → windowSize < n
  members : ∀ a ∈ s.window.members, a ∈ window.members ∨ ∃ c ∈ begun, a = member c
  zcard_le : s.window.zcard ≤ window.zcard + begun.card
  /-- As long as there are too many members, some call has yet to count, or has counted them all. -/
  pending : windowSize < s.window.zcard → ∃ c, s.call c = .added ∨
    ∃ n, s.call c = .counted n ∧ s.window.zcard ≤ n

omit [DecidableEq C] in
private theorem Counts.start (h : window.zcard ≤ windowSize) :
    Counts windowSize member window (start window : WindowCalls C) ∅ where
  begun_iff c := by simp [WindowCalls.start]
  counted_gt c n h := by cases h
  members a ha := Or.inl ha
  zcard_le := Nat.le_refl _
  pending hmore := absurd h (Nat.not_le.mpr hmore)

omit [DecidableEq C] in
/-- A member that a call adds is not in the window yet. -/
private theorem Counts.fresh {begun : Finset C} (inv : Counts windowSize member window s begun)
    (hfresh : FreshMembers window member) (hc : s.call c = .waiting) :
    ∀ a ∈ s.window.members, a.text ≠ (member c).text := by
  intro a ha
  rcases inv.members a ha with hold | ⟨d, hd, rfl⟩
  · exact hfresh.new a hold c
  · intro htext
    exact (inv.begun_iff c).mp (hfresh.distinct d c htext ▸ hd) hc

/-- What a call that has counted removes. -/
theorem zcard_remove (window : SlidingWindow) {n : Nat} (h : windowSize < n) :
    (window.zremrangebyrank 0 ((n : Int) - windowSize - 1)).zcard = window.zcard - (n - windowSize) := by
  rw [SortedSet.zcard, SortedSet.zremrangebyrank_members (by omega), List.length_drop, SortedSet.zcard]
  omega

private theorem goTo_call (s : WindowCalls C) (c d : C) (call : AddCall) :
    (s.goTo c call).call d = if d = c then call else s.call d := by
  simp [goTo, Function.update_apply]

variable {begun : Finset C} {call : AddCall}

/-- Moving a call that has begun does not change which calls have begun. -/
private theorem Counts.begun_goTo (inv : Counts windowSize member window s begun) (hc : s.call c ≠ .waiting)
    (hcall : call ≠ .waiting) (d : C) : d ∈ begun ↔ (s.goTo c call).call d ≠ .waiting := by
  rw [inv.begun_iff, goTo_call]
  split
  · next heq => exact iff_of_true (heq ▸ hc) hcall
  · rfl

private theorem Counts.counted_goTo (inv : Counts windowSize member window s begun)
    (hcall : ∀ n, call = .counted n → windowSize < n) (d : C) (n : Nat)
    (hd : (s.goTo c call).call d = .counted n) : windowSize < n := by
  rw [goTo_call] at hd
  split at hd
  · exact hcall n hd
  · exact inv.counted_gt d n hd

private theorem Counts.add (inv : Counts windowSize member window s begun) (hfresh : FreshMembers window member)
    (hc : s.call c = .waiting) : Counts windowSize member window
      { s.goTo c .added with window := s.window.zadd (member c) } (insert c begun) := by
  have hnew := inv.fresh hfresh hc
  have hbegun : c ∉ begun := fun hmem => (inv.begun_iff c).mp hmem hc
  refine ⟨fun d => ?_, inv.counted_goTo (by simp), fun a ha => ?_, ?_, fun _ => ⟨c, Or.inl (by simp [goTo])⟩⟩
  · rw [goTo_call]
    split
    · next heq => simp [heq]
    · next hne => simp [hne, inv.begun_iff]
  · rcases (SortedSet.mem_zadd hnew).mp ha with ha | rfl
    · exact (inv.members a ha).imp_right (fun ⟨d, hd, heq⟩ => ⟨d, Finset.mem_insert_of_mem hd, heq⟩)
    · exact Or.inr ⟨c, Finset.mem_insert_self c begun, rfl⟩
  · have hle := inv.zcard_le
    rw [SortedSet.zcard_zadd hnew, Finset.card_insert_of_notMem hbegun]
    omega

private theorem Counts.count (inv : Counts windowSize member window s begun) (hc : s.call c = .added) :
    Counts windowSize member window (s.goTo c
      (if windowSize < s.window.zcard then .counted s.window.zcard else .returned)) begun := by
  refine ⟨inv.begun_goTo (by simp [hc]) (by split <;> simp), inv.counted_goTo (fun n hn => ?_),
    inv.members, inv.zcard_le, fun hmore => ⟨c, Or.inr ⟨s.window.zcard, ?_, Nat.le_refl _⟩⟩⟩
  · split at hn
    · next hmore =>
      cases hn
      exact hmore
    · cases hn
  · rw [goTo_call, if_pos rfl]
    exact if_pos hmore

/-- Whoever is to remove enough has counted more than what a removal leaves, so it is another call. -/
private theorem Counts.remove (inv : Counts windowSize member window s begun) {n : Nat}
    (hc : s.call c = .counted n) :
    Counts windowSize member window { s.goTo c .returned with
      window := s.window.zremrangebyrank 0 ((n : Int) - windowSize - 1) } begun := by
  have hgt := inv.counted_gt c n hc
  have hcard := zcard_remove s.window hgt
  refine ⟨inv.begun_goTo (by simp [hc]) (by simp), inv.counted_goTo (by simp), fun a ha => ?_, ?_,
    fun hmore => ?_⟩
  · rw [SortedSet.zremrangebyrank_members (by omega)] at ha
    exact inv.members a (List.mem_of_mem_drop ha)
  · have hle := inv.zcard_le
    rw [hcard]
    omega
  · rw [hcard] at hmore ⊢
    obtain ⟨d, hd⟩ := inv.pending (by omega)
    have hne : d ≠ c := by
      rintro rfl
      rcases hd with hd | ⟨m, hd, hm⟩
      · rw [hc] at hd
        cases hd
      · rw [hc] at hd
        cases hd
        omega
    refine ⟨d, ?_⟩
    rw [goTo_call, if_neg hne]
    exact hd.imp_right (fun ⟨m, hm, hle⟩ => ⟨m, hm, by omega⟩)

/-- The invariant: nothing is removed that would be missed. -/
def Kept (windowSize : Nat) (member : C → WindowMember) (window : SlidingWindow) (s : WindowCalls C) : Prop :=
  ∃ begun, Counts windowSize member window s begun ∧
    min windowSize (window.zcard + begun.card) ≤ s.window.zcard

private theorem Kept.step (hfresh : FreshMembers window member) (inv : Kept windowSize member window s)
    (h : Where Unshrunk (Step windowSize member) s s') :
    Kept windowSize member window s' := by
  obtain ⟨hunshrunk, c, hstep⟩ := h
  obtain ⟨begun, counts, hkept⟩ := inv
  rcases step_cases hstep with ⟨hc, rfl⟩ | ⟨hc, hn, rfl⟩ | ⟨hc, hn, rfl⟩ | ⟨n, hc, rfl⟩
  · refine ⟨insert c begun, counts.add hfresh hc, ?_⟩
    have hbegun : c ∉ begun := fun hmem => (counts.begun_iff c).mp hmem hc
    rw [SortedSet.zcard_zadd (counts.fresh hfresh hc), Finset.card_insert_of_notMem hbegun]
    omega
  · have hcount := counts.count hc
    rw [if_pos hn] at hcount
    exact ⟨begun, hcount, hkept⟩
  · have hcount := counts.count hc
    rw [if_neg (Nat.not_lt.mpr hn)] at hcount
    exact ⟨begun, hcount, hkept⟩
  · refine ⟨begun, counts.remove hc, ?_⟩
    have hgt := counts.counted_gt c n hc
    have hle := hunshrunk c n hc (by simp [goTo])
    rw [zcard_remove s.window hgt]
    omega

end WindowCalls

/-- In a run where whoever removes members finds as many as it has counted, the window holds as many
members as it may once all calls have returned. -/
theorem window_full_after_calls {windowSize : Nat} {window : SlidingWindow} {member : C → WindowMember}
    (hwindow : window.zcard ≤ windowSize) (hfresh : WindowCalls.FreshMembers window member)
    {s : WindowCalls C} (run : Run (Where WindowCalls.Unshrunk (WindowCalls.Step windowSize member))
      (.start window) s)
    (calls : Finset C) (hcalls : ∀ c, s.call c = if c ∈ calls then .returned else .waiting) :
    s.window.zcard = min windowSize (window.zcard + calls.card) := by
  have hstart : WindowCalls.Kept windowSize member window (.start window) :=
    ⟨∅, .start hwindow, by simp [WindowCalls.start]⟩
  obtain ⟨begun, counts, hkept⟩ := run.invariant (fun _ _ inv h => inv.step hfresh h) hstart
  have hbegun : begun = calls := by
    ext c
    rw [counts.begun_iff, hcalls]
    split <;> simp [*]
  have hle : s.window.zcard ≤ windowSize := by
    by_contra hmore
    obtain ⟨c, hc⟩ := counts.pending (Nat.lt_of_not_le hmore)
    rw [hcalls] at hc
    split at hc <;> simp at hc
  have hupper := counts.zcard_le
  rw [hbegun] at hkept hupper
  omega

/-! ### Two calls -/

private def ofText (text : String) : WindowMember := ⟨0, text, ⟨.finite 0, text⟩⟩

private def oneMember : SlidingWindow := SortedSet.empty.zadd (ofText "c")

private def twoMembers (b : Bool) : WindowMember := ofText (if b then "b" else "a")

private theorem twoMembers_fresh : WindowCalls.FreshMembers oneMember twoMembers where
  new := by decide +kernel
  distinct := by decide +kernel

private def unshrunk (b : Bool) (s : WindowCalls Bool) : Bool :=
  match s.call b with
  | .counted n => n ≤ s.window.zcard
  | _ => true

private theorem unshrunk_sound (b : Bool) (s s' : WindowCalls Bool) (hcheck : unshrunk b s = true)
    (hstep : WindowCalls.step 1 twoMembers b s = some s') : WindowCalls.Unshrunk s s' := by
  intro c n hc hreturned
  by_cases hcb : c = b
  · subst hcb
    simpa [unshrunk, hc] using hcheck
  · have hsame : s'.call c = s.call c := by
      rcases WindowCalls.step_cases hstep with ⟨-, rfl⟩ | ⟨-, -, rfl⟩ | ⟨-, -, rfl⟩ | ⟨n, -, rfl⟩ <;>
        simp [WindowCalls.goTo, hcb]
    rw [hsame, hc] at hreturned
    cases hreturned

private def allReturned (s : WindowCalls Bool) : Bool := s.call true = .returned ∧ s.call false = .returned

theorem window_full_after_two_calls : ∃ s : WindowCalls Bool,
    Run (Where WindowCalls.Unshrunk (WindowCalls.Step 1 twoMembers)) (.start oneMember) s ∧
    s.window.zcard = min 1 (oneMember.zcard + ({true, false} : Finset Bool).card) := by
  have hreplay : (execute (fun b s => if unshrunk b s then WindowCalls.step 1 twoMembers b s else none)
      [true, true, true, false, false, false] (.start oneMember)).any allReturned = true := by decide +kernel
  obtain ⟨s, run, hs⟩ := exists_run_where (WindowCalls.step_legal _) unshrunk unshrunk_sound hreplay
  refine ⟨s, run, window_full_after_calls (by decide +kernel) twoMembers_fresh run {true, false} ?_⟩
  simp only [allReturned, decide_eq_true_eq] at hs
  intro b
  cases b <;> simp [hs]

/-- Both calls count three members of a window for one, and each removes two. -/
theorem concurrent_calls_empty_the_window : ∃ s : WindowCalls Bool,
    Run (WindowCalls.Step 1 twoMembers) (.start oneMember) s ∧ (∀ b, s.call b = .returned) ∧
    s.window.zcard = 0 ∧ oneMember.zcard = 1 := by
  have hreplay : (execute (WindowCalls.step 1 twoMembers) [true, false, true, false, true, false]
      (.start oneMember)).any (fun s => allReturned s ∧ s.window.zcard = 0) = true := by decide +kernel
  obtain ⟨s, run, hs⟩ := exists_run_of_execute (WindowCalls.step_legal _) hreplay
  simp only [allReturned, decide_eq_true_eq] at hs
  refine ⟨s, run, fun b => ?_, hs.2, by decide +kernel⟩
  cases b <;> simp [hs.1]

end BackendProjects.Anomaly
