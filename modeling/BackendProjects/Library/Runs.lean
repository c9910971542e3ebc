import Mathlib.Logic.Relation
import Mathlib.Order.WellFounded
import Mathlib.Tactic.Common

/-! Runs of a transition system: invariants, runs whose steps meet a condition,
termination by a measure, simulations, and runs replayed from a schedule. -/
namespace BackendProjects.Library
open Relation
variable {S T K : Type*}

abbrev Run (Step : S → S → Prop) : S → S → Prop := ReflTransGen Step

def Terminal (Step : S → S → Prop) (s : S) : Prop := ∀ t, ¬ Step s t

/-- The steps of a system that meet a condition on the state before the step and the step taken. -/
def Where (C Step : S → S → Prop) (s t : S) : Prop := C s t ∧ Step s t

/-- What holds at the start and is kept by every step holds after every run. -/
theorem Run.invariant {Step : S → S → Prop} {Inv : S → Prop}
    (step : ∀ s t, Inv s → Step s t → Inv t) {s t : S} (run : Run Step s t) (h : Inv s) : Inv t := by
  induction run with
  | refl => exact h
  | tail _ last ih => exact step _ _ ih last

/-- Steps may be weakened along a whole run. -/
theorem Run.weaken {Step Step' : S → S → Prop} (h : ∀ s t, Step s t → Step' s t) {s t : S}
    (run : Run Step s t) : Run Step' s t := by
  induction run with
  | refl => exact .refl
  | tail _ last ih => exact ih.tail (h _ _ last)

theorem Run.of_where {C Step : S → S → Prop} {s t : S} (run : Run (Where C Step) s t) :
    Run Step s t := run.weaken (fun _ _ h => h.2)

/-- No infinite run starts here. -/
def Halts (Step : S → S → Prop) (s : S) : Prop := Acc (fun t s => Step s t) s

/-- A measure that every step from a good state lowers bounds the runs from it. -/
theorem halts_of_measure {α : Type*} [LT α] [WellFoundedLT α] {Step : S → S → Prop} {Inv : S → Prop}
    (m : S → α) (keep : ∀ s t, Inv s → Step s t → Inv t) (lower : ∀ s t, Inv s → Step s t → m t < m s)
    {s : S} (h : Inv s) : Halts Step s := by
  generalize hn : m s = n
  induction n using WellFoundedLT.induction generalizing s with
  | ind n ih =>
    refine Acc.intro s fun t ht => ih (m t) ?_ (keep s t h ht) rfl
    rw [← hn]
    exact lower s t h ht

/-- A system without infinite runs reaches a terminal state. -/
theorem Halts.exists_terminal {Step : S → S → Prop} {s : S} (h : Halts Step s) :
    ∃ t, Run Step s t ∧ Terminal Step t := by
  induction h with
  | intro s _ ih =>
    by_cases hs : Terminal Step s
    · exact ⟨s, .refl, hs⟩
    · simp only [Terminal, not_forall, not_not] at hs
      obtain ⟨t, ht⟩ := hs
      obtain ⟨u, hu, hterm⟩ := ih t ht
      exact ⟨u, ReflTransGen.head ht hu, hterm⟩

/-- A simulation follows every concrete step by an abstract run. -/
def Simulates (StepS : S → S → Prop) (StepT : T → T → Prop) (R : S → T → Prop) : Prop :=
  ∀ s t s', R s t → StepS s s' → ∃ t', Run StepT t t' ∧ R s' t'

theorem Simulates.run {StepS : S → S → Prop} {StepT : T → T → Prop} {R : S → T → Prop}
    (sim : Simulates StepS StepT R) {s s' : S} {t : T} (h : R s t) (run : Run StepS s s') :
    ∃ t', Run StepT t t' ∧ R s' t' := by
  induction run with
  | refl => exact ⟨t, .refl, h⟩
  | tail _ last ih =>
    obtain ⟨u, hu, hr⟩ := ih
    obtain ⟨v, hv, hr'⟩ := sim _ _ _ hr last
    exact ⟨v, hu.trans hv, hr'⟩

/-- Replay a schedule; it stops at the first choice that is not enabled. -/
def execute (step : K → S → Option S) : List K → S → Option S
  | [], s => some s
  | k :: rest, s => (step k s).bind (execute step rest)

/-- A replayed schedule is a run when every choice it makes is a legal one. -/
theorem run_of_execute {step : K → S → Option S} {Step : S → S → Prop} {ks : List K}
    (legal : ∀ k ∈ ks, ∀ s t, step k s = some t → Step s t) {s t : S}
    (h : execute step ks s = some t) : Run Step s t := by
  induction ks generalizing s with
  | nil =>
    cases h
    exact .refl
  | cons k rest ih =>
    obtain ⟨u, hu, ht⟩ := Option.bind_eq_some_iff.mp h
    exact ReflTransGen.head (legal k List.mem_cons_self s u hu)
      (ih (fun k hk => legal k (List.mem_cons_of_mem _ hk)) ht)

/-- What a replay shows of its last state is shown of a state that a run reaches. -/
theorem exists_run_of_execute {step : K → S → Option S} {Step : S → S → Prop} {ks : List K}
    (legal : ∀ k ∈ ks, ∀ s t, step k s = some t → Step s t) {s : S} {P : S → Bool}
    (h : (execute step ks s).any P = true) : ∃ t, Run Step s t ∧ P t = true := by
  obtain ⟨t, ht, hp⟩ := (Option.any_eq_true P _).mp h
  exact ⟨t, run_of_execute legal ht, hp⟩

/-- A schedule replayed with a check before every step is a run whose steps meet the condition
that the check stands for. -/
theorem exists_run_where {step : K → S → Option S} {C Step : S → S → Prop} {ks : List K}
    (legal : ∀ k ∈ ks, ∀ s t, step k s = some t → Step s t) (check : K → S → Bool)
    (sound : ∀ k s t, check k s = true → step k s = some t → C s t) {s : S} {P : S → Bool}
    (h : (execute (fun k s => if check k s then step k s else none) ks s).any P = true) :
    ∃ t, Run (Where C Step) s t ∧ P t = true := by
  refine exists_run_of_execute (fun k hk s t hstep => ?_) h
  split at hstep
  · next hc => exact ⟨sound k s t hc hstep, legal k hk s t hstep⟩
  · cases hstep

end BackendProjects.Library
