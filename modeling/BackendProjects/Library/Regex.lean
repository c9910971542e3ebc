import Mathlib.Tactic.Common

/-! Backtracking matches of patterns over classes of characters: the ways to match at the start
of a text, in the order in which they are tried, and the replacement of all matches. -/
namespace BackendProjects.Library
variable {α : Type*}

/-- Repetition is of one class; `greedy` prefers the longest stretch of it, `lazy` the shortest. -/
inductive Pattern (α : Type*) where
  | one (p : α → Bool)
  | greedy (p : α → Bool)
  | lazy (p : α → Bool)
  | seq (a b : Pattern α)
  | group (a : Pattern α)

/-- What a match takes off the text, what its groups have caught, and what it leaves. -/
structure Match (α : Type*) where
  taken : List α
  groups : List (List α)
  rest : List α

def Match.andThen (m n : Match α) : Match α := ⟨m.taken ++ n.taken, m.groups ++ n.groups, n.rest⟩

/-- The stretches of a class at the start of a text, with what follows, the shortest one first. -/
def stretches (p : α → Bool) : List α → List (Match α)
  | [] => [⟨[], [], []⟩]
  | c :: s =>
      ⟨[], [], c :: s⟩ ::
        if p c then (stretches p s).map (fun m => ⟨c :: m.taken, m.groups, m.rest⟩) else []

namespace Pattern

/-- All matches at the start of a text, in the order of preference. -/
def ways : Pattern α → List α → List (Match α)
  | one p, c :: s => if p c then [⟨[c], [], s⟩] else []
  | one _, [] => []
  | greedy p, s => (stretches p s).reverse
  | lazy p, s => stretches p s
  | seq a b, s => (a.ways s).flatMap (fun m => (b.ways m.rest).map m.andThen)
  | group a, s => (a.ways s).map (fun m => { m with groups := m.taken :: m.groups })

def first (r : Pattern α) (s : List α) : Option (Match α) := (r.ways s).head?

def subFrom (r : Pattern α) (repl : Match α → List α) : Nat → List α → List α
  | _, [] => []
  | skip + 1, _ :: s => subFrom r repl skip s
  | 0, c :: s =>
      match r.first (c :: s) with
      | some m => repl m ++ subFrom r repl (m.taken.length - 1) s
      | none => c :: subFrom r repl 0 s

/-- Replace the matches from left to right, of a pattern that takes something wherever it matches.
What has been put in is not looked at again. -/
def sub (r : Pattern α) (repl : Match α → List α) (s : List α) : List α := r.subFrom repl 0 s

end Pattern

/-! ### Stretches -/

theorem mem_stretches {p : α → Bool} {s : List α} {m : Match α} (h : m ∈ stretches p s) :
    m.taken ++ m.rest = s ∧ ∀ c ∈ m.taken, p c = true := by
  induction s generalizing m with
  | nil =>
    obtain rfl := List.mem_singleton.mp h
    exact ⟨rfl, by simp⟩
  | cons c s ih =>
    rcases List.mem_cons.mp h with rfl | h
    · exact ⟨rfl, by simp⟩
    · split at h
      · next hc =>
        obtain ⟨n, hn, rfl⟩ := List.mem_map.mp h
        obtain ⟨happend, hall⟩ := ih hn
        refine ⟨congrArg (c :: ·) happend, fun d hd => ?_⟩
        rcases List.mem_cons.mp hd with rfl | hd
        · exact hc
        · exact hall d hd
      · exact absurd h List.not_mem_nil

/-- The longest stretch ends where the class does. -/
theorem getLast?_stretches {p : α → Bool} {t u : List α} (ht : ∀ c ∈ t, p c = true)
    (hu : ∀ c, u.head? = some c → p c = false) :
    (stretches p (t ++ u)).getLast? = some ⟨t, [], u⟩ := by
  induction t with
  | nil =>
    cases u with
    | nil => rfl
    | cons c u => simp [stretches, hu c rfl]
  | cons c t ih =>
    have hlast := ih (fun d hd => ht d (List.mem_cons_of_mem _ hd))
    simp [stretches, ht c List.mem_cons_self, List.getLast?_cons, hlast]

/-- The first stretch that something can be made of, if nothing can be made of the shorter ones. -/
theorem findSome?_stretches {β : Type*} {p : α → Bool} {t u : List α} (ht : ∀ c ∈ t, p c = true)
    {f : Match α → Option β} {x : β} (hx : f ⟨t, [], u⟩ = some x)
    (hnone : ∀ t' u', t = t' ++ u' → u' ≠ [] → f ⟨t', [], u' ++ u⟩ = none) :
    (stretches p (t ++ u)).findSome? f = some x := by
  induction t generalizing f with
  | nil => cases u <;> simp [stretches, hx]
  | cons c t ih =>
    have hempty : f ⟨[], [], c :: (t ++ u)⟩ = none := hnone [] (c :: t) rfl (by simp)
    have hrest := ih (f := fun m => f ⟨c :: m.taken, m.groups, m.rest⟩)
      (fun d hd => ht d (List.mem_cons_of_mem _ hd)) hx
      (fun t' u' heq hne => hnone (c :: t') u' (congrArg (c :: ·) heq) hne)
    simpa [stretches, hempty, ht c List.mem_cons_self, List.findSome?_map, Function.comp_def] using hrest

namespace Pattern
variable {p : α → Bool} {a b r : Pattern α} {c : α} {s t u : List α} {m n : Match α}

/-! ### The first match -/

theorem first_one (h : p c = true) : (one p).first (c :: s) = some ⟨[c], [], s⟩ := by
  simp [first, ways, h]

private theorem first_seq : (seq a b).first s =
    (a.ways s).findSome? (fun m => (b.first m.rest).map m.andThen) := by
  rw [first, ways, List.head?_flatMap]
  simp only [List.head?_map]
  rfl

/-- Where the first way leads on, no other way is tried. -/
theorem first_seq_of_first (ha : a.first s = some m) (hb : b.first m.rest = some n) :
    (seq a b).first s = some (m.andThen n) := by
  obtain ⟨others, hways⟩ := List.head?_eq_some_iff.mp ha
  rw [first_seq, hways, List.findSome?_cons, hb]
  rfl

theorem first_seq_none (h : ∀ m ∈ a.ways s, b.first m.rest = none) : (seq a b).first s = none := by
  rw [first_seq, List.findSome?_eq_none_iff]
  intro m hm
  rw [h m hm]
  rfl

theorem first_seq_none_of_first (h : a.ways s = []) : (seq a b).first s = none :=
  first_seq_none (fun _ hm => absurd (h ▸ hm) List.not_mem_nil)

/-- A greedy repetition comes first to the whole stretch. -/
theorem first_greedy (ht : ∀ c ∈ t, p c = true) (hu : ∀ c, u.head? = some c → p c = false) :
    (greedy p).first (t ++ u) = some ⟨t, [], u⟩ := by
  rw [first, ways, List.head?_reverse]
  exact getLast?_stretches ht hu

/-- A lazy repetition, caught by a group after its first character, ends where what follows
matches for the first time. -/
theorem first_group_lazy (hc : p c = true) (ht : ∀ d ∈ t, p d = true) (hb : b.first u = some n)
    (hnone : ∀ t' u', t = t' ++ u' → u' ≠ [] → b.first (u' ++ u) = none) :
    (seq (group (seq (one p) (lazy p))) b).first (c :: (t ++ u)) =
      some ⟨c :: t ++ n.taken, (c :: t) :: n.groups, n.rest⟩ := by
  have hways : (group (seq (one p) (lazy p))).ways (c :: (t ++ u)) = (stretches p (t ++ u)).map
      (fun m => ⟨c :: m.taken, (c :: m.taken) :: m.groups, m.rest⟩) := by
    simp [ways, hc, Match.andThen, Function.comp_def]
  rw [first_seq, hways, List.findSome?_map]
  refine findSome?_stretches ht ?_ (fun t' u' heq hne => ?_)
  · simp [hb, Match.andThen]
  · simp [hnone t' u' heq hne]

/-- A match takes the front of the text. -/
theorem taken_append_rest (h : m ∈ r.ways s) : m.taken ++ m.rest = s := by
  induction r generalizing s m with
  | one p =>
    cases s with
    | nil => exact absurd h List.not_mem_nil
    | cons c s =>
      rw [ways] at h
      split at h
      · obtain rfl := List.mem_singleton.mp h
        rfl
      · exact absurd h List.not_mem_nil
  | greedy p => exact (mem_stretches (List.mem_reverse.mp h)).1
  | lazy p => exact (mem_stretches h).1
  | seq a b iha ihb =>
    obtain ⟨m₁, h₁, hmap⟩ := List.mem_flatMap.mp h
    obtain ⟨m₂, h₂, rfl⟩ := List.mem_map.mp hmap
    calc (m₁.taken ++ m₂.taken) ++ m₂.rest = m₁.taken ++ (m₂.taken ++ m₂.rest) := List.append_assoc ..
      _ = m₁.taken ++ m₁.rest := by rw [ihb h₂]
      _ = s := iha h₁
  | group a ih =>
    obtain ⟨m₁, h₁, rfl⟩ := List.mem_map.mp h
    have hsame : m₁.taken ++ m₁.rest = s := ih h₁
    exact hsame

/-! ### The replacement of all matches -/

variable {repl : Match α → List α}

private theorem subFrom_length (t u : List α) : r.subFrom repl t.length (t ++ u) = r.sub repl u := by
  induction t with
  | nil => rfl
  | cons c t ih => exact ih

/-- A character at which no match starts stays. -/
theorem sub_cons_of_none (h : r.first (c :: s) = none) : r.sub repl (c :: s) = c :: r.sub repl s := by
  rw [sub, subFrom, h]
  rfl

/-- A match is replaced, and the replacement goes on behind it. -/
theorem sub_of_first (h : r.first s = some m) (hm : m.taken ≠ []) :
    r.sub repl s = repl m ++ r.sub repl m.rest := by
  have hs : m.taken ++ m.rest = s := taken_append_rest (List.mem_of_head? h)
  obtain ⟨c, t, htaken⟩ := List.exists_cons_of_ne_nil hm
  rw [htaken] at hs
  subst hs
  rw [sub, List.cons_append, subFrom, show r.first (c :: (t ++ m.rest)) = some m from h]
  simp only [htaken, List.length_cons, Nat.add_sub_cancel]
  rw [subFrom_length]

/-- A stretch of text in which no match starts stays. -/
theorem sub_append_of_none (h : ∀ c ∈ t, ∀ s, r.first (c :: s) = none) :
    r.sub repl (t ++ s) = t ++ r.sub repl s := by
  induction t with
  | nil => rfl
  | cons c t ih =>
    rw [List.cons_append, sub_cons_of_none (h c List.mem_cons_self _),
      ih (fun d hd => h d (List.mem_cons_of_mem _ hd))]
    rfl

end Pattern

end BackendProjects.Library
