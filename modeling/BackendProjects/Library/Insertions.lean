import Mathlib.Data.List.Nodup
import Mathlib.Tactic.Common

/-! Sessions that insert rows into one table. What a session has inserted is seen by it alone until it commits,
and a unique key is checked against the rows of all sessions. -/
namespace BackendProjects.Library

/-- A join on a unique key finds the row with the key, if it meets the other conditions. -/
theorem filter_unique_key {R K : Type*} [DecidableEq K] {key : R → K} {rows : List R} {row : R} (p : R → Bool)
    (h : (rows.map key).Nodup) (hrow : row ∈ rows) :
    rows.filter (fun other => decide (key other = key row) && p other) = if p row then [row] else [] := by
  induction rows with
  | nil => exact absurd hrow List.not_mem_nil
  | cons other rows ih =>
    rw [List.map_cons, List.nodup_cons] at h
    rcases List.mem_cons.mp hrow with rfl | hin
    · have hnone : rows.filter (fun other => decide (key other = key row) && p other) = [] := by
        rw [List.filter_eq_nil_iff]
        intro other hother hkey
        rw [Bool.and_eq_true, decide_eq_true_eq] at hkey
        exact h.1 (hkey.1 ▸ List.mem_map_of_mem hother)
      rw [List.filter_cons, hnone]
      simp
    · have hne : key other ≠ key row := fun heq => h.1 (heq ▸ List.mem_map_of_mem hin)
      rw [List.filter_cons, ih h.2 hin]
      simp [hne]

/-- The committed rows of a table, and those that each session has inserted since. -/
structure Insertions (S R : Type*) where
  committed : List R
  pending : S → List R

namespace Insertions
variable {S R K : Type*} [DecidableEq S]

section Operations
variable (t : Insertions S R) (s : S)

def empty : Insertions S R := ⟨[], fun _ => []⟩

def visible : List R := t.committed ++ t.pending s

def insert (row : R) : Insertions S R :=
  { t with pending := Function.update t.pending s (t.pending s ++ [row]) }

def commit : Insertions S R := ⟨t.committed ++ t.pending s, Function.update t.pending s []⟩

def rollback : Insertions S R := { t with pending := Function.update t.pending s [] }

/-- No session has a row with this key, be it committed or not. -/
def Free (key : R → K) (k : K) : Prop :=
  (∀ row ∈ t.committed, key row ≠ k) ∧ ∀ s, ∀ row ∈ t.pending s, key row ≠ k

/-- Every session sees each key at most once, and no two sessions have inserted the same one. -/
structure UniqueKey (key : R → K) : Prop where
  visible : ∀ s, ((t.visible s).map key).Nodup
  apart : ∀ s s', s ≠ s' → ∀ row ∈ t.pending s, ∀ row' ∈ t.pending s', key row ≠ key row'

end Operations

variable {t : Insertions S R} {s s' : S} {key : R → K} {row : R}

/-- Where no other session has inserted anything, a key is free that a session does not see. -/
theorem Free.of_alone {k : K} (halone : ∀ u ≠ s, t.pending u = []) (h : ∀ row ∈ t.visible s, key row ≠ k) :
    t.Free key k where
  left := fun row hrow => h row (List.mem_append_left _ hrow)
  right := by
    intro u row hrow
    by_cases hu : u = s
    · subst hu
      exact h row (List.mem_append_right _ hrow)
    · rw [halone u hu] at hrow
      cases hrow

@[simp] theorem insert_committed : (t.insert s row).committed = t.committed := rfl
@[simp] theorem rollback_committed : (t.rollback s).committed = t.committed := rfl
@[simp] theorem insert_visible : (t.insert s row).visible s = t.visible s ++ [row] := by
  simp [visible, insert]

theorem insert_visible_of_ne (h : s' ≠ s) : (t.insert s row).visible s' = t.visible s' := by
  simp [visible, insert, h]

@[simp] theorem commit_committed : (t.commit s).committed = t.visible s := rfl

/-- The rows that a session sees stay visible to it when another one commits. -/
theorem visible_subset_commit (h : s' ≠ s) : t.visible s' ⊆ (t.commit s).visible s' := by
  intro row hrow
  simp only [visible, commit, Function.update_of_ne h, List.mem_append] at hrow ⊢
  tauto

theorem rollback_visible_of_ne (h : s' ≠ s) : (t.rollback s).visible s' = t.visible s' := by
  simp [visible, rollback, h]

namespace UniqueKey

omit [DecidableEq S] in
theorem empty : (Insertions.empty : Insertions S R).UniqueKey key where
  visible := fun _ => List.nodup_nil
  apart := fun _ _ _ _ h => absurd h List.not_mem_nil

variable (h : t.UniqueKey key)
include h

omit [DecidableEq S] in
theorem committed (s : S) : (t.committed.map key).Nodup :=
  (h.visible s).sublist ((List.sublist_append_left _ _).map key)

theorem insert (hfree : t.Free key (key row)) : (t.insert s row).UniqueKey key where
  visible := by
    intro u
    by_cases hu : u = s
    · subst hu
      rw [insert_visible, List.map_append, List.nodup_append]
      refine ⟨h.visible u, List.nodup_singleton _, ?_⟩
      simp only [List.map_cons, List.map_nil, List.mem_singleton, List.mem_map]
      rintro _ ⟨other, hother, rfl⟩ _ rfl
      exact (List.mem_append.mp hother).elim (hfree.1 other) (hfree.2 u other)
    · rw [insert_visible_of_ne hu]
      exact h.visible u
  apart := by
    have hnew (u u' : S) (hne : u ≠ u') (a : R) (ha : a ∈ t.pending u ∨ u = s ∧ a = row) (b : R)
        (hb : b ∈ t.pending u' ∨ u' = s ∧ b = row) : key a ≠ key b := by
      rcases ha with ha | ⟨rfl, rfl⟩
      · rcases hb with hb | ⟨rfl, rfl⟩
        · exact h.apart u u' hne a ha b hb
        · exact hfree.2 u a ha
      · rcases hb with hb | ⟨rfl, rfl⟩
        · exact (hfree.2 u' b hb).symm
        · exact absurd rfl hne
    have hmem {u : S} {a : R} (ha : a ∈ (t.insert s row).pending u) : a ∈ t.pending u ∨ u = s ∧ a = row := by
      by_cases hu : u = s
      · subst hu
        simpa [Insertions.insert] using ha
      · exact Or.inl (by simpa [Insertions.insert, hu] using ha)
    exact fun u u' hne a ha b hb => hnew u u' hne a (hmem ha) b (hmem hb)

theorem rollback : (t.rollback s).UniqueKey key where
  visible := by
    intro u
    by_cases hu : u = s
    · subst hu
      simpa [Insertions.visible, Insertions.rollback] using h.committed u
    · rw [rollback_visible_of_ne hu]
      exact h.visible u
  apart := by
    have hmem {u : S} {a : R} (ha : a ∈ (t.rollback s).pending u) : a ∈ t.pending u := by
      by_cases hu : u = s
      · simp [Insertions.rollback, hu] at ha
      · simpa [Insertions.rollback, hu] using ha
    exact fun u u' hne a ha b hb => h.apart u u' hne a (hmem ha) b (hmem hb)

theorem commit : (t.commit s).UniqueKey key where
  visible := by
    intro u
    by_cases hu : u = s
    · subst hu
      simpa [Insertions.visible, Insertions.commit] using h.visible u
    · have hu' := h.visible u
      have hs := h.visible s
      simp only [Insertions.visible, Insertions.commit, Function.update_of_ne hu, List.map_append,
        List.nodup_append, List.mem_append, List.mem_map] at hu' hs ⊢
      refine ⟨hs, hu'.2.1, ?_⟩
      rintro _ (⟨a, ha, rfl⟩ | ⟨a, ha, rfl⟩) _ ⟨b, hb, rfl⟩
      · exact hu'.2.2 _ ⟨a, ha, rfl⟩ _ ⟨b, hb, rfl⟩
      · exact h.apart s u (Ne.symm hu) a ha b hb
  apart := by
    have hmem {u : S} {a : R} (ha : a ∈ (t.commit s).pending u) : a ∈ t.pending u := by
      by_cases hu : u = s
      · simp [Insertions.commit, hu] at ha
      · simpa [Insertions.commit, hu] using ha
    exact fun u u' hne a ha b hb => h.apart u u' hne a (hmem ha) b (hmem hb)

end UniqueKey

end Insertions

end BackendProjects.Library
