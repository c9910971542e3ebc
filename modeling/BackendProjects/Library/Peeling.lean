import Mathlib.Data.List.Count
import Mathlib.Data.List.Perm.Basic
import Mathlib.Data.List.Nodup
import Mathlib.Data.Set.Insert
import Mathlib.Data.Finset.Card
import Mathlib.Data.Fintype.EquivFin
import Mathlib.Data.Fintype.Sets
import Mathlib.Logic.Relation
import Mathlib.Order.WellFounded
import Mathlib.Tactic.Common

/-! Finite directed graphs as insertion-ordered lists, and Kahn's level-by-level peeling.
The peeling works on in-degree counts; its specification speaks of sets of settled nodes. -/
namespace BackendProjects.Library

/-- A finite directed graph: distinct nodes and distinct edges, both in insertion order. -/
structure FiniteDigraph (V : Type) where
  nodes : List V
  edges : List (V × V)
  nodes_nodup : nodes.Nodup
  edges_nodup : edges.Nodup
  source_mem : ∀ e ∈ edges, e.1 ∈ nodes
  target_mem : ∀ e ∈ edges, e.2 ∈ nodes

namespace FiniteDigraph
variable {V : Type} [DecidableEq V] (g : FiniteDigraph V)

def empty : FiniteDigraph V := ⟨[], [], by simp, by simp, by simp, by simp⟩

def addNode (v : V) : FiniteDigraph V :=
  if h : v ∈ g.nodes then g else
    { g with
      nodes := g.nodes ++ [v]
      nodes_nodup := by
        rw [List.nodup_append]
        refine ⟨g.nodes_nodup, List.nodup_singleton v, ?_⟩
        rintro a ha b hb rfl
        exact h (List.mem_singleton.mp hb ▸ ha)
      source_mem := fun e he => List.mem_append_left _ (g.source_mem e he)
      target_mem := fun e he => List.mem_append_left _ (g.target_mem e he) }

def addEdge (u v : V) (hu : u ∈ g.nodes) (hv : v ∈ g.nodes) : FiniteDigraph V :=
  if h : (u, v) ∈ g.edges then g else
    { g with
      edges := g.edges ++ [(u, v)]
      edges_nodup := by
        rw [List.nodup_append]
        refine ⟨g.edges_nodup, List.nodup_singleton _, ?_⟩
        rintro a ha b hb rfl
        exact h (List.mem_singleton.mp hb ▸ ha)
      source_mem := by
        intro e he
        rcases List.mem_append.mp he with he | he
        · exact g.source_mem e he
        · cases List.mem_singleton.mp he
          exact hu
      target_mem := by
        intro e he
        rcases List.mem_append.mp he with he | he
        · exact g.target_mem e he
        · cases List.mem_singleton.mp he
          exact hv }

def predecessors (v : V) : List V := (g.edges.filter (fun e => e.2 = v)).map Prod.fst
def successors (u : V) : List V := (g.edges.filter (fun e => e.1 = u)).map Prod.snd
def inDegree (v : V) : Nat := (g.predecessors v).length

@[simp] theorem addNode_nodes (v : V) :
    (g.addNode v).nodes = if v ∈ g.nodes then g.nodes else g.nodes ++ [v] := by
  unfold addNode
  split <;> rfl

@[simp] theorem addEdge_nodes (u v : V) (hu : u ∈ g.nodes) (hv : v ∈ g.nodes) :
    (g.addEdge u v hu hv).nodes = g.nodes := by
  unfold addEdge
  split <;> rfl

@[simp] theorem mem_addEdge (u v : V) (hu : u ∈ g.nodes) (hv : v ∈ g.nodes) (e : V × V) :
    e ∈ (g.addEdge u v hu hv).edges ↔ e ∈ g.edges ∨ e = (u, v) := by
  unfold addEdge
  split
  · next h => exact ⟨Or.inl, fun he => he.elim id (fun he => he ▸ h)⟩
  · simp

@[simp] theorem mem_predecessors {u v : V} : u ∈ g.predecessors v ↔ (u, v) ∈ g.edges := by
  simp [predecessors]

@[simp] theorem mem_successors {u v : V} : v ∈ g.successors u ↔ (u, v) ∈ g.edges := by
  simp [successors]

private theorem predecessors_subset {u v : V} (h : u ∈ g.predecessors v) : u ∈ g.nodes :=
  g.source_mem (u, v) (g.mem_predecessors.mp h)

theorem predecessors_nodup (v : V) : (g.predecessors v).Nodup := by
  apply (g.edges_nodup.filter _).map_on
  rintro ⟨a, b⟩ ha ⟨c, d⟩ hc rfl
  simp only [List.mem_filter, decide_eq_true_eq] at ha hc
  rw [ha.2, hc.2]

theorem successors_nodup (u : V) : (g.successors u).Nodup := by
  apply (g.edges_nodup.filter _).map_on
  rintro ⟨a, b⟩ ha ⟨c, d⟩ hc rfl
  simp only [List.mem_filter, decide_eq_true_eq] at ha hc
  rw [ha.2, hc.2]

theorem inDegree_eq_zero {v : V} : g.inDegree v = 0 ↔ ∀ u, (u, v) ∉ g.edges := by
  simp only [inDegree, List.length_eq_zero_iff, List.eq_nil_iff_forall_not_mem, mem_predecessors]

def Ready (C : Set V) (v : V) : Prop := v ∈ g.nodes ∧ v ∉ C ∧ ∀ u ∈ g.predecessors v, u ∈ C

/-- The generations that settling everything ready, again and again, produces from C. -/
def Waves (C : Set V) : List (List V) → Prop
  | [] => ∀ v, ¬ g.Ready C v
  | gen :: rest => gen ≠ [] ∧ gen.Nodup ∧ (∀ v, v ∈ gen ↔ g.Ready C v) ∧
      Waves (C ∪ {v | v ∈ gen}) rest

/-- Lower one child's count; a count that reaches zero puts the child in the next generation. -/
def peelChild (st : (V → Nat) × List V) (child : V) : (V → Nat) × List V :=
  let d := st.1 child - 1
  (Function.update st.1 child d, if d = 0 then st.2 ++ [child] else st.2)

def peelGeneration (indegree : V → Nat) (gen : List V) : (V → Nat) × List V :=
  (gen.flatMap g.successors).foldl peelChild (indegree, [])

/-- Kahn's loop: the generations and the in-degree counts that are left over. -/
def peelFrom : Nat → (V → Nat) → List V → List (List V) × (V → Nat)
  | 0, indegree, _ => ([], indegree)
  | _ + 1, indegree, [] => ([], indegree)
  | fuel + 1, indegree, v :: gen =>
      let next := g.peelGeneration indegree (v :: gen)
      let rest := peelFrom fuel next.1 next.2
      ((v :: gen) :: rest.1, rest.2)

def peel : List (List V) × (V → Nat) :=
  g.peelFrom (g.nodes.length + 1) g.inDegree (g.nodes.filter (fun v => g.inDegree v = 0))

def topologicalGenerations : List (List V) := g.peel.1

/-- The peeling consumed every count: this is how acyclicity is decided. -/
def isDirectedAcyclicGraph : Bool := g.nodes.all (fun v => g.peel.2 v = 0)

/-! ### One generation -/

private theorem foldl_peelChild (children : List V) (f : V → Nat) (acc : List V)
    (h : ∀ v, children.count v ≤ f v) :
    (∀ v, (children.foldl peelChild (f, acc)).1 v = f v - children.count v) ∧
    (∀ v, v ∈ (children.foldl peelChild (f, acc)).2 ↔
      v ∈ acc ∨ (0 < f v ∧ f v = children.count v)) := by
  induction children generalizing f acc with
  | nil =>
    refine ⟨fun v => by simp, fun v => ⟨Or.inl, ?_⟩⟩
    rintro (h1 | ⟨h1, h2⟩)
    · exact h1
    · rw [List.count_nil] at h2
      omega
  | cons c rest ih =>
    have hc := h c
    rw [List.count_cons_self] at hc
    have hrest : ∀ v, rest.count v ≤ (Function.update f c (f c - 1)) v := by
      intro v
      by_cases hv : v = c
      · subst hv
        rw [Function.update_self]
        omega
      · rw [Function.update_of_ne hv]
        simpa [List.count_cons, Ne.symm hv] using h v
    obtain ⟨hcount, hmem⟩ := ih _ (if f c - 1 = 0 then acc ++ [c] else acc) hrest
    refine ⟨fun v => ?_, fun v => ?_⟩
    · rw [List.foldl_cons, peelChild, hcount]
      by_cases hv : v = c
      · subst hv
        rw [Function.update_self, List.count_cons_self]
        omega
      · rw [Function.update_of_ne hv]
        simp [Ne.symm hv]
    · rw [List.foldl_cons, peelChild, hmem]
      by_cases hv : v = c
      · subst hv
        rw [Function.update_self, List.count_cons_self]
        have hr := hrest v
        rw [Function.update_self] at hr
        split
        · simp only [List.mem_append, List.mem_singleton, or_true, true_or, true_iff]
          right
          omega
        · constructor
          · rintro (h1 | h1)
            · exact Or.inl h1
            · exact Or.inr (by omega)
          · rintro (h1 | h1)
            · exact Or.inl h1
            · exact Or.inr (by omega)
      · rw [Function.update_of_ne hv]
        have hnot : v ∈ (if f c - 1 = 0 then acc ++ [c] else acc) ↔ v ∈ acc := by
          split <;> simp [hv]
        rw [hnot]
        simp [Ne.symm hv]

private theorem foldl_peelChild_nodup (children : List V) (f : V → Nat) (acc : List V)
    (h : ∀ v, children.count v ≤ f v) (hacc : acc.Nodup) (hzero : ∀ v ∈ acc, f v = 0) :
    (children.foldl peelChild (f, acc)).2.Nodup := by
  induction children generalizing f acc with
  | nil => exact hacc
  | cons c rest ih =>
    have hc := h c
    rw [List.count_cons_self] at hc
    change (rest.foldl peelChild (Function.update f c (f c - 1),
      if f c - 1 = 0 then acc ++ [c] else acc)).2.Nodup
    apply ih
    · intro v
      by_cases hv : v = c
      · subst hv
        rw [Function.update_self]
        omega
      · rw [Function.update_of_ne hv]
        simpa [List.count_cons, Ne.symm hv] using h v
    · split
      · rw [List.nodup_append]
        refine ⟨hacc, List.nodup_singleton c, ?_⟩
        rintro a ha b hb rfl
        have := hzero a ha
        cases List.mem_singleton.mp hb
        omega
      · exact hacc
    · intro v hv
      by_cases hvc : v = c
      · subst hvc
        rw [Function.update_self]
        split at hv
        · next hz => exact hz
        · have hz : f v = 0 := hzero v hv
          omega
      · rw [Function.update_of_ne hvc]
        split at hv
        · exact hzero v ((List.mem_append.mp hv).resolve_right (by simpa using hvc))
        · exact hzero v hv

/-- A distinct generation lowers the count of v once for each predecessor of v in it. -/
private theorem count_children {gen : List V} (h : gen.Nodup) (v : V) :
    (gen.flatMap g.successors).count v = ((g.predecessors v).filter (· ∈ gen)).length := by
  have hone (u : V) : (g.successors u).count v = if (u, v) ∈ g.edges then 1 else 0 := by
    rw [(g.successors_nodup u).count]
    simp
  have hsum : (gen.flatMap g.successors).count v = (gen.filter (fun u => (u, v) ∈ g.edges)).length := by
    clear h
    induction gen with
    | nil => rfl
    | cons u rest ih =>
      rw [List.flatMap_cons, List.count_append, hone, ih, List.filter_cons]
      split <;> simp_all [Nat.add_comm]
  rw [hsum]
  apply List.Perm.length_eq
  rw [List.perm_ext_iff_of_nodup (h.filter _) ((g.predecessors_nodup v).filter _)]
  intro u
  simp [and_comm]

/-! ### The whole peeling -/

/-- What Kahn's loop knows once the nodes E have been peeled and gen is the next generation. -/
private structure Peeled (E : List V) (indegree : V → Nat) (gen : List V) : Prop where
  nodup : E.Nodup
  subset : ∀ v ∈ E, v ∈ g.nodes
  closed : ∀ v ∈ E, ∀ u ∈ g.predecessors v, u ∈ E
  counts : ∀ v, indegree v = ((g.predecessors v).filter (· ∉ E)).length
  gen_nodup : gen.Nodup
  gen_ready : ∀ v, v ∈ gen ↔ g.Ready {u | u ∈ E} v

private theorem peeled_start :
    g.Peeled [] g.inDegree (g.nodes.filter (fun v => g.inDegree v = 0)) := by
  refine ⟨List.nodup_nil, by simp, by simp, fun v => by simp [inDegree], g.nodes_nodup.filter _, ?_⟩
  intro v
  rw [List.mem_filter, decide_eq_true_eq, inDegree, List.length_eq_zero_iff,
    List.eq_nil_iff_forall_not_mem]
  simp [Ready]

private theorem length_filter_eq_zero_iff (E : List V) (v : V) :
    ((g.predecessors v).filter (· ∉ E)).length = 0 ↔ ∀ u ∈ g.predecessors v, u ∈ E := by
  simp [List.filter_eq_nil_iff]

variable {g}

private theorem Peeled.split_count {E gen : List V} {indegree : V → Nat} (h : g.Peeled E indegree gen)
    (v : V) : indegree v = ((g.predecessors v).filter (· ∈ gen)).length +
      ((g.predecessors v).filter (· ∉ E ++ gen)).length := by
  have hdisj : ∀ u ∈ gen, u ∉ E := fun u hu => ((h.gen_ready u).mp hu).2.1
  rw [h.counts, ← List.countP_eq_length_filter, ← List.countP_eq_length_filter,
    ← List.countP_eq_length_filter]
  generalize g.predecessors v = ps
  induction ps with
  | nil => rfl
  | cons p rest ih =>
    have hp := hdisj p
    simp only [List.countP_cons, ih, List.mem_append, not_or, decide_eq_true_eq]
    by_cases h1 : p ∈ gen <;> by_cases h2 : p ∈ E <;> simp_all <;> omega

private theorem Peeled.next {E gen : List V} {indegree : V → Nat} (h : g.Peeled E indegree gen) :
    g.Peeled (E ++ gen) (g.peelGeneration indegree gen).1 (g.peelGeneration indegree gen).2 := by
  have hcount (v : V) : (gen.flatMap g.successors).count v =
      ((g.predecessors v).filter (· ∈ gen)).length := g.count_children h.gen_nodup v
  have hle : ∀ v, (gen.flatMap g.successors).count v ≤ indegree v := by
    intro v
    rw [hcount, h.split_count v]
    omega
  obtain ⟨hval, hmem⟩ := foldl_peelChild _ indegree [] hle
  have hready := h.gen_ready
  refine ⟨?_, ?_, ?_, ?_, foldl_peelChild_nodup _ indegree [] hle List.nodup_nil (by simp), ?_⟩
  · rw [List.nodup_append]
    refine ⟨h.nodup, h.gen_nodup, ?_⟩
    rintro a ha b hb rfl
    exact ((hready a).mp hb).2.1 ha
  · intro v hv
    rcases List.mem_append.mp hv with hv | hv
    · exact h.subset v hv
    · exact ((hready v).mp hv).1
  · intro v hv u hu
    rcases List.mem_append.mp hv with hv | hv
    · exact List.mem_append_left _ (h.closed v hv u hu)
    · exact List.mem_append_left _ (((hready v).mp hv).2.2 u hu)
  · intro v
    rw [peelGeneration, hval, hcount, h.split_count v]
    omega
  · intro v
    rw [peelGeneration, hmem, hcount]
    simp only [List.not_mem_nil, false_or]
    have hs := h.split_count v
    constructor
    · rintro ⟨hpos, heq⟩
      have hall := (g.length_filter_eq_zero_iff (E ++ gen) v).mp (by omega)
      obtain ⟨u, hu⟩ := List.exists_mem_of_length_pos (show 0 < ((g.predecessors v).filter (· ∉ E)).length by
        rw [← h.counts]; exact hpos)
      simp only [List.mem_filter, decide_eq_true_eq] at hu
      have hv := g.target_mem _ (g.mem_predecessors.mp hu.1)
      refine ⟨hv, ?_, hall⟩
      intro hin
      rcases List.mem_append.mp hin with hin | hin
      · exact hu.2 (h.closed v hin u hu.1)
      · exact hu.2 (((hready v).mp hin).2.2 u hu.1)
    · rintro ⟨hv, hnot, hall⟩
      have hz := (g.length_filter_eq_zero_iff (E ++ gen) v).mpr hall
      refine ⟨?_, by omega⟩
      by_contra hzero
      have hE := (g.length_filter_eq_zero_iff E v).mp (by rw [← h.counts]; omega)
      exact hnot (List.mem_append_right _ ((hready v).mpr
        ⟨hv, fun hin => hnot (List.mem_append_left _ hin), hE⟩))

private theorem Peeled.run {E gen : List V} {indegree : V → Nat} (h : g.Peeled E indegree gen)
    (fuel : Nat) (hfuel : g.nodes.length < fuel + E.length) :
    g.Waves {v | v ∈ E} (g.peelFrom fuel indegree gen).1 ∧
    ∀ v, (g.peelFrom fuel indegree gen).2 v =
      ((g.predecessors v).filter (· ∉ E ++ (g.peelFrom fuel indegree gen).1.flatten)).length := by
  induction fuel generalizing E indegree gen with
  | zero =>
    have hle : E.length ≤ g.nodes.length :=
      (List.subperm_of_subset h.nodup h.subset).length_le
    omega
  | succ fuel ih =>
    cases gen with
    | nil =>
      refine ⟨fun v hv => by simpa using (h.gen_ready v).mpr hv, fun v => ?_⟩
      simpa [peelFrom] using h.counts v
    | cons w gen =>
      obtain ⟨hwaves, hleft⟩ := ih h.next (by simp only [List.length_append, List.length_cons]; omega)
      refine ⟨⟨by simp, h.gen_nodup, h.gen_ready, ?_⟩, fun v => ?_⟩
      · have hset : {v | v ∈ E ++ w :: gen} = {v | v ∈ E} ∪ {v | v ∈ w :: gen} := by
          ext v
          simp
        rwa [hset] at hwaves
      · simpa [peelFrom] using hleft v

variable (g)

private theorem peel_spec :
    g.Waves ∅ g.topologicalGenerations ∧
    ∀ v, g.peel.2 v = ((g.predecessors v).filter (· ∉ g.topologicalGenerations.flatten)).length := by
  have h := g.peeled_start.run (g.nodes.length + 1) (by simp)
  simpa [topologicalGenerations, peel] using h

/-- The generations are what settling everything ready produces from nothing. -/
theorem topologicalGenerations_waves : g.Waves ∅ g.topologicalGenerations := g.peel_spec.1

variable {g}

theorem Waves.mem_nodes {C : Set V} {gens : List (List V)} (h : g.Waves C gens) {v : V}
    (hv : v ∈ gens.flatten) : v ∈ g.nodes := by
  induction gens generalizing C with
  | nil => simp at hv
  | cons gen rest ih =>
    obtain ⟨_, _, hready, hrest⟩ := h
    rcases List.mem_append.mp (List.flatten_cons ▸ hv) with hv | hv
    · exact ((hready v).mp hv).1
    · exact ih hrest hv

/-- Nothing is ready once all generations are settled. -/
theorem Waves.settled {C : Set V} {gens : List (List V)} (h : g.Waves C gens) (v : V) :
    ¬ g.Ready (C ∪ {u | u ∈ gens.flatten}) v := by
  induction gens generalizing C with
  | nil => simpa using h v
  | cons gen rest ih =>
    obtain ⟨_, _, _, hrest⟩ := h
    have hset : C ∪ {u | u ∈ gen} ∪ {u | u ∈ rest.flatten} = C ∪ {u | u ∈ (gen :: rest).flatten} := by
      ext u
      simp [or_assoc]
    exact hset ▸ ih hrest

/-- An accepted graph peels away completely. -/
theorem mem_generations (h : g.isDirectedAcyclicGraph = true) {v : V} (hv : v ∈ g.nodes) :
    v ∈ g.topologicalGenerations.flatten := by
  have hzero : ∀ u ∈ g.predecessors v, u ∈ g.topologicalGenerations.flatten := by
    have := List.all_eq_true.mp h v hv
    rw [g.peel_spec.2 v, decide_eq_true_eq, length_filter_eq_zero_iff] at this
    exact this
  by_contra hnot
  exact g.topologicalGenerations_waves.settled v
    ⟨hv, by simpa using hnot, fun u hu => by simpa using hzero u hu⟩

/-- Along the generations, a node outside a set has a node outside it whose
predecessors are all inside. -/
private theorem Waves.exists_ready {C D : Set V} {gens : List (List V)} (h : g.Waves C gens)
    (hCD : C ⊆ D) {v : V} (hv : v ∈ gens.flatten) (hvD : v ∉ D) : ∃ w, g.Ready D w := by
  induction gens generalizing C with
  | nil => simp at hv
  | cons gen rest ih =>
    obtain ⟨_, _, hready, hrest⟩ := h
    by_cases hsub : ∀ w ∈ gen, w ∈ D
    · rcases List.mem_append.mp (List.flatten_cons ▸ hv) with hv | hv
      · exact absurd (hsub v hv) hvD
      · exact ih hrest (Set.union_subset hCD hsub) hv
    · push Not at hsub
      obtain ⟨w, hw, hwD⟩ := hsub
      obtain ⟨hn, _, hp⟩ := (hready w).mp hw
      exact ⟨w, hn, hwD, fun u hu => hCD (hp u hu)⟩

/-- The minimal-element principle of an acyclic graph: as long as a set misses a node, it
misses one whose predecessors it contains. -/
theorem exists_ready (h : g.isDirectedAcyclicGraph = true) {D : Set V} {v : V} (hv : v ∈ g.nodes)
    (hvD : v ∉ D) : ∃ w, g.Ready D w :=
  g.topologicalGenerations_waves.exists_ready (Set.empty_subset D) (mem_generations h hv) hvD

/-- A graph that peels away completely is accepted. -/
private theorem isDirectedAcyclicGraph_of_mem (h : ∀ v ∈ g.nodes, v ∈ g.topologicalGenerations.flatten) :
    g.isDirectedAcyclicGraph = true := by
  refine List.all_eq_true.mpr (fun v hv => ?_)
  rw [decide_eq_true_eq, g.peel_spec.2 v, length_filter_eq_zero_iff]
  exact fun u hu => h u (g.predecessors_subset hu)

/-- Acyclicity depends on the nodes and edges only, not on their order. -/
theorem isDirectedAcyclicGraph_congr {g' : FiniteDigraph V} (hnodes : ∀ v, v ∈ g'.nodes ↔ v ∈ g.nodes)
    (hedges : ∀ e, e ∈ g'.edges ↔ e ∈ g.edges) (h : g.isDirectedAcyclicGraph = true) :
    g'.isDirectedAcyclicGraph = true := by
  apply isDirectedAcyclicGraph_of_mem
  intro v hv
  by_contra hnot
  obtain ⟨w, hw, hnew, hpreds⟩ := exists_ready h ((hnodes v).mp hv)
    (show v ∉ (∅ ∪ {u | u ∈ g'.topologicalGenerations.flatten} : Set V) by simpa using hnot)
  refine g'.topologicalGenerations_waves.settled w ⟨(hnodes w).mpr hw, hnew, fun u hu => hpreds u ?_⟩
  simpa [hedges] using hu

/-! ### Cycles -/

def Edge (g : FiniteDigraph V) (u v : V) : Prop := (u, v) ∈ g.edges

/-- In an accepted graph no node reaches itself: the nodes on cycles would have one whose
predecessors lie on no cycle. -/
theorem not_cycle (h : g.isDirectedAcyclicGraph = true) (v : V) : ¬ Relation.TransGen g.Edge v v := by
  intro hcycle
  obtain ⟨_, hedge, _⟩ := Relation.TransGen.head'_iff.mp hcycle
  obtain ⟨w, _, hw, hpreds⟩ := exists_ready h (g.source_mem _ hedge)
    (show v ∉ {u | ¬ Relation.TransGen g.Edge u u} from fun hnot => hnot hcycle)
  obtain ⟨u, hreach, hlast⟩ := Relation.TransGen.tail'_iff.mp (not_not.mp hw)
  exact hpreds u (g.mem_predecessors.mpr hlast) (Relation.TransGen.head' hlast hreach)

/-- A node that a set misses has one above it, or is one, that the set misses last. -/
theorem exists_ready_above (h : g.isDirectedAcyclicGraph = true) {D : Set V} {v : V} (hv : v ∈ g.nodes)
    (hvD : v ∉ D) : ∃ w, g.Ready D w ∧ Relation.ReflTransGen g.Edge w v := by
  obtain ⟨w, hw, hnew, hpreds⟩ := exists_ready h hv
    (show v ∉ D ∪ {u | ¬ Relation.ReflTransGen g.Edge u v} from
      fun hin => hin.elim hvD (fun hnot => hnot Relation.ReflTransGen.refl))
  obtain ⟨hwD, hreach⟩ := not_or.mp hnew
  rw [Set.mem_ofPred_eq, not_not] at hreach
  refine ⟨w, ⟨hw, hwD, fun p hp => ?_⟩, hreach⟩
  exact (hpreds p hp).resolve_right (fun hnot => hnot (hreach.head (g.mem_predecessors.mp hp)))

/-- Without cycles, every non-empty part of the graph has a node that no other of them reaches. -/
theorem exists_first (h : ∀ v, ¬ Relation.TransGen g.Edge v v) {P : V → Prop} {v : V}
    (hv : v ∈ g.nodes) (hP : P v) :
    ∃ w ∈ g.nodes, P w ∧ ∀ u ∈ g.nodes, P u → ¬ g.Edge u w := by
  let Reaches (a b : {v // v ∈ g.nodes}) : Prop := Relation.TransGen g.Edge a b
  have : IsTrans _ Reaches := ⟨fun _ _ _ hab hbc => hab.trans hbc⟩
  have : Std.Irrefl Reaches := ⟨fun a => h a⟩
  have hwf : WellFounded Reaches := Finite.wellFounded_of_trans_of_irrefl Reaches
  obtain ⟨w, hw, hmin⟩ := hwf.has_min {a | P a} ⟨⟨v, hv⟩, hP⟩
  exact ⟨w, w.2, hw, fun u hu hPu hedge => hmin ⟨u, hu⟩ hPu (.single hedge)⟩

/-- The test accepts exactly the graphs without a cycle. -/
theorem isDirectedAcyclicGraph_iff :
    g.isDirectedAcyclicGraph = true ↔ ∀ v, ¬ Relation.TransGen g.Edge v v := by
  refine ⟨not_cycle, fun h => isDirectedAcyclicGraph_of_mem (fun v hv => ?_)⟩
  by_contra hnot
  obtain ⟨w, hw, hnew, hfirst⟩ := exists_first h (P := (· ∉ g.topologicalGenerations.flatten)) hv hnot
  refine g.topologicalGenerations_waves.settled w ⟨hw, by simpa using hnew, fun u hu => ?_⟩
  by_contra hu'
  exact hfirst u (g.predecessors_subset hu) (by simpa using hu') (g.mem_predecessors.mp hu)

/-- An acyclic graph with nodes has one without predecessors. -/
theorem exists_root (h : g.isDirectedAcyclicGraph = true) {v : V} (hv : v ∈ g.nodes) :
    ∃ w ∈ g.nodes, g.inDegree w = 0 := by
  obtain ⟨w, hw, _, hpreds⟩ := exists_ready h hv (Set.notMem_empty v)
  exact ⟨w, hw, g.inDegree_eq_zero.mpr (fun u hu => hpreds u (g.mem_predecessors.mpr hu))⟩

/-! ### Settling again and again -/

def settle (g : FiniteDigraph V) (C : Set V) : Set V := C ∪ {v | g.Ready C v}

private theorem Waves.settle_eq {C : Set V} {gen : List V} {rest : List (List V)} (h : g.Waves C (gen :: rest)) :
    g.settle C = C ∪ {v | v ∈ gen} := by
  ext v
  simp [settle, h.2.2.1 v]

/-- What is ready after k rounds is the k-th generation; after the last generation, nothing. -/
theorem Waves.mem_getD {C : Set V} {gens : List (List V)} (h : g.Waves C gens) (k : Nat) (v : V) :
    v ∈ gens.getD k [] ↔ g.Ready (g.settle^[k] C) v := by
  induction gens generalizing C k with
  | nil =>
    have hfix : g.settle C = C := by
      ext v
      simp [settle, h v]
    have hnone : ¬ g.Ready C v := h v
    simp [Function.iterate_fixed hfix, hnone]
  | cons gen rest ih =>
    cases k with
    | zero => exact h.2.2.1 v
    | succ k =>
      rw [Function.iterate_succ_apply, h.settle_eq]
      exact ih h.2.2.2 k

theorem Waves.settle_length {C : Set V} {gens : List (List V)} (h : g.Waves C gens) :
    g.settle^[gens.length] C = C ∪ {v | v ∈ gens.flatten} := by
  induction gens generalizing C with
  | nil => simp
  | cons gen rest ih =>
    rw [List.length_cons, Function.iterate_succ_apply, h.settle_eq, ih h.2.2.2]
    ext v
    simp [or_assoc]

theorem Waves.getD_ne_nil {C : Set V} {gens : List (List V)} (h : g.Waves C gens) {k : Nat}
    (hk : k < gens.length) : gens.getD k [] ≠ [] := by
  induction gens generalizing C k with
  | nil => cases hk
  | cons gen rest ih =>
    cases k with
    | zero => exact h.1
    | succ k => exact ih h.2.2.2 (Nat.lt_of_succ_lt_succ hk)

/-- What was ready once is settled from then on. -/
theorem mem_settle_of_ready {C : Set V} {v : V} {j k : Nat} (h : g.Ready (g.settle^[j] C) v)
    (hjk : j < k) : v ∈ g.settle^[k] C := by
  induction k with
  | zero => cases hjk
  | succ k ih =>
    rw [Function.iterate_succ_apply']
    rcases Nat.lt_succ_iff_lt_or_eq.mp hjk with hjk | rfl
    · exact Or.inl (ih hjk)
    · exact Or.inr h

end FiniteDigraph
end BackendProjects.Library
