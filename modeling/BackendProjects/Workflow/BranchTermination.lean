import BackendProjects.Workflow.BranchOutcomes
import BackendProjects.Workflow.SessionUse
import BackendProjects.Workflow.Termination

/-! Runs of workflows with branches come to an end. Where every task has a fate, each pass of the loop hands out
a wave or marks a task, and the coroutines of a wave have ever fewer moves left. -/
namespace BackendProjects.Workflow
open Library

/-- The moves of a coroutine from the publication of its task on, and a bound on these before it. -/
def NodePc.branchMoves : NodePc → Nat
  | .branching toSkip => 2 * toSkip.length + 1
  | .branchCreating _ toSkip => 2 * toSkip.length + 2
  | .done | .raised _ => 0
  | _ => 3

def DAG.Sleepy (dag : DAG) (completed skipped : Finset TaskId) : Prop :=
  dag.readyIds completed skipped = [] ∧ completed.card + skipped.card < dag.nodes.length
  deriving Decidable

def MainPc.passLeft (sleepy : Bool) : MainPc → Nat
  | .lookup => 13
  | .loaded => 12
  | .starting => 11
  | .skipCreating _ _ => 10
  | .gathering => 9
  | .skipping [] => if sleepy then 8 else 3
  | .sleeping => 7
  | .loop => 6
  | .checking => 5
  | .skipping (_ :: _) => 4
  | .final => 2
  | _ => 0

namespace RunState
variable (E : Engine) (s : RunState)

def stepsLeft (node : DAGNode) : Nat := s.movesLeft E node + (s.pc node.taskId).branchMoves

def ahead : Finset TaskId := E.dag.allTaskIds \ (s.completed ∪ s.skipped ∪ s.wave.toFinset)

def passLeft : Nat := s.main.passLeft (decide (E.dag.Sleepy s.completed s.skipped))

def rank : Nat ×ₗ Nat ×ₗ Nat :=
  toLex ((s.ahead E).card, toLex (s.passLeft E, (E.dag.nodes.map (s.stepsLeft E)).sum))

end RunState

variable {E : Engine} {answers : Answers} {handler : Handler} {input : Option PyDict} {s s' : RunState}
  {node : DAGNode} {t : TaskId}

/-! ### The coroutines -/

/-- A condition marks at most the one branch that it does not take. -/
theorem branchSkips_length {strOf : PyValue → String} {dag : DAG} {c : DAGNode} {output : PyValue}
    {toSkip : List TaskId} (h : branchSkips strOf dag c output = .ok toSkip) : toSkip.length ≤ 1 := by
  unfold branchSkips at h
  split at h
  · cases h
    refine (List.length_filter_le _ _).trans ?_
    split
    · split <;> exact le_rfl
    · exact Nat.zero_le 1
  · cases h

theorem NodePc.movesLeft_of_branches {pc : NodePc} (h : pc.Branches) (n : Nat) : pc.movesLeft n = 0 := by
  cases pc <;> first | exact h.elim | rfl

private theorem NodePc.branchMoves_of_open {pc : NodePc} (h : pc.Open) : pc.branchMoves = 3 := by
  cases pc <;> first | exact h.elim | rfl

private theorem NodePc.branchMoves_le {pc : NodePc} (h : ¬ pc.Branches) : pc.branchMoves ≤ 3 := by
  cases pc <;> first | exact absurd trivial h | simp [NodePc.branchMoves]

/-- From the publication of its output on, a condition marks what it skips and ends. -/
theorem NodeMove.branchMoves_lt (h : NodeMove E answers node s s') (hb : (s.pc node.taskId).Branches) :
    (s'.pc node.taskId).branchMoves < (s.pc node.taskId).branchMoves ∧
      ∀ n, (s'.pc node.taskId).movesLeft n = 0 := by
  cases h
  case branchDone hpc => simp [hpc, NodePc.branchMoves, NodePc.movesLeft]
  case branchFound hpc _ =>
    rw [hpc, RunState.goto_pc, Function.update_self]
    exact ⟨by simp only [NodePc.branchMoves, List.length_cons]; omega, fun _ => rfl⟩
  case branchMissing hpc _ =>
    rw [hpc, RunState.goto_pc, Function.update_self]
    exact ⟨by simp only [NodePc.branchMoves, List.length_cons]; omega, fun _ => rfl⟩
  case branchCreate hpc _ =>
    simp [hpc, NodePc.branchMoves, NodePc.movesLeft]
  case throw h =>
    cases h with
    | target hpc h => simp [hpc, NodePc.branchMoves, NodePc.movesLeft]
    | _ => simp_all [NodePc.Branches]
  all_goals simp_all [NodePc.Branches]

/-- The move that publishes a task leads to its end, or to a condition's marks. -/
private theorem NodeMove.branchMoves_of_published (h : NodeMove E answers node s s')
    (hbefore : node.taskId ∉ s.completed)
    (hafter : node.taskId ∈ s'.completed) :
    (s.pc node.taskId).branchMoves = 3 ∧ (∀ n, 0 < (s.pc node.taskId).movesLeft n) ∧
      (s'.pc node.taskId).branchMoves ≤ 3 ∧ ∀ n, (s'.pc node.taskId).movesLeft n = 0 := by
  cases h
  case finish hpc _ _ => simp [hpc, NodePc.branchMoves, NodePc.movesLeft]
  case branch hpc _ _ _ h =>
    have hlength := branchSkips_length h
    rw [hpc, RunState.goto_pc, Function.update_self]
    exact ⟨rfl, fun _ => Nat.one_pos, by simp only [NodePc.branchMoves]; omega, fun _ => rfl⟩
  case branchThrow hpc _ _ _ => simp [hpc, NodePc.branchMoves, NodePc.movesLeft]
  all_goals exact absurd hafter hbefore

/-- Every move of a coroutine leaves it fewer moves, its branch skips included. -/
private theorem Meant.stepsLeft_lt (inv : Meant E handler input s) (inv' : Meant E handler input s')
    (hnode : E.dag.getTask node.taskId = .ok node) (h : NodeMove E handler.answers node s s') :
    s'.stepsLeft E node < s.stepsLeft E node := by
  have hactive := h.pc_ne_done
  rw [RunState.stepsLeft, RunState.stepsLeft]
  by_cases hb : (s.pc node.taskId).Branches
  · obtain ⟨hlt, hnone⟩ := h.branchMoves_lt hb
    rw [RunState.movesLeft, hnone]
    omega
  have hopen : (s.pc node.taskId).Open := by
    have hraised := h.not_raised
    cases hpc : s.pc node.taskId <;> simp_all [NodePc.Open, NodePc.Branches]
  have hbefore := inv.ordered.unpublished _ hopen
  by_cases hafter : node.taskId ∈ s'.completed
  · obtain ⟨hthree, hpos, hle, hnone⟩ := h.branchMoves_of_published hbefore hafter
    have hpos := hpos ((s.workOf E node).maxAttempts - (s.workOf E node).attempt)
    rw [RunState.movesLeft, RunState.movesLeft, hnone]
    omega
  rw [NodePc.branchMoves_of_open hopen]
  by_cases hdone : s'.pc node.taskId = .done
  · rw [RunState.movesLeft, hdone]
    simp [NodePc.movesLeft, NodePc.branchMoves]
  · have hl := inv.heading node hnode hactive hbefore
    have hl' := inv'.heading node hnode hdone hafter
    have hlt := hl.movesLeft_lt hl' h
    have hle := NodePc.branchMoves_le fun hb => hafter (inv'.branches _ hb)
    omega

private theorem NodeMove.stepsLeft_of_ne {other : DAGNode} (h : NodeMove E answers node s s') (located : Located s)
    (hne : other.taskId ≠ node.taskId) : s'.stepsLeft E other = s.stepsLeft E other := by
  rw [RunState.stepsLeft, RunState.stepsLeft, h.movesLeft_of_ne located hne, h.pc_of_ne hne]

/-! ### The waves and the marks -/

structure Dealt (E : Engine) (s : RunState) : Prop where
  nodes : ∀ t ∈ s.wave, t ∈ E.dag.graph.nodes
  wave : ∀ t ∈ s.wave, s.pc t ≠ .done ∨ t ∈ s.completed ∨ t ∈ s.skipped ∨ s.failed = true
  marks : s.main.marks.Nodup ∧ ∀ t ∈ s.main.marks, t ∉ s.skipped

private theorem Dealt.start (E : Engine) (db : Database) : Dealt E (.start E db) where
  nodes := fun _ h => absurd h List.not_mem_nil
  wave := fun _ h => absurd h List.not_mem_nil
  marks := ⟨List.nodup_nil, fun _ h => absurd h List.not_mem_nil⟩

private theorem Dealt.nodeMove (dealt : Dealt E s) (inv : Meant E handler input s)
    (h : NodeMove E handler.answers node s s') : Dealt E s' := by
  have hg := inv.ordered.idle.gathers h.pc_ne_done
  refine ⟨h.wave ▸ dealt.nodes, fun t ht => ?_, ?_⟩
  · by_cases hn : t = node.taskId
    · subst hn
      by_cases hdone : s'.pc node.taskId = .done
      · exact Or.inr (h.settles hdone (inv.live hg) (inv.branches _))
      · exact Or.inl hdone
    · rw [h.pc_of_ne hn]
      rcases dealt.wave t (h.wave ▸ ht) with hpc | hc | hs | hf
      · exact Or.inl hpc
      · exact Or.inr (Or.inl (h.completed_mono hc))
      · exact Or.inr (Or.inr (Or.inl (h.skipped_mono hs)))
      · exact Or.inr (Or.inr (Or.inr (h.failed_mono hf)))
  · rw [h.main, MainPc.marks_of_gathers hg]
    exact ⟨List.nodup_nil, fun _ h => absurd h List.not_mem_nil⟩

private theorem MainMove.completed_mono (h : MainMove E s s') : s.completed ⊆ s'.completed := by
  by_cases hs : s.main = .starting
  · rw [h.load_of_starting hs]
    exact fun t ht => (mem_completed_load _ _ _).mpr (Or.inl ht)
  · rw [(h.completed hs).1]

private theorem MainMove.marks (h : MainMove E s s')
    (hmarks : s.main.marks.Nodup ∧ ∀ t ∈ s.main.marks, t ∉ s.skipped) :
    s'.main.marks.Nodup ∧ ∀ t ∈ s'.main.marks, t ∉ s'.skipped := by
  have hnone : ([] : List TaskId).Nodup ∧ ∀ t ∈ ([] : List TaskId), t ∉ s'.skipped :=
    ⟨List.nodup_nil, fun _ h => absurd h List.not_mem_nil⟩
  have hrest {sid : TaskId} {sids : List TaskId} (hmain : s.main = .skipping (sid :: sids)) :
      sids.Nodup ∧ ∀ t ∈ sids, t ∉ insert sid s.skipped := by
    rw [hmain] at hmarks
    obtain ⟨hnodup, hnew⟩ := hmarks
    rw [MainPc.marks, List.nodup_cons] at hnodup
    refine ⟨hnodup.2, fun t ht hin => ?_⟩
    rcases Finset.mem_insert.mp hin with rfl | hin
    · exact hnodup.1 ht
    · exact hnew t (List.mem_cons_of_mem _ ht) hin
  cases h
  case propagateSkips =>
    refine ⟨?_, fun t ht => (E.dag.mem_tasksWithAllPredecessorsSkipped.mp ht).2.2.1⟩
    have hkeys : (E.dag.nodes.map DAGNode.taskId).Nodup := E.dag.keys ▸ E.dag.graph.nodes_nodup
    exact hkeys.sublist ((List.filter_sublist ..).map _)
  case skipFound hmain _ => exact hrest hmain
  case skipMissing hmain _ => exact hrest hmain
  case skipCreate hmain _ =>
    rw [hmain] at hmarks
    exact hmarks
  case load => exact hnone
  all_goals exact hnone

private theorem Dealt.mainMove (dealt : Dealt E s) (h : MainMove E s s') : Dealt E s' := by
  refine ⟨fun t ht => ?_, fun t ht => ?_, h.marks dealt.marks⟩
  · rcases h.pc with ⟨_, hwave⟩ | ⟨_, _, hwave, _⟩
    · exact dealt.nodes t (hwave ▸ ht)
    · exact (E.dag.mem_readyIds.mp (hwave ▸ ht)).1
  · rcases h.pc with ⟨hpc, hwave⟩ | ⟨_, _, hwave, hpc⟩
    · rw [hpc, h.failed]
      exact (dealt.wave t (hwave ▸ ht)).imp_right fun h' => h'.imp (fun hc => h.completed_mono hc)
        fun h' => h'.imp_left fun hs => h.skipped_mono hs
    · rw [hpc]
      exact Or.inl (by simp [ht])

private theorem Dealt.step (hmarked : ∀ t, MarkedByPredecessors E t) (s s' : RunState)
    (inv : Meant E handler input s ∧ Dealt E s) (h : Step E handler.answers s s') :
    Meant E handler input s' ∧ Dealt E s' := by
  obtain ⟨inv, dealt⟩ := inv
  refine ⟨inv.step hmarked h, ?_⟩
  rcases step_cases h with hmove | ⟨node, _, hmove⟩
  · exact dealt.mainMove hmove
  · exact dealt.nodeMove inv hmove

/-- Between two waves, the last one is settled. -/
private theorem Dealt.wave_settled (dealt : Dealt E s) (idle : Idle s) (hunfailed : s.failed = false)
    (hg : s.main.gathers = false) (ht : t ∈ s.wave) : t ∈ s.completed ∨ t ∈ s.skipped := by
  rcases dealt.wave t ht with hpc | hc | hs | hf
  · exact absurd (idle.between hg t) hpc
  · exact Or.inl hc
  · exact Or.inr hs
  · simp [hunfailed] at hf

/-! ### The body -/

private theorem mem_ahead :
    t ∈ s.ahead E ↔ t ∈ E.dag.allTaskIds ∧ t ∉ s.completed ∧ t ∉ s.skipped ∧ t ∉ s.wave := by
  simp only [RunState.ahead, Finset.mem_sdiff, Finset.mem_union, List.mem_toFinset, not_or, and_assoc]

private theorem NodeMove.ahead_subset (h : NodeMove E answers node s s') : s'.ahead E ⊆ s.ahead E := by
  intro t ht
  obtain ⟨hknown, hc, hs, hw⟩ := mem_ahead.mp ht
  exact mem_ahead.mpr ⟨hknown, fun hin => hc (h.completed_mono hin), fun hin => hs (h.skipped_mono hin),
    h.wave ▸ hw⟩

/-- Past a wave that is settled, no move of the body brings back a task that was settled or handed out. -/
private theorem MainMove.ahead_subset (h : MainMove E s s')
    (hsettled : s.main = .skipping [] → ∀ t ∈ s.wave, t ∈ s.completed ∨ t ∈ s.skipped) :
    s'.ahead E ⊆ s.ahead E := by
  intro t ht
  obtain ⟨hknown, hc, hs, hw⟩ := mem_ahead.mp ht
  have hc : t ∉ s.completed := fun hin => hc (h.completed_mono hin)
  have hs : t ∉ s.skipped := fun hin => hs (h.skipped_mono hin)
  refine mem_ahead.mpr ⟨hknown, hc, hs, fun hin => ?_⟩
  rcases h.pc with ⟨_, hwave⟩ | ⟨hmain, _⟩
  · exact hw (hwave ▸ hin)
  · exact (hsettled hmain t hin).elim hc hs

/-- A task that was ahead and is marked or handed out is no longer ahead. -/
private theorem ahead_ssubset (hsub : s'.ahead E ⊆ s.ahead E) (ht : t ∈ s.ahead E)
    (hgone : t ∈ s'.skipped ∨ t ∈ s'.wave) : s'.ahead E ⊂ s.ahead E := by
  refine (Finset.ssubset_iff_of_subset hsub).mpr ⟨t, ht, fun hin => ?_⟩
  obtain ⟨_, _, hs, hw⟩ := mem_ahead.mp hin
  exact hgone.elim hs hw

/-- A pass that has nothing to mark hands out a wave or ends. -/
private theorem Meant.awake (inv : Meant E handler input s) (det : Determined E handler input)
    (hmarked : ∀ t, MarkedByPredecessors E t) (hidle : ∀ t, s.pc t = .done)
    (hnone : E.dag.tasksWithAllPredecessorsSkipped s.completed s.skipped = []) :
    ¬ E.dag.Sleepy s.completed s.skipped := by
  rintro ⟨hready, hlt⟩
  rcases det.goes_on hmarked inv hidle with h | h | hall
  · exact h hready
  · exact h hnone
  · have hcard := Finset.card_le_card (fun t ht => Finset.mem_union.mpr (hall t ht) :
      E.dag.allTaskIds ⊆ s.completed ∪ s.skipped)
    have hunion := Finset.card_union_le s.completed s.skipped
    rw [E.dag.card_allTaskIds] at hcard
    omega

private theorem passLeft_skipping (sleepy : Bool) (sids : List TaskId) :
    (MainPc.skipping sids).passLeft sleepy ≤ 8 := by
  cases sids with
  | nil => cases sleepy <;> decide
  | cons sid sids => exact Nat.le_of_ble_eq_true rfl

/-- The body marks or hands out a task, or comes closer to it. -/
private theorem MainMove.progress (h : MainMove E s s')
    (hmarks : ∀ sid sids, s.main = .skipping (sid :: sids) → sid ∈ s.ahead E)
    (hsettled : s.main = .skipping [] → ∀ t ∈ s.wave, t ∈ s.completed ∨ t ∈ s.skipped)
    (hawake : s.main = .checking → E.dag.tasksWithAllPredecessorsSkipped s.completed s.skipped = [] →
      ¬ E.dag.Sleepy s.completed s.skipped) :
    s'.ahead E ⊂ s.ahead E ∨ s'.passLeft E < s.passLeft E := by
  have hsub := h.ahead_subset hsettled
  cases h
  case skipFound now sid sids te hmain _ =>
    exact Or.inl (ahead_ssubset hsub (hmarks sid sids hmain) (Or.inl (Finset.mem_insert_self ..)))
  case skipMissing sid sids hmain _ =>
    exact Or.inl (ahead_ssubset hsub (hmarks sid sids hmain) (Or.inl (Finset.mem_insert_self ..)))
  case gather hmain hready =>
    obtain ⟨t, ht⟩ := List.exists_mem_of_ne_nil _ hready
    obtain ⟨hnode, hc, hs, _⟩ := E.dag.mem_readyIds.mp ht
    refine Or.inl (ahead_ssubset hsub (mem_ahead.mpr ⟨E.dag.mem_allTaskIds.mpr hnode, hc, hs, fun hin => ?_⟩)
      (Or.inr ht))
    exact (hsettled hmain t hin).elim hc hs
  case skipCreate now sid sids target hmain _ =>
    refine Or.inr (lt_of_le_of_lt (passLeft_skipping _ sids) ?_)
    simp [RunState.passLeft, hmain, MainPc.passLeft]
  case propagateSkips hmain _ _ _ _ =>
    refine Or.inr ?_
    cases hnone : E.dag.tasksWithAllPredecessorsSkipped s.completed s.skipped with
    | nil => simp [RunState.passLeft, hmain, MainPc.passLeft, hawake hmain hnone]
    | cons sid sids => simp [RunState.passLeft, hmain, MainPc.passLeft]
  case settled hmain _ _ =>
    refine Or.inr ?_
    simp only [RunState.passLeft, hmain, MainPc.passLeft]
    split <;> decide
  case sleep hmain hready h =>
    have hsleepy : E.dag.Sleepy s.completed s.skipped := ⟨hready, h⟩
    exact Or.inr (by simp [RunState.passLeft, hmain, MainPc.passLeft, hsleepy])
  case lookup h | start _ h _ | noStart h _ | load h | iterate h _ | exit h _ | cancelled h _
  | recordFailure _ h _ _ | noLock h _ _ _ | noMethod h _ _ _ | skipThrow h _ | wake h
  | gathered h _ _ | gatheredFailed h _ _ | finalCancelled h _ | finalFailed h _ _ | complete _ h _ _ _
  | completeThrow _ h _ _ _ | propagate h _ _ =>
    exact Or.inr (by simp [RunState.passLeft, h, MainPc.passLeft])

/-! ### Every run halts -/

private theorem NodeMove.passLeft (h : NodeMove E answers node s s') (idle : Idle s) :
    s'.passLeft E = s.passLeft E := by
  rw [RunState.passLeft, RunState.passLeft, h.main]
  rcases MainPc.gathers_iff.mp (idle.gathers h.pc_ne_done) with h | ⟨e, h⟩ <;> rw [h] <;> rfl

section Halting
variable (inv : Meant E handler input s) (dealt : Dealt E s) (det : Determined E handler input)
  (hmarked : ∀ t, MarkedByPredecessors E t)
include inv

private theorem Meant.rank_nodeMove (inv' : Meant E handler input s')
    (hnode : E.dag.getTask node.taskId = .ok node)
    (h : NodeMove E handler.answers node s s') : s'.rank E < s.rank E := by
  have hsum := sum_moves_lt hnode (inv.stepsLeft_lt inv' hnode h)
    (fun other hne => h.stepsLeft_of_ne inv.ordered.located hne)
  rw [RunState.rank, RunState.rank, Prod.Lex.toLex_lt_toLex, Prod.Lex.toLex_lt_toLex]
  rcases (Finset.card_le_card h.ahead_subset).lt_or_eq with hlt | heq
  · exact Or.inl hlt
  · exact Or.inr ⟨heq, Or.inr ⟨h.passLeft inv.ordered.idle, hsum⟩⟩

include dealt det hmarked

private theorem Meant.rank_mainMove (h : MainMove E s s') : s'.rank E < s.rank E := by
  have hsettled {sids : List TaskId} (hmain : s.main = .skipping sids) :
      ∀ t ∈ s.wave, t ∈ s.completed ∨ t ∈ s.skipped := fun t =>
    dealt.wave_settled inv.ordered.idle (det.unfailed hmarked inv) (by rw [hmain]; rfl)
  have hprogress := h.progress
    (fun sid sids hmain => by
      have hin : sid ∈ s.main.marks := by rw [hmain]; exact List.mem_cons_self
      obtain ⟨hknown, hc⟩ := inv.settled.marks sid hin
      have hs := dealt.marks.2 sid hin
      exact mem_ahead.mpr ⟨hknown, hc, hs, fun hw => (hsettled hmain sid hw).elim hc hs⟩)
    hsettled
    (fun hmain hnone => inv.awake det hmarked (inv.ordered.idle.between (by rw [hmain]; rfl)) hnone)
  rw [RunState.rank, RunState.rank, Prod.Lex.toLex_lt_toLex, Prod.Lex.toLex_lt_toLex]
  rcases (Finset.card_le_card (h.ahead_subset hsettled)).lt_or_eq with hlt | heq
  · exact Or.inl hlt
  · rcases hprogress with hsub | hlt
    · exact absurd (Finset.card_lt_card hsub) (by simp [heq])
    · exact Or.inr ⟨heq, Or.inl hlt⟩

end Halting

/-- As long as the body has not ended, it can move, or the coroutines that it waits for can. -/
private theorem Meant.enabled (inv : Meant E handler input s) (dealt : Dealt E s) (permits : Permits E s)
    (hend : ¬ s.Ended) : ∃ s', Step E handler.answers s s' := by
  by_cases hmain : s.main = .gathering
  · exact gathering_enabled handler.answering inv.ordered.located inv.ordered.idle hmain dealt.nodes
      permits.free_or_held
  · obtain ⟨s', h⟩ := mainStep_enabled E hmain hend 0
    exact ⟨s', .main 0, trivial, h⟩

section Determined
variable (det : Determined E handler input) (hmarked : ∀ t, MarkedByPredecessors E t)
include det hmarked

private theorem Determined.halts : Halts (Step E handler.answers) (.start E (freshRows input)) := by
  refine halts_of_measure (RunState.rank E) (Dealt.step hmarked) (fun s s' inv h => ?_)
    ⟨.start E handler input, .start E (freshRows input)⟩
  obtain ⟨inv, dealt⟩ := inv
  rcases step_cases h with hmove | ⟨node, hnode, hmove⟩
  · exact inv.rank_mainMove dealt det hmarked hmove
  · exact inv.rank_nodeMove (inv.step hmarked h) hnode hmove

/-- Where no step is left, the execution is stored as completed. -/
private theorem Determined.completes (hlock : E.reading.lock = true) (hskips : E.reading.allSkipped = true)
    (hbranch : E.reading.branchLock = true) (run : Leads E handler input s)
    (hterm : Terminal (Step E handler.answers) s) : s.main = .returned ∧ s.db.execution.status = .completed := by
  obtain ⟨inv, con⟩ := run.concluded hmarked
  have hunfailed := det.unfailed hmarked inv
  have hpermits := run.invariant (fun _ _ inv h => Permits.step inv h) (Permits.start E (freshRows input))
  obtain ⟨_, dealt⟩ := run.invariant (Dealt.step hmarked) ⟨.start E handler input, .start E (freshRows input)⟩
  have hend : s.Ended := by
    by_contra hend
    obtain ⟨s', h⟩ := inv.enabled dealt hpermits hend
    exact hterm s' h
  rcases hend with hreturned | ⟨e, he⟩
  · exact ⟨hreturned, (con.returned hreturned).resolve_left (by simp [hunfailed])⟩
  · exact absurd he (det.not_raised hmarked inv con hlock hskips hbranch e)

end Determined

end BackendProjects.Workflow
