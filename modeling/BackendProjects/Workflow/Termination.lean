import BackendProjects.Workflow.Generations
import Mathlib.Algebra.Order.BigOperators.Group.List
import Mathlib.Data.Prod.Lex

/-! Every run of a fresh execution comes to an end: each wave takes its tasks from those that no
wave has had, between two waves the body moves forward, and a coroutine has ever fewer moves left. -/
namespace BackendProjects.Workflow
open Library

def NodePc.movesLeft (n : Nat) : NodePc → Nat
  | .waiting => 5 * n + 11
  | .checking => 5 * n + 10
  | .entering => 5 * n + 9
  | .creating => 5 * n + 8
  | .prepared _ => 5 * n + 7
  | .looping _ _ => 5 * n + 6
  | .running _ _ => 5 * n + 5
  | .handling _ _ => 5 * n + 4
  | .attemptFailed _ _ => 5 * n + 3
  | .sleeping _ _ => 5 * n + 2
  | .finishing _ _ => 1
  | _ => 0

def MainPc.movesLeft : MainPc → Nat
  | .lookup => 9
  | .loaded => 8
  | .starting => 7
  | .gathering => 6
  | .loop => 5
  | .checking => 4
  | .skipping _ => 3
  | .final => 2
  | _ => 0

namespace RunState
variable (E : Engine) (s : RunState)

def workOf (node : DAGNode) : Work :=
  ((s.pc node.taskId).row?.bind (s.works[·]?)).getD (TaskExecution.new E.settings node).work

def movesLeft (node : DAGNode) : Nat :=
  (s.pc node.taskId).movesLeft ((s.workOf E node).maxAttempts - (s.workOf E node).attempt)

def unreached : Finset TaskId := E.dag.allTaskIds \ (s.completed ∪ s.wave.toFinset)

def measure : Nat ×ₗ Nat ×ₗ Nat :=
  toLex ((s.unreached E).card, toLex (s.main.movesLeft, (E.dag.nodes.map (s.movesLeft E)).sum))

end RunState

variable {E : Engine} {handler : Handler} {input : Option PyDict} {answers : Answers} {s s' : RunState}
  {node other : DAGNode} {t : TaskId} {data data' : PyDict} {v v' : Verdict} {te : Nat} {w : Work}

/-! ### A coroutine comes closer to its end -/

private theorem movesLeft_of_row (hrow : (s.pc node.taskId).row? = some te) (hw : s.works[te]? = some w) :
    s.movesLeft E node = (s.pc node.taskId).movesLeft (w.maxAttempts - w.attempt) := by
  simp [RunState.movesLeft, RunState.workOf, hrow, hw]

private theorem movesLeft_goto {pc : NodePc} (hrow : pc.row? = some te) (hw : s.works[te]? = some w) :
    (s.goto node.taskId pc).movesLeft E node = pc.movesLeft (w.maxAttempts - w.attempt) := by
  have hpc : (s.goto node.taskId pc).pc node.taskId = pc := Function.update_self ..
  rw [movesLeft_of_row (hpc.symm ▸ hrow) (s.works_goto node.taskId pc ▸ hw), hpc]

private theorem movesLeft_of_none (hrow : (s.pc node.taskId).row? = none) :
    s.movesLeft E node = (s.pc node.taskId).movesLeft (E.maxAttempts node - 1) := by
  simp only [RunState.movesLeft, RunState.workOf, hrow, Option.bind_none, Option.getD_none]
  rfl

/-- A move that leaves the attempts as they are, and leads to a later place. -/
private theorem movesLeft_lt_of_row {pc pc' : NodePc} (hpc : s.pc node.taskId = pc)
    (hpc' : s'.pc node.taskId = pc') (hrow : pc.row? = some te) (hrow' : pc'.row? = some te)
    (hw : s.works[te]? = some w) (hw' : s'.works[te]? = some w)
    (h : ∀ n, pc'.movesLeft n < pc.movesLeft n) : s'.movesLeft E node < s.movesLeft E node := by
  subst hpc hpc'
  rw [movesLeft_of_row hrow hw, movesLeft_of_row hrow' hw']
  exact h _

/-- A move to a place from which no other move of a wave leads on. -/
private theorem movesLeft_lt_of_ended (hpc' : ∀ n, (s'.pc node.taskId).movesLeft n = 0)
    (hpc : ∀ n, 0 < (s.pc node.taskId).movesLeft n) : s'.movesLeft E node < s.movesLeft E node := by
  rw [RunState.movesLeft, RunState.movesLeft, hpc']
  exact hpc _

/-- A place without a row comes before the places with one. -/
private theorem movesLeft_lt_of_fresh {pc pc' : NodePc} (hl' : Local E handler data' v' s' node)
    (hpc : s.pc node.taskId = pc) (hpc' : s'.pc node.taskId = pc') (hrow : pc.row? = none)
    (hrow' : pc'.row? = some te) (h : ∀ m n, m ≤ n → pc'.movesLeft m < pc.movesLeft n) :
    s'.movesLeft E node < s.movesLeft E node := by
  subst hpc hpc'
  obtain ⟨w, hw⟩ := hl'.of_row hrow'
  rw [movesLeft_of_none hrow, movesLeft_of_row hrow' hw.row]
  apply h
  have := hw.pos
  rw [hw.max]
  omega

private theorem movesLeft_lt_of_none {pc pc' : NodePc} (hpc : s.pc node.taskId = pc)
    (hpc' : s'.pc node.taskId = pc') (hrow : pc.row? = none) (hrow' : pc'.row? = none)
    (h : ∀ n, pc'.movesLeft n < pc.movesLeft n) : s'.movesLeft E node < s.movesLeft E node := by
  subst hpc hpc'
  rw [movesLeft_of_none hrow, movesLeft_of_none hrow']
  exact h _

private theorem Throws.movesLeft_pos {e : PyError} (h : Throws E answers node s e)
    (hbranch : ∀ sid toSkip, s.pc node.taskId ≠ .branchCreating sid toSkip) (n : Nat) :
    0 < (s.pc node.taskId).movesLeft n := by
  cases h with
  | strategy hpc _ | taskClass hpc _ _ _ _ | handler hpc _ _ | delay _ hpc _ _ _ =>
    rw [hpc]
    exact Nat.succ_pos _
  | target hpc _ => exact absurd hpc (hbranch _ _)

/-- Every move of a coroutine leaves it fewer moves. -/
theorem Local.movesLeft_lt (hl : Local E handler data v s node) (hl' : Local E handler data' v' s' node)
    (h : NodeMove E handler.answers node s s') : s'.movesLeft E node < s.movesLeft E node := by
  have hsame {pc pc' : NodePc} {te : Nat} (hpc : s.pc node.taskId = pc) (hpc' : s'.pc node.taskId = pc')
      (hrow : pc.row? = some te) (hrow' : pc'.row? = some te) (hworks : s'.works = s.works)
      (h : ∀ n, pc'.movesLeft n < pc.movesLeft n) : s'.movesLeft E node < s.movesLeft E node := by
    obtain ⟨w, hw⟩ := hl.of_row (hpc ▸ hrow)
    exact movesLeft_lt_of_row hpc hpc' hrow hrow' hw.row (hworks ▸ hw.row) h
  have hends {pc : NodePc} (hpc' : ∀ n, (s'.pc node.taskId).movesLeft n = 0) (hpc : s.pc node.taskId = pc)
      (h : ∀ n, 0 < pc.movesLeft n) : s'.movesLeft E node < s.movesLeft E node :=
    movesLeft_lt_of_ended hpc' (hpc ▸ h)
  cases h with
  | acquire hpc _ | enter hpc _ | missing hpc _ _ _ =>
    exact movesLeft_lt_of_none hpc (Function.update_self ..) rfl rfl (fun n => by simp [NodePc.movesLeft])
  | cancelled hpc _ | settled hpc _ =>
    exact hends (fun n => by simp [NodePc.movesLeft]) hpc (fun n => by simp [NodePc.movesLeft])
  | found hpc _ _ _ | create hpc =>
    refine movesLeft_lt_of_fresh hl' hpc (Function.update_self ..) rfl rfl (fun m n h => ?_)
    simp only [NodePc.movesLeft]
    omega
  | prepare hpc _ | call hpc _ | exhausted hpc _ _ | backOff _ hpc _ _ _ =>
    exact hsame hpc (Function.update_self ..) rfl rfl rfl (fun n => by simp [NodePc.movesLeft])
  | stop hpc _ _ =>
    exact hsame hpc (Function.update_self ..) rfl rfl rfl (fun n => by simp [NodePc.movesLeft])
  | begin now hpc _ _ _ _ =>
    exact hsame hpc (Function.update_self ..) rfl rfl (RunState.works_begin ..)
      (fun n => by simp [NodePc.movesLeft])
  | @answer now te input row outcome hpc hrow _ _ =>
    have hw' := RunState.works_saveTask_self (s.emit (.returned node.taskId row.attempt outcome)) te
      (·.answered E.strOf now (taskTimeout E.settings node) outcome) hrow
    rw [movesLeft_of_row (by rw [hpc]; rfl) (s.getElem?_works hrow), hpc,
      movesLeft_goto (by split <;> rfl) hw']
    simp only [TaskExecution.work, TaskExecution.answered_attempt, TaskExecution.answered_maxAttempts]
    split <;> simp [NodePc.movesLeft]
  | @again te input hpc =>
    obtain ⟨w, hw⟩ := hl.of_row (by rw [hpc]; rfl)
    obtain ⟨row, hrow, rfl⟩ := RunState.row_of_works hw.row
    have hlt := hw.again input hpc
    rw [movesLeft_of_row (by rw [hpc]; rfl) hw.row, hpc,
      movesLeft_goto rfl (RunState.works_saveTask_self s te _ hrow)]
    simp only [TaskExecution.work, TaskExecution.again, NodePc.movesLeft] at hlt ⊢
    omega
  | fail hpc | finish hpc _ _ | branch hpc _ _ _ _ | branchThrow hpc _ _ _ =>
    exact hends (fun n => by simp [NodePc.movesLeft]) hpc (fun n => by simp [NodePc.movesLeft])
  | branchDone hpc => exact absurd hpc (hl.not_branching.1 _)
  | branchFound _ hpc _ => exact absurd hpc (hl.not_branching.1 _)
  | branchMissing hpc _ => exact absurd hpc (hl.not_branching.1 _)
  | branchCreate _ hpc _ => exact absurd hpc (hl.not_branching.2 _ _)
  | throw h =>
    exact movesLeft_lt_of_ended (fun n => by simp [NodePc.movesLeft]) (h.movesLeft_pos hl.not_branching.2)

/-- No move of another coroutine changes what a coroutine has left. -/
theorem NodeMove.movesLeft_of_ne (h : NodeMove E answers node s s') (located : Located s)
    (hne : other.taskId ≠ node.taskId) : s'.movesLeft E other = s.movesLeft E other := by
  have hpc := h.pc_of_ne hne
  cases hrow : (s.pc other.taskId).row? with
  | none => rw [movesLeft_of_none hrow, movesLeft_of_none (hpc ▸ hrow), hpc]
  | some te =>
    obtain ⟨w, hw, hid⟩ := located.own _ _ hrow
    have hw' := h.works_of_ne located hw (by rw [hid]; exact hne)
    rw [movesLeft_of_row hrow hw, movesLeft_of_row (hpc ▸ hrow) hw', hpc]

/-! ### The body comes closer to the next wave -/

/-- The places of the body that a run without skipped tasks does not come to. -/
private theorem Replays.place (inv : Replays E handler input s) : s.main ≠ .sleeping ∧
    (∀ sid sids, s.main ≠ .skipping (sid :: sids)) ∧ ∀ sid sids, s.main ≠ .skipCreating sid sids := by
  cases inv.stage with
  | before hmain => rcases hmain with h | h | h <;> simp [h]
  | between hmain => rcases hmain with h | h | h <;> simp [h]
  | during hmain => rcases MainPc.gathers_iff.mp hmain with h | ⟨e, h⟩ <;> simp [h]
  | ended hmain => rcases hmain with h | h <;> simp [h]

/-- Between two waves, a body that neither sleeps nor skips moves forward. -/
theorem MainMove.movesLeft_lt (h : MainMove E s s') (hsleep : s.main ≠ .sleeping)
    (hskip : ∀ sid sids, s.main ≠ .skipping (sid :: sids))
    (hcreate : ∀ sid sids, s.main ≠ .skipCreating sid sids)
    (hsleep' : s'.main ≠ .sleeping) (hmain : s'.main ≠ .gathering) :
    s'.main.movesLeft < s.main.movesLeft := by
  cases h with
  | gather => exact absurd rfl hmain
  | sleep => exact absurd rfl hsleep'
  | wake h => exact absurd h hsleep
  | skipFound now h _ => exact absurd h (hskip _ _)
  | skipMissing h _ => exact absurd h (hskip _ _)
  | skipCreate now h _ => exact absurd h (hcreate _ _)
  | skipThrow h _ => exact absurd h (hcreate _ _)
  | lookup h | start _ h _ | noStart h _ | load h | iterate h _ | exit h _ | cancelled h _
  | recordFailure _ h _ _ | noLock h _ _ _ | noMethod h _ _ _ | propagateSkips h _ _ _ _ | settled h _ _
  | gathered h _ _ | gatheredFailed h _ _ | finalCancelled h _ | finalFailed h _ _ | complete _ h _ _ _
  | completeThrow _ h _ _ _ | propagate h _ _ => simp [h, MainPc.movesLeft]

private theorem mem_unreached : t ∈ s.unreached E ↔ t ∈ E.dag.graph.nodes ∧ t ∉ s.completed ∧ t ∉ s.wave := by
  simp only [RunState.unreached, Finset.mem_sdiff, E.dag.mem_allTaskIds, Finset.mem_union, List.mem_toFinset,
    not_or]

/-- A coroutine that completes its task is one of the wave. -/
private theorem NodeMove.unreached (h : NodeMove E answers node s s') (idle : Idle s) :
    s'.unreached E = s.unreached E := by
  have hwave := idle.mem_wave h.pc_ne_done
  rw [RunState.unreached, RunState.unreached, h.wave]
  rcases h.completed with hc | ⟨hc, _⟩
  · rw [hc]
  · rw [hc, Finset.insert_union, Finset.insert_eq_of_mem]
    exact Finset.mem_union_right _ (List.mem_toFinset.mpr hwave)

private theorem MainMove.wave_of_gathering (h : MainMove E s s') (hmain : s'.main = .gathering) :
    s.main = .skipping [] ∧ s'.completed = s.completed ∧
      s'.wave = E.dag.readyIds s.completed s.skipped ∧ s'.wave ≠ [] := by
  cases h
  case gather hskipping hready => exact ⟨hskipping, rfl, rfl, hready⟩
  all_goals cases hmain

/-- A new wave takes tasks that no wave has had. -/
private theorem MainMove.unreached_ssubset (h : MainMove E s s') (hmain : s'.main = .gathering)
    (hold : s.main = .skipping [] → ∀ t ∈ s.wave, t ∈ s.completed) : s'.unreached E ⊂ s.unreached E := by
  obtain ⟨hskipping, hcompleted, hwave, hsome⟩ := h.wave_of_gathering hmain
  have hold := hold hskipping
  rw [Finset.ssubset_iff_of_subset]
  · obtain ⟨t, ht⟩ := List.exists_mem_of_ne_nil _ hsome
    obtain ⟨hnode, hnew, _⟩ := E.dag.mem_readyIds.mp (hwave ▸ ht)
    exact ⟨t, mem_unreached.mpr ⟨hnode, hnew, fun hin => hnew (hold t hin)⟩,
      fun hin => (mem_unreached.mp hin).2.2 ht⟩
  · intro t ht
    obtain ⟨hnode, hnew, _⟩ := mem_unreached.mp ht
    rw [hcompleted] at hnew
    exact mem_unreached.mpr ⟨hnode, hnew, fun hin => hnew (hold t hin)⟩

/-- Other moves of the body keep the wave, and may complete what the rows say. -/
private theorem MainMove.unreached_subset (h : MainMove E s s') (hmain : s'.main ≠ .gathering) :
    s'.unreached E ⊆ s.unreached E := by
  have hwave : s'.wave = s.wave := by
    rcases h.pc with ⟨_, hw⟩ | ⟨_, hm, _⟩
    · exact hw
    · exact absurd hm hmain
  have hcompleted {t : TaskId} (ht : t ∈ s.completed) : t ∈ s'.completed := by
    by_cases hs : s.main = .starting
    · rw [h.load_of_starting hs]
      exact (mem_completed_load _ _ _).mpr (Or.inl ht)
    · rwa [(h.completed hs).1]
  intro t ht
  obtain ⟨hnode, hnew, hout⟩ := mem_unreached.mp ht
  exact mem_unreached.mpr ⟨hnode, fun hin => hnew (hcompleted hin), hwave ▸ hout⟩

/-- A move of the body that is not to the next wave comes closer to it; the next wave leaves fewer tasks. -/
theorem MainMove.lex_lt (h : MainMove E s s') {n n' : Nat}
    (hold : s.main = .skipping [] → ∀ t ∈ s.wave, t ∈ s.completed)
    (hmoves : s'.main ≠ .gathering → s'.main.movesLeft < s.main.movesLeft) :
    toLex ((s'.unreached E).card, toLex (s'.main.movesLeft, n')) <
      toLex ((s.unreached E).card, toLex (s.main.movesLeft, n)) := by
  rw [Prod.Lex.toLex_lt_toLex, Prod.Lex.toLex_lt_toLex]
  by_cases hmain : s'.main = .gathering
  · exact Or.inl (Finset.card_lt_card (h.unreached_ssubset hmain hold))
  · rcases (Finset.card_le_card (h.unreached_subset hmain)).lt_or_eq with hlt | heq
    · exact Or.inl hlt
    · exact Or.inr ⟨heq, Or.inl (hmoves hmain)⟩

/-- One coroutine has fewer moves left, and the others as many as before. -/
theorem sum_moves_lt (hnode : E.dag.getTask node.taskId = .ok node) {left left' : DAGNode → Nat}
    (hown : left' node < left node)
    (hothers : ∀ other, other.taskId ≠ node.taskId → left' other = left other) :
    (E.dag.nodes.map left').sum < (E.dag.nodes.map left).sum := by
  refine List.sum_lt_sum _ _ (fun other hother => ?_) ⟨node, (E.dag.getTask_ok hnode).1, hown⟩
  by_cases heq : other.taskId = node.taskId
  · have hnode' := E.dag.getTask_of_mem hother
    rw [heq, hnode] at hnode'
    cases hnode'
    exact hown.le
  · exact (hothers other heq).le

/-- A coroutine's move keeps the wave and the body, and uses up one of its moves. -/
theorem NodeMove.lex_lt (h : NodeMove E answers node s s') (idle : Idle s)
    (hnode : E.dag.getTask node.taskId = .ok node) {left left' : DAGNode → Nat}
    (hown : left' node < left node)
    (hothers : ∀ other, other.taskId ≠ node.taskId → left' other = left other) :
    toLex ((s'.unreached E).card, toLex (s'.main.movesLeft, (E.dag.nodes.map left').sum)) <
      toLex ((s.unreached E).card, toLex (s.main.movesLeft, (E.dag.nodes.map left).sum)) := by
  rw [h.unreached idle, h.main, Prod.Lex.toLex_lt_toLex, Prod.Lex.toLex_lt_toLex]
  exact Or.inr ⟨rfl, Or.inr ⟨rfl, sum_moves_lt hnode hown hothers⟩⟩

/-! ### Every run halts -/

private theorem Replays.local (inv : Replays E handler input s) (hg : s.main.gathers = true)
    (hnode : E.dag.getTask node.taskId = .ok node) (hwave : node.taskId ∈ s.wave) :
    ∃ data v, Local E handler data v s node := by
  obtain ⟨sum, gen, rest, d, _⟩ := inv.during hg
  exact ⟨_, _, d.locals node hnode ((d.wave _).mp hwave)⟩

private theorem Replays.measure_nodeMove (inv : Replays E handler input s) (inv' : Replays E handler input s')
    (hnode : E.dag.getTask node.taskId = .ok node) (h : NodeMove E handler.answers node s s') :
    s'.measure E < s.measure E := by
  have hg := inv.unrecorded.idle.gathers h.pc_ne_done
  have hwave := inv.unrecorded.idle.mem_wave h.pc_ne_done
  obtain ⟨_, _, hl⟩ := inv.local hg hnode hwave
  obtain ⟨_, _, hl'⟩ := inv'.local (h.main ▸ hg) hnode (h.wave ▸ hwave)
  exact h.lex_lt inv.unrecorded.idle hnode (hl.movesLeft_lt hl' h)
    (fun other hne => h.movesLeft_of_ne inv.unrecorded.located hne)

private theorem Replays.measure_mainMove (inv : Replays E handler input s) (inv' : Replays E handler input s')
    (h : MainMove E s s') : s'.measure E < s.measure E := by
  obtain ⟨hsleep, hskip, hcreate⟩ := inv.place
  refine h.lex_lt (fun hskipping => ?_) (h.movesLeft_lt hsleep hskip hcreate inv'.place.1)
  cases inv.stage with
  | between _ b => exact fun t ht => b.shown.completed ▸ b.wave t ht
  | before hm => simp [hskipping] at hm
  | during hm => simp [hskipping, MainPc.gathers] at hm
  | ended hm => simp [hskipping] at hm

/-! ### Before its end, a run can go on -/

/-- A coroutine that holds a permit waits for nobody. -/
theorem nodeStep_enabled (E : Engine) (holds : (s.pc node.taskId).Holds)
    (hrow : ∀ te, (s.pc node.taskId).row? = some te → ∃ row, s.mem.tasks[te]? = some row)
    (now : Time) (sample : Rat) (outcome : Outcome) :
    ∃ s', nodeStep E node now sample outcome s = some s' := by
  rw [← Option.isSome_iff_exists]
  cases hpc : s.pc node.taskId with
  | waiting => rw [hpc] at holds; exact holds.elim
  | done => rw [hpc] at holds; exact holds.elim
  | raised e => rw [hpc] at holds; exact holds.elim
  | looping te | running te | handling te | attemptFailed te =>
    obtain ⟨row, hrow⟩ := hrow te (by rw [hpc]; rfl)
    simp only [nodeStep, hpc, hrow, Option.bind_eq_bind, Option.bind_some]
    repeat' split
    all_goals rfl
  | finishing te ok =>
    obtain ⟨row, hrow⟩ := hrow te (by rw [hpc]; rfl)
    cases ok <;> simp only [nodeStep, hpc, hrow, Option.bind_eq_bind, Option.bind_some]
    · rfl
    · repeat' split
      all_goals rfl
  | branching toSkip =>
    cases toSkip <;> simp only [nodeStep, hpc]
    · rfl
    · split <;> rfl
  | _ =>
    simp only [nodeStep, hpc]
    repeat' split
    all_goals rfl

private theorem exists_step {c : Choice} (legal : Legal E answers s c) (h : (step E c s).isSome = true) :
    ∃ s', Step E answers s s' := by
  obtain ⟨s', h⟩ := Option.isSome_iff_exists.mp h
  exact ⟨s', c, legal, h⟩

private theorem exists_move (hnode : E.dag.getTask node.taskId = .ok node) {outcome : Outcome}
    (legal : ∀ te input row, s.pc node.taskId = .handling te input → s.mem.tasks[te]? = some row →
      answers node row.attempt input outcome) (h : ∃ s', nodeStep E node 0 0 outcome s = some s') :
    ∃ s', Step E answers s s' ∧ NodeMove E answers node s s' := by
  obtain ⟨s', h⟩ := h
  refine ⟨s', ⟨.node node.taskId 0 0 outcome, ?_, by simp only [step, hnode, h]⟩, nodeStep_move h legal⟩
  intro te input node' row hpc hnode' hrow
  rw [hnode] at hnode'
  cases hnode'
  exact legal te input row hpc hrow

/-- The answers of the handlers let every coroutine that holds a permit move. -/
theorem holder_enabled (hanswers : Answering answers) (hnode : E.dag.getTask node.taskId = .ok node)
    (holds : (s.pc node.taskId).Holds) (located : Located s) :
    ∃ s', Step E answers s s' ∧ NodeMove E answers node s s' := by
  have hrows : ∀ te, (s.pc node.taskId).row? = some te → ∃ row, s.mem.tasks[te]? = some row := by
    intro te hte
    obtain ⟨w, hw, _⟩ := located.own _ te hte
    obtain ⟨row, hrow, _⟩ := RunState.row_of_works hw
    exact ⟨row, hrow⟩
  have hstep (outcome : Outcome) := nodeStep_enabled E holds hrows 0 0 outcome
  by_cases hpc : ∃ te input, s.pc node.taskId = .handling te input
  · obtain ⟨te, input, hpc⟩ := hpc
    obtain ⟨row, hrow⟩ := hrows te (by rw [hpc]; rfl)
    obtain ⟨outcome, hanswer⟩ := hanswers node row.attempt input
    refine exists_move hnode ?_ (hstep outcome)
    intro te' input' row' hpc' hrow'
    rw [hpc] at hpc'
    cases hpc'
    rw [hrow] at hrow'
    cases hrow'
    exact hanswer
  · exact exists_move hnode (fun te input _ h => absurd ⟨te, input, h⟩ hpc) (hstep .timeout)

/-- With a permit left, a waiting coroutine can take it. -/
theorem waiting_enabled (hnode : E.dag.getTask node.taskId = .ok node) (hpc : s.pc node.taskId = .waiting)
    (hsem : 0 < s.sem) : ∃ s', Step E answers s s' ∧ NodeMove E answers node s s' := by
  have hstep : ∃ s', nodeStep E node 0 0 .timeout s = some s' := by
    simp only [nodeStep, hpc, if_pos hsem]
    exact ⟨_, rfl⟩
  refine exists_move hnode (fun te input _ h => ?_) hstep
  rw [hpc] at h
  cases h

theorem propagate_enabled {e : PyError} (hmain : s.main = .gathering) (ht : t ∈ s.wave)
    (hpc : s.pc t = .raised e) : Step E answers s { s with main := .raised e } :=
  ⟨.propagate t, trivial, by simp only [step, hmain, hpc, if_pos ht]⟩

/-- A body that waits for its wave can go on, or one of the coroutines can. -/
theorem gathering_enabled (hanswers : Answering answers) (located : Located s) (idle : Idle s)
    (hmain : s.main = .gathering) (hnodes : ∀ t ∈ s.wave, t ∈ E.dag.graph.nodes)
    (free : 0 < s.sem ∨ ∃ t, (s.pc t).Holds) : ∃ s', Step E answers s s' := by
  have hnode {t : TaskId} (ht : t ∈ s.wave) :
      ∃ node, E.dag.getTask node.taskId = .ok node ∧ node.taskId = t := by
    obtain ⟨node, hnode⟩ := E.dag.exists_getTask (hnodes t ht)
    obtain rfl := (E.dag.getTask_ok hnode).2
    exact ⟨node, hnode, rfl⟩
  have hholds {t : TaskId} (h : (s.pc t).Holds) : ∃ s', Step E answers s s' := by
    have hactive : s.pc t ≠ .done := fun hd => by rw [hd] at h; exact h
    obtain ⟨node, hnode, rfl⟩ := hnode (idle.mem_wave hactive)
    obtain ⟨s', h, _⟩ := holder_enabled hanswers hnode h located
    exact ⟨s', h⟩
  by_cases hdone : ∀ t ∈ s.wave, s.pc t = .done
  · have legal : Legal E answers s (.main 0) := trivial
    refine exists_step legal ?_
    simp only [Workflow.step, mainStep, hmain]
    split
    · split <;> rfl
    · next hnot => exact absurd (fun t ht => by rw [hdone t ht]) hnot
  simp only [not_forall] at hdone
  obtain ⟨t, ht, hactive⟩ := hdone
  cases hpc : s.pc t with
  | done => exact absurd hpc hactive
  | raised e => exact ⟨_, propagate_enabled hmain ht hpc⟩
  | waiting =>
    rcases free with hsem | ⟨u, hu⟩
    · obtain ⟨node, hnode, rfl⟩ := hnode ht
      obtain ⟨s', h, _⟩ := waiting_enabled hnode hpc hsem
      exact ⟨s', h⟩
    · exact hholds hu
  | _ => exact hholds (by rw [hpc]; trivial)

/-- As long as the body has not ended, it can move, or the coroutines that it waits for can. -/
theorem Replays.enabled (inv : Replays E handler input s) (hend : ¬ s.Ended) :
    ∃ s', Step E handler.answers s s' := by
  by_cases hmain : s.main = .gathering
  · obtain ⟨sum, gen, rest, d, _⟩ := inv.during (by rw [hmain]; rfl)
    exact gathering_enabled handler.answering inv.unrecorded.located inv.unrecorded.idle hmain
      (fun t ht => (d.reached.fresh ((d.wave t).mp ht)).1) inv.free
  · obtain ⟨s', h⟩ := mainStep_enabled E hmain hend 0
    exact ⟨s', .main 0, trivial, h⟩

variable (hlock : E.reading.lock = true) (hall : E.reading.allSkipped = true)
  (htypes : ∀ node ∈ E.dag.nodes, node.taskType ≠ "condition")
include hlock hall htypes

/-- No run of a fresh execution goes on forever. -/
theorem Replays.halts (inv : Replays E handler input s) : Halts (Step E handler.answers) s := by
  have keep : ∀ s s', Replays E handler input s → Step E handler.answers s s' → Replays E handler input s' :=
    fun _ _ inv h => inv.step hlock hall htypes h
  refine halts_of_measure (RunState.measure E) keep (fun s s' inv h => ?_) inv
  have inv' := keep s s' inv h
  rcases step_cases h with h | ⟨node, hnode, h⟩
  · exact inv.measure_mainMove inv' h
  · exact inv.measure_nodeMove inv' hnode h

end BackendProjects.Workflow
