import BackendProjects.Workflow.BranchRuns
import BackendProjects.Workflow.Checkpoints
import BackendProjects.Workflow.Lifecycle

/-! Runs over the rows that earlier definitions have left behind. The exit test compares numbers, so that a run
goes through rounds that the rows and the DAG alone determine, and stops at the first one that is large enough. -/
namespace BackendProjects.Workflow
open Library

/-- A step of the run, or whatever other sessions leave in the store, short of a cancel. A change before the lookup
of the rows is one before the run. -/
inductive Overlapped (E : Engine) (answers : Answers) : RunState → RunState → Prop
  | own {s s' : RunState} (h : Step E answers s s') : Overlapped E answers s s'
  | foreign {s : RunState} {db : Database} (hmain : s.main ≠ .lookup) (h : db.execution.status ≠ .cancelled) :
      Overlapped E answers s { s with db := db }

/-! ### Rounds -/

namespace DAG
variable (dag : DAG) {C : Finset TaskId} {k : Nat}

def roundsFrom (C : Finset TaskId) : Nat → Finset TaskId
  | 0 => C
  | k + 1 => roundsFrom C k ∪ (dag.readyIds (roundsFrom C k) ∅).toFinset

/-- The k-th round is the first one that counts as many tasks as there are. -/
def FirstFull (C : Finset TaskId) (k : Nat) : Prop :=
  dag.nodes.length ≤ (dag.roundsFrom C k).card ∧ ∀ j < k, (dag.roundsFrom C j).card < dag.nodes.length

variable {dag}

private theorem FirstFull.unique {j : Nat} (hk : dag.FirstFull C k) (hj : dag.FirstFull C j) : j = k := by
  rcases Nat.lt_trichotomy j k with h | h | h
  · exact absurd (hk.2 j h) (Nat.not_lt.mpr hj.1)
  · exact h
  · exact absurd (hj.2 k h) (Nat.not_lt.mpr hk.1)

/-- Rounds add tasks of the DAG only. -/
theorem roundsFrom_sdiff_subset (k : Nat) : dag.roundsFrom C k \ dag.allTaskIds ⊆ C \ dag.allTaskIds := by
  induction k with
  | zero => exact subset_rfl
  | succ k ih =>
    intro t ht
    obtain ⟨hin, hnot⟩ := Finset.mem_sdiff.mp ht
    rcases Finset.mem_union.mp hin with hin | hin
    · exact ih (Finset.mem_sdiff.mpr ⟨hin, hnot⟩)
    · exact absurd (dag.mem_allTaskIds.mpr (dag.mem_readyIds.mp (List.mem_toFinset.mp hin)).1) hnot

/-- For every task that a full round leaves out, something else has been counted. -/
private theorem FirstFull.missing_le (h : dag.FirstFull C k) :
    (dag.allTaskIds \ dag.roundsFrom C k).card ≤ (C \ dag.allTaskIds).card := by
  calc (dag.allTaskIds \ dag.roundsFrom C k).card
      ≤ (dag.roundsFrom C k \ dag.allTaskIds).card :=
        Finset.card_sdiff_le_card_sdiff_iff.mpr (dag.card_allTaskIds.trans_le h.1)
    _ ≤ (C \ dag.allTaskIds).card := Finset.card_le_card (roundsFrom_sdiff_subset k)

end DAG

variable {E : Engine} {answers : Answers} {rows : List TaskExecution} {db : Database} {s s' : RunState}
  {node : DAGNode} {t : TaskId} {k : Nat}

/-! ### What a run counts -/

def MainPc.Between : MainPc → Prop
  | .loop | .checking | .skipping [] | .sleeping => True
  | _ => False

/-- Where a run stands in the rounds from the completed rows. -/
inductive Counted (E : Engine) (rows : List TaskExecution) (s : RunState) : Prop
  | early (hmain : s.main = .lookup ∧ s.db.tasks = rows ∨
        (s.main = .loaded ∨ s.main = .starting) ∧ s.mem.tasks = rows)
      (hcompleted : s.completed = ∅)
  | between (k : Nat) (hmain : s.main.Between) (hcompleted : s.completed = E.dag.roundsFrom (completedIds rows) k)
      (hless : ∀ j < k, (E.dag.roundsFrom (completedIds rows) j).card < E.dag.nodes.length)
      (hnext : s.main ≠ .loop → s.completed.card < E.dag.nodes.length)
  | wave (k : Nat) (hmain : s.main = .gathering)
      (hwave : s.wave = E.dag.readyIds (E.dag.roundsFrom (completedIds rows) k) ∅)
      (hless : ∀ j < k + 1, (E.dag.roundsFrom (completedIds rows) j).card < E.dag.nodes.length)
      (hcompleted : s.failed = false →
        ∀ t, t ∈ s.completed ↔ t ∈ E.dag.roundsFrom (completedIds rows) k ∨ t ∈ s.wave ∧ s.pc t = .done)
  | final (k : Nat) (hmain : s.main = .final) (hcompleted : s.completed = E.dag.roundsFrom (completedIds rows) k)
      (hfull : E.dag.FirstFull (completedIds rows) k)
  | lost (h : s.main = .final ∧ s.failed = true ∨ s.main.ends = true)

structure Counting (E : Engine) (rows : List TaskExecution) (s : RunState) : Prop where
  idle : Idle s
  stored : s.db.execution.status ≠ .cancelled
  live : s.main ≠ .lookup → s.mem.execution.status ≠ .cancelled
  skipped : s.skipped = ∅
  straight : ∀ t, ¬ (s.pc t).Branches
  counted : Counted E rows s

private theorem Counting.start (E : Engine) (h : db.execution.status ≠ .cancelled) :
    Counting E db.tasks (.start E db) where
  idle := .start E db
  stored := h
  live := fun hmain => absurd rfl hmain
  skipped := rfl
  straight := fun _ => id
  counted := .early (Or.inl ⟨rfl, rfl⟩) rfl

/-! ### The coroutines -/

/-- Without conditions, a coroutine marks no task. -/
private theorem NodeMove.straight (h : NodeMove E answers node s s') (htype : node.taskType ≠ "condition")
    (hb : ¬ (s.pc node.taskId).Branches) : ¬ (s'.pc node.taskId).Branches ∧ s'.skipped = s.skipped := by
  refine ⟨?_, ?_⟩
  · cases h
    case branch htype' _ _ => exact absurd htype' htype
    case branchFound hpc _ => exact absurd (by rw [hpc]; trivial) hb
    case branchMissing hpc _ => exact absurd (by rw [hpc]; trivial) hb
    case branchCreate hpc _ => exact absurd (by rw [hpc]; trivial) hb
    case answer outcome _ _ _ _ => cases outcome.ok <;> simp [NodePc.Branches]
    all_goals simp [NodePc.Branches]
  · rcases h.skipped with hs | ⟨sid, toSkip, hpc, _, _⟩
    · exact hs
    · exact absurd (by rw [hpc]; trivial) hb

/-- A coroutine that publishes its task ends with it, if there is no branch to take. -/
private theorem NodeMove.publishes_done (h : NodeMove E answers node s s') (htype : node.taskType ≠ "condition") :
    s'.completed = s.completed ∨ s'.completed = insert node.taskId s.completed ∧ s'.pc node.taskId = .done := by
  cases h
  case finish => exact Or.inr ⟨rfl, Function.update_self ..⟩
  case branch htype' _ _ => exact absurd htype' htype
  case branchThrow htype' _ => exact absurd htype' htype
  all_goals exact Or.inl rfl

private theorem Counted.nodeMove (inv : Counting E rows s) (htype : node.taskType ≠ "condition")
    (h : NodeMove E answers node s s') : Counted E rows s' := by
  have hne := h.pc_ne_done
  have hg := inv.idle.gathers hne
  cases inv.counted with
  | early hmain _ => rcases hmain with ⟨hm, _⟩ | ⟨hm | hm, _⟩ <;> rw [hm] at hg <;> cases hg
  | between k hmain _ _ _ =>
    cases hm : s.main <;> rw [hm] at hg hmain <;> first | exact hmain.elim | cases hg
  | final k hmain _ _ =>
    rw [hmain] at hg
    cases hg
  | lost h' =>
    rcases h' with ⟨hmain, _⟩ | hends
    · rw [hmain] at hg
      cases hg
    · exact .lost (Or.inr (by rwa [h.main]))
  | wave k hmain hwave hless hcompleted =>
    refine .wave k (h.main.trans hmain) (h.wave.trans hwave) hless fun hfailed u => ?_
    have hfailed' : s.failed = false := by
      by_contra hf
      rw [h.failed_mono (by simpa using hf)] at hfailed
      cases hfailed
    have hbefore := hcompleted hfailed'
    rw [h.wave]
    by_cases hu : u = node.taskId
    · subst hu
      have hin := inv.idle.mem_wave hne
      have hnew : node.taskId ∉ E.dag.roundsFrom (completedIds rows) k := by
        rw [hwave] at hin
        exact (E.dag.mem_readyIds.mp hin).2.1
      have hnot : node.taskId ∉ s.completed := fun hc => ((hbefore _).mp hc).elim hnew fun hd => hne hd.2
      constructor
      · intro hc
        rcases h.publishes_done htype with hsame | ⟨_, hdone⟩
        · exact absurd (hsame ▸ hc) hnot
        · exact Or.inr ⟨hin, hdone⟩
      · rintro (hc | ⟨_, hdone⟩)
        · exact absurd hc hnew
        · have hmem := inv.live (by rw [hmain]; simp)
          rcases h.settles hdone hmem (fun hb => absurd hb (inv.straight _)) with hc | hs | hf
          · exact hc
          · rw [(h.straight htype (inv.straight _)).2, inv.skipped] at hs
            exact absurd hs (Finset.notMem_empty _)
          · rw [hfailed] at hf
            cases hf
    · rw [h.completed_of_ne hu, h.pc_of_ne hu]
      exact hbefore u

private theorem Counting.nodeMove (inv : Counting E rows s) (htype : node.taskType ≠ "condition")
    (h : NodeMove E answers node s s') : Counting E rows s' where
  idle := inv.idle.nodeMove h
  stored := by
    rw [h.execution]
    exact inv.stored
  live := by
    intro hmain
    rw [h.main] at hmain
    rcases h.mem_execution with heq | heq <;> rw [heq]
    · exact inv.live hmain
    · exact inv.stored
  skipped := (h.straight htype (inv.straight _)).2.trans inv.skipped
  straight := by
    intro t
    by_cases ht : t = node.taskId
    · subst ht
      exact (h.straight htype (inv.straight _)).1
    · rw [h.pc_of_ne ht]
      exact inv.straight t
  counted := .nodeMove inv htype h

/-! ### The body -/

private theorem Counted.before_load (h : Counted E rows s)
    (hmain : s.main = .lookup ∨ s.main = .loaded ∨ s.main = .starting) :
    s.completed = ∅ ∧ (s.main = .lookup → s.db.tasks = rows) ∧ (s.main ≠ .lookup → s.mem.tasks = rows) := by
  cases h with
  | early hm hcompleted =>
    rcases hm with ⟨hm, hrows⟩ | ⟨hm, hrows⟩
    · exact ⟨hcompleted, fun _ => hrows, fun hne => absurd hm hne⟩
    · refine ⟨hcompleted, fun hlookup => ?_, fun _ => hrows⟩
      rcases hm with hm | hm <;> rw [hlookup] at hm <;> cases hm
  | between k hm _ _ _ => rcases hmain with h | h | h <;> rw [h] at hm <;> exact hm.elim
  | wave k hm _ _ _ => rcases hmain with h | h | h <;> rw [h] at hm <;> cases hm
  | final k hm _ _ => rcases hmain with h | h | h <;> rw [h] at hm <;> cases hm
  | lost hm =>
    rcases hm with ⟨hm, _⟩ | hm <;> rcases hmain with h | h | h <;> rw [h] at hm <;> cases hm

private theorem Counted.in_between (h : Counted E rows s) (hmain : s.main.Between) : ∃ k,
    s.completed = E.dag.roundsFrom (completedIds rows) k ∧
    (∀ j < k, (E.dag.roundsFrom (completedIds rows) j).card < E.dag.nodes.length) ∧
    (s.main ≠ .loop → s.completed.card < E.dag.nodes.length) := by
  cases h with
  | early hm _ => rcases hm with ⟨h, _⟩ | ⟨h | h, _⟩ <;> rw [h] at hmain <;> exact hmain.elim
  | between k _ hcompleted hless hnext => exact ⟨k, hcompleted, hless, hnext⟩
  | wave k hm _ _ _ => rw [hm] at hmain; exact hmain.elim
  | final k hm _ _ => rw [hm] at hmain; exact hmain.elim
  | lost hm =>
    rcases hm with ⟨hm, _⟩ | hm
    · rw [hm] at hmain
      exact hmain.elim
    · cases h : s.main <;> rw [h] at hm hmain <;> first | exact hmain.elim | cases hm

private theorem Counted.in_wave (h : Counted E rows s) (hmain : s.main = .gathering) : ∃ k,
    s.wave = E.dag.readyIds (E.dag.roundsFrom (completedIds rows) k) ∅ ∧
    (∀ j < k + 1, (E.dag.roundsFrom (completedIds rows) j).card < E.dag.nodes.length) ∧
    (s.failed = false →
      ∀ t, t ∈ s.completed ↔ t ∈ E.dag.roundsFrom (completedIds rows) k ∨ t ∈ s.wave ∧ s.pc t = .done) := by
  cases h with
  | early hm _ => rcases hm with ⟨h, _⟩ | ⟨h | h, _⟩ <;> rw [h] at hmain <;> cases hmain
  | between k hm _ _ _ => rw [hmain] at hm; exact hm.elim
  | wave k _ hwave hless hcompleted => exact ⟨k, hwave, hless, hcompleted⟩
  | final k hm _ _ => rw [hm] at hmain; cases hmain
  | lost hm => rcases hm with ⟨hm, _⟩ | hm <;> rw [hmain] at hm <;> cases hm

/-- Without skipped tasks, the body finds none to mark. -/
private theorem Counted.marks_none (h : Counted E rows s) :
    (∀ sid sids, s.main ≠ .skipping (sid :: sids)) ∧ ∀ sid sids, s.main ≠ .skipCreating sid sids := by
  cases h with
  | early hm _ => rcases hm with ⟨h, _⟩ | ⟨h | h, _⟩ <;> simp [h]
  | between k hm _ _ _ => constructor <;> intro sid sids h <;> rw [h] at hm <;> exact hm.elim
  | wave k hm _ _ _ => simp [hm]
  | final k hm _ _ => simp [hm]
  | lost hm => constructor <;> intro sid sids h <;> rcases hm with ⟨hm, _⟩ | hm <;> rw [h] at hm <;> cases hm

/-- What the body writes to the execution cancels nothing. -/
private theorem RunState.saveExecution_uncancelled {ex : WorkflowExecution}
    (hdb : s.db.execution.status ≠ .cancelled)
    (hex : ex.status ≠ .cancelled) : (s.saveExecution ex).db.execution.status ≠ .cancelled := by
  rw [RunState.saveExecution_db, Database.commit_execution, WorkflowExecution.writeBack_status]
  rcases writeBack_eq_or s.mem.execution.status ex.status s.db.execution.status with h | h <;> rw [h] <;> assumption

private theorem MainMove.uncancelled (h : MainMove E s s') (hdb : s.db.execution.status ≠ .cancelled)
    (hmem : s.main ≠ .lookup → s.mem.execution.status ≠ .cancelled) :
    s'.db.execution.status ≠ .cancelled ∧ s'.mem.execution.status ≠ .cancelled := by
  cases h
  case lookup => exact ⟨hdb, hdb⟩
  case start now hmain _ =>
    have hrunning : (s.mem.execution.start now).status ≠ .cancelled := by simp [WorkflowExecution.start]
    exact ⟨RunState.saveExecution_uncancelled hdb hrunning, hrunning⟩
  case recordFailure now hmain hlive _ =>
    have hfail : (s.mem.execution.fail now).status ≠ .cancelled := by
      rcases WorkflowExecution.fail_status s.mem.execution now with h | ⟨_, h⟩ <;> rw [h]
      · exact hlive
      · decide
    exact ⟨RunState.saveExecution_uncancelled hdb hfail, hfail⟩
  case complete now ex hmain _ _ hex =>
    have hdone : ex.status ≠ .cancelled := by
      rw [(WorkflowExecution.complete_ok hex).2]
      decide
    exact ⟨RunState.saveExecution_uncancelled hdb hdone, hdone⟩
  case load hmain =>
    obtain ⟨_, _, _, h⟩ := foldl_loadRow s.mem.tasks s
    rw [h]
    exact ⟨hdb, hmem (by simp [hmain])⟩
  case iterate => exact ⟨hdb, hdb⟩
  case exit => exact ⟨hdb, hdb⟩
  case settled => exact ⟨hdb, hdb⟩
  case gatheredFailed => exact ⟨hdb, hdb⟩
  case skipFound now sid sids te hmain _ => exact ⟨by simpa using hdb, hmem (by simp [hmain])⟩
  case skipCreate now sid sids target hmain _ => exact ⟨by simpa using hdb, hmem (by simp [hmain])⟩
  all_goals exact ⟨hdb, hmem (by simp [*])⟩

private theorem Counting.skipped_mainMove (inv : Counting E rows s) (hrows : ∀ row ∈ rows, row.status ≠ .skipped)
    (h : MainMove E s s') : s'.skipped = ∅ := by
  cases h
  case load hmain =>
    obtain ⟨_, _, htasks⟩ := inv.counted.before_load (Or.inr (Or.inr hmain))
    refine Finset.eq_empty_of_forall_notMem fun t ht => ?_
    rcases (mem_skipped_load _ _ _).mp ht with ht | ⟨row, hrow, hstatus, _⟩
    · rw [inv.skipped] at ht
      exact Finset.notMem_empty _ ht
    · rw [htasks (by simp [hmain])] at hrow
      exact hrows row hrow hstatus
  case skipFound now sid sids te hmain _ => exact absurd hmain (inv.counted.marks_none.1 sid sids)
  case skipMissing sid sids hmain _ => exact absurd hmain (inv.counted.marks_none.1 sid sids)
  case skipCreate now sid sids target hmain _ => exact absurd hmain (inv.counted.marks_none.2 sid sids)
  all_goals exact inv.skipped

private theorem Counted.mainMove (inv : Counting E rows s) (h : MainMove E s s') : Counted E rows s' := by
  cases h
  case lookup hmain =>
    obtain ⟨hcompleted, htasks, _⟩ := inv.counted.before_load (Or.inl hmain)
    exact .early (Or.inr ⟨Or.inl rfl, htasks hmain⟩) hcompleted
  case start now hmain _ =>
    obtain ⟨hcompleted, _, htasks⟩ := inv.counted.before_load (Or.inr (Or.inl hmain))
    exact .early (Or.inr ⟨Or.inr rfl, htasks (by simp [hmain])⟩) hcompleted
  case noStart hmain _ =>
    obtain ⟨hcompleted, _, htasks⟩ := inv.counted.before_load (Or.inr (Or.inl hmain))
    exact .early (Or.inr ⟨Or.inr rfl, htasks (by simp [hmain])⟩) hcompleted
  case load hmain =>
    obtain ⟨hcompleted, _, htasks⟩ := inv.counted.before_load (Or.inr (Or.inr hmain))
    refine .between 0 trivial ?_ (fun j hj => absurd hj (Nat.not_lt_zero j)) fun hne => absurd rfl hne
    ext t
    rw [mem_completed_load, hcompleted, htasks (by simp [hmain])]
    simp [DAG.roundsFrom, mem_completedIds]
  case iterate hmain hlt =>
    obtain ⟨k, hcompleted, hless, _⟩ := inv.counted.in_between (by rw [hmain]; trivial)
    exact .between k trivial hcompleted hless fun _ => by simpa [inv.skipped] using hlt
  case exit hmain hle =>
    obtain ⟨k, hcompleted, hless, _⟩ := inv.counted.in_between (by rw [hmain]; trivial)
    refine .final k rfl hcompleted ⟨?_, hless⟩
    rw [← hcompleted]
    simpa [inv.skipped] using hle
  case propagateSkips hmain hlive hfailed _ _ =>
    obtain ⟨k, hcompleted, hless, hnext⟩ := inv.counted.in_between (by rw [hmain]; trivial)
    refine .between k ?_ hcompleted hless fun _ => hnext (by simp [hmain])
    rw [inv.skipped, DAG.tasksWithAllPredecessorsSkipped_empty]
    trivial
  case skipFound now sid sids te hmain _ => exact absurd hmain (inv.counted.marks_none.1 sid sids)
  case skipMissing sid sids hmain _ => exact absurd hmain (inv.counted.marks_none.1 sid sids)
  case skipCreate now sid sids target hmain _ => exact absurd hmain (inv.counted.marks_none.2 sid sids)
  case settled hmain _ hle =>
    obtain ⟨k, hcompleted, hless, _⟩ := inv.counted.in_between (by rw [hmain]; trivial)
    refine .final k rfl hcompleted ⟨?_, hless⟩
    rw [← hcompleted]
    simpa [inv.skipped] using hle
  case sleep hmain _ _ =>
    obtain ⟨k, hcompleted, hless, hnext⟩ := inv.counted.in_between (by rw [hmain]; trivial)
    exact .between k trivial hcompleted hless fun _ => hnext (by simp [hmain])
  case gather hmain _ =>
    obtain ⟨k, hcompleted, hless, hnext⟩ := inv.counted.in_between (by rw [hmain]; trivial)
    have hshort := hnext (by simp [hmain])
    rw [hcompleted] at hshort
    refine .wave k rfl (by rw [hcompleted, inv.skipped]) (fun j hj => ?_) fun _ t => ?_
    · rcases Nat.lt_succ_iff_lt_or_eq.mp hj with hj | rfl
      · exact hless j hj
      · exact hshort
    · dsimp only
      rw [hcompleted]
      refine ⟨Or.inl, fun hin => hin.resolve_right ?_⟩
      rintro ⟨hwave, hdone⟩
      rw [if_pos hwave] at hdone
      cases hdone
  case wake hmain =>
    obtain ⟨k, hcompleted, hless, _⟩ := inv.counted.in_between (by rw [hmain]; trivial)
    exact .between k trivial hcompleted hless fun hne => absurd rfl hne
  case gathered hmain hdone hfailed =>
    -- The wave is over, and all of it is completed.
    obtain ⟨k, hwave, hless, hcompleted⟩ := inv.counted.in_wave hmain
    refine .between (k + 1) trivial ?_ hless fun hne => absurd rfl hne
    ext t
    rw [hcompleted hfailed t, DAG.roundsFrom, Finset.mem_union, List.mem_toFinset, ← hwave]
    exact or_congr_right (and_iff_left_of_imp (hdone t))
  case gatheredFailed hmain _ hfailed => exact .lost (Or.inl ⟨rfl, hfailed⟩)
  all_goals exact .lost (Or.inr rfl)

private theorem Counting.mainMove (inv : Counting E rows s) (hrows : ∀ row ∈ rows, row.status ≠ .skipped)
    (h : MainMove E s s') : Counting E rows s' where
  idle := inv.idle.mainMove h
  stored := (h.uncancelled inv.stored inv.live).1
  live := fun _ => (h.uncancelled inv.stored inv.live).2
  skipped := inv.skipped_mainMove hrows h
  straight := by
    intro t
    rcases h.pc with ⟨hpc, _⟩ | ⟨_, _, _, hpc⟩ <;> rw [hpc]
    · exact inv.straight t
    · dsimp only
      split <;> exact id
  counted := .mainMove inv h

/-! ### Overlapping sessions -/

private theorem Counting.foreign (inv : Counting E rows s) (hmain : s.main ≠ .lookup)
    (h : db.execution.status ≠ .cancelled) : Counting E rows { s with db := db } := by
  refine ⟨⟨inv.idle.outside, inv.idle.between⟩, h, inv.live, inv.skipped, inv.straight, ?_⟩
  cases inv.counted with
  | early hm hcompleted => exact .early (Or.inr (hm.resolve_left fun hm => hmain hm.1)) hcompleted
  | between k hm hcompleted hless hnext => exact .between k hm hcompleted hless hnext
  | wave k hm hwave hless hcompleted => exact .wave k hm hwave hless hcompleted
  | final k hm hcompleted hfull => exact .final k hm hcompleted hfull
  | lost hm => exact .lost hm

private theorem Counting.step (inv : Counting E rows s)
    (htypes : ∀ node ∈ E.dag.nodes, node.taskType ≠ "condition")
    (hrows : ∀ row ∈ rows, row.status ≠ .skipped) (h : Overlapped E answers s s') : Counting E rows s' := by
  cases h with
  | own h =>
    rcases step_cases h with h | ⟨node, hnode, h⟩
    · exact inv.mainMove hrows h
    · exact inv.nodeMove (htypes node (E.dag.getTask_ok hnode).1) h
  | foreign hmain h => exact inv.foreign hmain h

/-- A run that nobody cancels, over rows of whatever definitions, completes the execution after the first round that
counts as many tasks as the DAG has. So the rows and the DAG decide which tasks are completed then, whatever the
handlers answer and other sessions write, and no more tasks are left out than rows were stale. -/
theorem stale_rows_decide_completion (htypes : ∀ node ∈ E.dag.nodes, node.taskType ≠ "condition")
    (hlive : db.execution.status ≠ .cancelled) (hrows : ∀ row ∈ db.tasks, row.status ≠ .skipped)
    (run : Run (Overlapped E answers) (.start E db) s) (hstep : Step E answers s s') (hcompletes : Completes s s') :
    s'.skipped = ∅ ∧ (∃ k, E.dag.FirstFull (completedIds db.tasks) k ∧
      (∀ j, E.dag.FirstFull (completedIds db.tasks) j → j = k) ∧
      s'.completed = E.dag.roundsFrom (completedIds db.tasks) k) ∧
    (E.dag.allTaskIds \ s'.completed).card ≤ (completedIds db.tasks \ E.dag.allTaskIds).card := by
  have keep : ∀ u u', Counting E db.tasks u → Overlapped E answers u u' → Counting E db.tasks u' :=
    fun _ _ inv h => inv.step htypes hrows h
  have inv : Counting E db.tasks s := run.invariant keep (.start E hlive)
  have inv' : Counting E db.tasks s' := inv.step htypes hrows (.own hstep)
  obtain ⟨hmain, hbefore, hafter⟩ := hcompletes
  have hsame : s'.completed = s.completed ∧ s.failed = false := by
    rcases step_cases hstep with h | ⟨node, _, h⟩
    · refine ⟨(h.completed (by simp [hmain])).1, ?_⟩
      cases h
      case complete _ hfailed _ => exact hfailed
      all_goals simp_all
    · have hg := inv.idle.gathers h.pc_ne_done
      rw [hmain] at hg
      cases hg
  obtain ⟨k, hcompleted, hfull⟩ : ∃ k, s.completed = E.dag.roundsFrom (completedIds db.tasks) k ∧
      E.dag.FirstFull (completedIds db.tasks) k := by
    cases inv.counted with
    | early hm _ => rcases hm with ⟨h, _⟩ | ⟨h | h, _⟩ <;> rw [h] at hmain <;> cases hmain
    | between k hm _ _ _ => rw [hmain] at hm; exact hm.elim
    | wave k hm _ _ _ => rw [hm] at hmain; cases hmain
    | final k _ hcompleted hfull => exact ⟨k, hcompleted, hfull⟩
    | lost hm =>
      rcases hm with ⟨_, hfailed⟩ | hm
      · rw [hsame.2] at hfailed
        cases hfailed
      · rw [hmain] at hm
        cases hm
  rw [hsame.1, hcompleted]
  exact ⟨inv'.skipped, ⟨k, hfull, fun _ hj => hfull.unique hj, rfl⟩, hfull.missing_le⟩

/-! ### Two tasks in a row, and the row of a task that is gone -/

private def oneResult : Outcome := .result ⟨true, .int 1, none, 0⟩

private def completesEarly (s : RunState) : Bool :=
  decide (s.main = .final ∧ s.mem.execution.status ≠ .completed) &&
    (step (chainEngine .repaired) (.main 0) s).any fun s' =>
      s'.mem.execution.status = .completed && decide ("b" ∉ s'.completed)

theorem stale_rows_decide_completion_chain : ∃ s s',
    Step (chainEngine .repaired) anyAnswer s s' ∧ Completes s s' ∧
    "b" ∉ s'.completed ∧ ((chainEngine .repaired).dag.allTaskIds \ s'.completed).card ≤ 1 := by
  obtain ⟨s, run, hs⟩ := exists_run (chainEngine .repaired) anyAnswer
    (body 6 ++ coroutine "a" 9 oneResult ++ body 2)
    (.start (chainEngine .repaired) (rowCompleted "z")) completesEarly
    (possible_append (possible_append (possible_body _ 6) (possible_coroutine "a" 9 fun _ _ _ => trivial))
      (possible_body _ 2)) (by decide +kernel)
  simp only [completesEarly, Bool.and_eq_true, decide_eq_true_eq] at hs
  obtain ⟨⟨hmain, hbefore⟩, hstep⟩ := hs
  obtain ⟨s', hs', hafter⟩ := (Option.any_eq_true _ _).mp hstep
  simp only [Bool.and_eq_true, decide_eq_true_eq] at hafter
  have taken : Step (chainEngine .repaired) anyAnswer s s' := ⟨.main 0, trivial, hs'⟩
  have hcompletes : Completes s s' := ⟨hmain, hbefore, hafter.1⟩
  have htypes : ∀ node ∈ (chainEngine .repaired).dag.nodes, node.taskType ≠ "condition" := by decide +kernel
  have hmissing := (stale_rows_decide_completion htypes (by decide) (by decide) (run.weaken fun _ _ h => .own h)
    taken hcompletes).2.2
  refine ⟨s, s', taken, hcompletes, hafter.2, hmissing.trans ?_⟩
  decide +kernel

end BackendProjects.Workflow
