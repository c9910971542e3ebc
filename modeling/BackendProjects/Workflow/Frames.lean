import BackendProjects.Workflow.Moves

/-! What a move leaves alone: the other coroutines, the sets, and the part of every row that
only the row's own coroutine works on. -/
namespace BackendProjects.Workflow
open Library
variable {E : Engine} {answers : Answers} {node : DAGNode} {s s' : RunState} {t : TaskId}

/-! ### The other coroutines and the body -/

theorem NodeMove.main (h : NodeMove E answers node s s') : s'.main = s.main := by
  cases h <;> rfl

theorem NodeMove.wave (h : NodeMove E answers node s s') : s'.wave = s.wave := by
  cases h <;> rfl

theorem NodeMove.pc_of_ne (h : NodeMove E answers node s s') (ht : t ≠ node.taskId) :
    s'.pc t = s.pc t := by
  cases h <;> simp [ht]

theorem NodeMove.pc_ne_done (h : NodeMove E answers node s s') : s.pc node.taskId ≠ .done := by
  cases h
  case throw h => cases h <;> simp [*]
  all_goals simp [*]

theorem NodeMove.completed_of_ne (h : NodeMove E answers node s s') (ht : t ≠ node.taskId) :
    t ∈ s'.completed ↔ t ∈ s.completed := by
  cases h <;> simp [ht]

theorem NodeMove.completed_mono (h : NodeMove E answers node s s') : s.completed ⊆ s'.completed := by
  cases h <;> simp

theorem NodeMove.skipped_mono (h : NodeMove E answers node s s') : s.skipped ⊆ s'.skipped := by
  cases h <;> simp

/-- What a coroutine's move adds to the skipped tasks is the next task that its condition marks. -/
theorem NodeMove.skipped (h : NodeMove E answers node s s') :
    s'.skipped = s.skipped ∨ ∃ sid toSkip, s.pc node.taskId = .branching (sid :: toSkip) ∧
      s'.pc node.taskId ≠ s.pc node.taskId ∧ s'.skipped = insert sid s.skipped := by
  cases h
  case branchFound now sid toSkip te hpc h =>
    exact Or.inr ⟨sid, toSkip, hpc, by simp [hpc], rfl⟩
  case branchMissing sid toSkip hpc h =>
    exact Or.inr ⟨sid, toSkip, hpc, by simp [hpc], rfl⟩
  all_goals exact Or.inl rfl

theorem NodeMove.failed_mono (h : NodeMove E answers node s s') (hf : s.failed = true) :
    s'.failed = true := by
  cases h <;> simp [hf]

theorem NodeMove.taskOutputs_of_key (h : NodeMove E answers node s s') {key : PyValue}
    (hkey : key ≠ .str node.taskId) : s'.taskOutputs.get? key = s.taskOutputs.get? key := by
  have hpublish (output : PyValue) :
      (s.publish node.taskId output).taskOutputs.get? key = s.taskOutputs.get? key := by
    rw [RunState.publish_taskOutputs]
    split
    · exact PyDict.get?_set_of_ne _ hkey _
    · rfl
  cases h
  case finish => exact hpublish _
  case branch => exact hpublish _
  case branchThrow => exact hpublish _
  all_goals rfl

theorem NodeMove.taskOutputs_of_ne (h : NodeMove E answers node s s') (ht : t ≠ node.taskId) :
    s'.taskOutputs.get? (.str t) = s.taskOutputs.get? (.str t) :=
  h.taskOutputs_of_key (by simpa using ht)

/-- Only a coroutine with a verdict against it raises the flag. -/
theorem NodeMove.failed_iff (h : NodeMove E answers node s s') :
    s'.failed = true ↔ s.failed = true ∨ ∃ te, s.pc node.taskId = .finishing te false := by
  cases h
  case throw h => cases h <;> simp [*]
  all_goals simp [*]

/-- A coroutine publishes its task at the end of its attempts, with the output of its row. -/
theorem NodeMove.published (h : NodeMove E answers node s s') :
    (s'.completed = s.completed ∧ s'.taskOutputs = s.taskOutputs ∧
      ∀ te, s.pc node.taskId ≠ .finishing te true) ∨
    ∃ te row, s.pc node.taskId = .finishing te true ∧ s.mem.tasks[te]? = some row ∧
      s'.completed = insert node.taskId s.completed ∧
      s'.taskOutputs = (s.publish node.taskId row.outputData).taskOutputs := by
  cases h
  case finish te row hpc hrow htype => exact Or.inr ⟨te, row, hpc, hrow, rfl, rfl⟩
  case branch te row toSkip hpc hrow htype hlock h => exact Or.inr ⟨te, row, hpc, hrow, rfl, rfl⟩
  case branchThrow te row e hpc hrow htype h => exact Or.inr ⟨te, row, hpc, hrow, rfl, rfl⟩
  case throw h => cases h <;> exact Or.inl ⟨rfl, rfl, by simp [*]⟩
  all_goals exact Or.inl ⟨rfl, rfl, by simp [*]⟩

theorem NodeMove.completed (h : NodeMove E answers node s s') :
    s'.completed = s.completed ∨
      s'.completed = insert node.taskId s.completed ∧ ∃ te, s.pc node.taskId = .finishing te true := by
  rcases h.published with ⟨hc, _⟩ | ⟨te, row, hpc, _, hc, _⟩
  · exact Or.inl hc
  · exact Or.inr ⟨hc, te, hpc⟩

/-- A coroutine never writes the row of the execution. -/
theorem NodeMove.execution (h : NodeMove E answers node s s') : s'.db.execution = s.db.execution := by
  cases h <;> simp

/-- The session's copy of the execution stays or is refreshed. -/
theorem NodeMove.mem_execution (h : NodeMove E answers node s s') :
    s'.mem.execution = s.mem.execution ∨ s'.mem.execution = s.db.execution := by
  cases h <;> simp

/-! ### Loading the rows -/

/-- Loading touches the two sets and the outputs only. -/
theorem foldl_loadRow (rows : List TaskExecution) (s : RunState) : ∃ completed skipped taskOutputs,
    rows.foldl loadRow s =
      { s with completed := completed, skipped := skipped, taskOutputs := taskOutputs } := by
  induction rows generalizing s with
  | nil => exact ⟨s.completed, s.skipped, s.taskOutputs, rfl⟩
  | cons row rows ih =>
    obtain ⟨c, k, o, h⟩ := ih (loadRow s row)
    refine ⟨c, k, o, ?_⟩
    rw [List.foldl_cons, h, loadRow]
    split
    · rfl
    · split <;> rfl

theorem mem_completed_load (rows : List TaskExecution) (s : RunState) (t : TaskId) :
    t ∈ (rows.foldl loadRow s).completed ↔
      t ∈ s.completed ∨ ∃ row ∈ rows, row.status = .completed ∧ row.taskDefinitionId = t := by
  induction rows generalizing s with
  | nil => simp
  | cons row rows ih =>
    rw [List.foldl_cons, ih, loadRow]
    split
    · next h => simp [h, eq_comm, or_assoc, or_left_comm]
    · next h => split <;> simp [h]

theorem mem_skipped_load (rows : List TaskExecution) (s : RunState) (t : TaskId) :
    t ∈ (rows.foldl loadRow s).skipped ↔
      t ∈ s.skipped ∨ ∃ row ∈ rows, row.status = .skipped ∧ row.taskDefinitionId = t := by
  induction rows generalizing s with
  | nil => simp
  | cons row rows ih =>
    rw [List.foldl_cons, ih, loadRow]
    split
    · next h => simp [h]
    · next h =>
      split
      · next h => simp [h, eq_comm, or_assoc, or_left_comm]
      · next h => simp [h]

/-! ### The body -/

theorem MainMove.trace (h : MainMove E s s') : s'.trace = s.trace := by
  cases h
  case load =>
    obtain ⟨_, _, _, h⟩ := foldl_loadRow s.mem.tasks s
    rw [h]
  all_goals rfl

theorem MainMove.sem (h : MainMove E s s') : s'.sem = s.sem := by
  cases h
  case load =>
    obtain ⟨_, _, _, h⟩ := foldl_loadRow s.mem.tasks s
    rw [h]
  all_goals rfl

theorem MainMove.failed (h : MainMove E s s') : s'.failed = s.failed := by
  cases h
  case load =>
    obtain ⟨_, _, _, h⟩ := foldl_loadRow s.mem.tasks s
    rw [h]
  all_goals rfl

/-- Once loaded, the completed tasks are the coroutines' business. -/
theorem MainMove.completed (h : MainMove E s s') (hmain : s.main ≠ .starting) :
    s'.completed = s.completed ∧ s'.taskOutputs = s.taskOutputs := by
  cases h
  case load h => exact absurd h hmain
  all_goals exact ⟨rfl, rfl⟩

/-- The stages before the loop follow each other, and the rows are those of the lookup. -/
theorem MainMove.early (h : MainMove E s s') : s'.main ≠ .lookup ∧
    (s'.main = .loaded → s.main = .lookup ∧ s'.mem = s.db) ∧
    (s'.main = .starting → s.main = .loaded ∧ s'.mem.tasks = s.mem.tasks) := by
  cases h
  case lookup hmain => exact ⟨by simp, fun _ => ⟨hmain, rfl⟩, by simp⟩
  case start hmain _ => exact ⟨by simp, by simp, fun _ => ⟨hmain, rfl⟩⟩
  case noStart hmain _ => exact ⟨by simp, by simp, fun _ => ⟨hmain, rfl⟩⟩
  all_goals exact ⟨by simp, by simp, by simp⟩

/-- The rows are loaded in one move. -/
theorem MainMove.load_of_starting (h : MainMove E s s') (hmain : s.main = .starting) :
    s' = { s.mem.tasks.foldl loadRow s with main := .loop } := by
  cases h
  case load => rfl
  all_goals simp_all

/-- The body touches the coroutines only when it hands out a new wave of them. -/
theorem MainMove.pc (h : MainMove E s s') : s'.pc = s.pc ∧ s'.wave = s.wave ∨
    s.main = .skipping [] ∧ s'.main = .gathering ∧
      s'.wave = E.dag.readyIds s.completed s.skipped ∧
      s'.pc = fun t => if t ∈ s'.wave then .waiting else .done := by
  cases h
  case gather hmain hready => exact Or.inr ⟨hmain, rfl, rfl, rfl⟩
  case load =>
    obtain ⟨_, _, _, h⟩ := foldl_loadRow s.mem.tasks s
    rw [h]
    exact Or.inl ⟨rfl, rfl⟩
  all_goals exact Or.inl ⟨rfl, rfl⟩

/-! ### Who can be under way -/

def MainPc.gathers : MainPc → Bool
  | .gathering | .raised _ => true
  | _ => false

theorem MainPc.gathers_iff {m : MainPc} : m.gathers = true ↔ m = .gathering ∨ ∃ e, m = .raised e := by
  cases m <;> simp [gathers]

def MainPc.ends : MainPc → Bool
  | .returned | .raised _ => true
  | _ => false

theorem RunState.Ended.ends (h : s.Ended) : s.main.ends = true := by
  rcases h with h | ⟨e, h⟩ <;> rw [h] <;> rfl

/-- Only the tasks of the wave are under way, and only while the body gathers them. -/
structure Idle (s : RunState) : Prop where
  outside : ∀ t, t ∉ s.wave → s.pc t = .done
  between : s.main.gathers = false → ∀ t, s.pc t = .done

theorem Idle.start (E : Engine) (db : Database) : Idle (.start E db) :=
  ⟨fun _ _ => rfl, fun _ _ => rfl⟩

theorem Idle.gathers (idle : Idle s) (h : s.pc t ≠ .done) : s.main.gathers = true := by
  by_contra hg
  exact h (idle.between (by simpa using hg) t)

theorem Idle.main_of_active (idle : Idle s) (h : s.pc t ≠ .done) :
    s.main = .gathering ∨ ∃ e, s.main = .raised e :=
  MainPc.gathers_iff.mp (idle.gathers h)

theorem Idle.mem_wave (idle : Idle s) (h : s.pc t ≠ .done) : t ∈ s.wave := by
  by_contra hw
  exact h (idle.outside t hw)

/-- The body leaves a wave behind only when all of it has ended. -/
private theorem MainMove.done (h : MainMove E s s') (hs : s.main.gathers = true)
    (hg : s'.main.gathers = false) : ∀ t ∈ s.wave, s.pc t = .done := by
  cases h
  case gathered hmain hdone hfailed => exact hdone
  case gatheredFailed hmain hdone hfailed => exact hdone
  case propagate => cases hg
  case gather => cases hg
  all_goals simp_all [MainPc.gathers]

theorem Idle.mainMove (idle : Idle s) (h : MainMove E s s') : Idle s' := by
  rcases h.pc with ⟨hpc, hwave⟩ | ⟨_, hmain, _, hpc⟩
  · refine ⟨?_, ?_⟩
    · rw [hpc, hwave]
      exact idle.outside
    · intro hg t
      rw [hpc]
      by_cases hs : s.main.gathers = true
      · by_cases hw : t ∈ s.wave
        · exact h.done hs hg t hw
        · exact idle.outside t hw
      · exact idle.between (by simpa using hs) t
  · refine ⟨fun t ht => ?_, fun hg => ?_⟩
    · rw [hpc]
      exact if_neg ht
    · rw [hmain] at hg
      cases hg

theorem Idle.nodeMove (idle : Idle s) (h : NodeMove E answers node s s') : Idle s' := by
  have hg := idle.gathers h.pc_ne_done
  refine ⟨fun t ht => ?_, fun hn => ?_⟩
  · rw [h.wave] at ht
    have hne : t ≠ node.taskId := fun heq => ht (heq ▸ idle.mem_wave h.pc_ne_done)
    rw [h.pc_of_ne hne]
    exact idle.outside t ht
  · rw [h.main, hg] at hn
    cases hn

theorem Idle.step (idle : Idle s) (h : Step E answers s s') : Idle s' := by
  rcases step_cases h with h | ⟨node, _, h⟩
  · exact idle.mainMove h
  · exact idle.nodeMove h

end BackendProjects.Workflow
