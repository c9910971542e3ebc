import BackendProjects.Workflow.BranchTermination
import BackendProjects.Workflow.Cancellation

/-! What a stored cancel does to a run that goes on: the run comes to its end, even where it would have turned
forever, and only the tasks that hold a permit get to their handlers. -/
namespace BackendProjects.Workflow
open Library

def HandlerEvent.task : HandlerEvent → TaskId
  | .started t _ _ | .returned t _ _ | .slept t _ => t

/-- How far the body is from its end once the cancel is stored. Only a pass that has read the status before
the cancel marks tasks or hands out a wave, and there are at most `n` tasks to mark. -/
def MainPc.cancelLeft (n : Nat) (current : Bool) : MainPc → Nat
  | .lookup => 5
  | .loaded => 4
  | .starting => 3
  | .loop => 2
  | .checking => if current then 1 else 2 * n + 8
  | .skipping sids => 2 * sids.length + 5
  | .skipCreating _ sids => 2 * sids.length + 6
  | .sleeping => 3
  | .gathering => 4
  | .final => 1
  | _ => 0

namespace RunState
variable (E : Engine) (b : Nat) (s : RunState)

/-- A bound on the attempts of a coroutine after the current one: what its row says, and `b` before it has one. -/
def attemptsLeft (node : DAGNode) : Nat :=
  ((s.pc node.taskId).row?.bind (s.works[·]?)).elim b fun w => w.maxAttempts - w.attempt

def movesBound (node : DAGNode) : Nat :=
  (s.pc node.taskId).movesLeft (s.attemptsLeft b node) + (s.pc node.taskId).branchMoves

def cancelLeft : Nat :=
  s.main.cancelLeft E.dag.nodes.length (decide (s.mem.execution.status = .cancelled))

def cancelRank : Nat ×ₗ Nat := toLex (s.cancelLeft E, (E.dag.nodes.map (s.movesBound b)).sum)

end RunState

variable {E : Engine} {answers : Answers} {node : DAGNode} {s s' : RunState} {rows db : Database}
  {c c' : CancelRun} {b : Nat} {t : TaskId} {te : Nat} {w : Work} {data : PyDict}

/-! ### What the coroutines rely on -/

/-- What holds of every run, whatever the rows, the answers and the cancel. -/
structure Orderly (E : Engine) (s : RunState) : Prop where
  permits : Permits E s
  located : Located s
  nodes : ∀ t ∈ s.wave, t ∈ E.dag.graph.nodes
  again : ∀ t te data, s.pc t = .sleeping te data → ∃ w, s.works[te]? = some w ∧ w.attempt < w.maxAttempts

private theorem Orderly.start (E : Engine) (db : Database) : Orderly E (.start E db) where
  permits := .start E db
  located := .start E db
  nodes := fun _ h => absurd h List.not_mem_nil
  again := fun _ _ _ h => by cases h

/-- A coroutine sleeps before an attempt that its row allows for. -/
private theorem NodeMove.sleeps (h : NodeMove E answers node s s') (hpc : s'.pc node.taskId = .sleeping te data) :
    ∃ w, s'.works[te]? = some w ∧ w.attempt < w.maxAttempts := by
  cases h
  case backOff hpc' hrow hlt _ =>
    rw [RunState.goto_pc, Function.update_self] at hpc
    cases hpc
    exact ⟨_, s.getElem?_works hrow, hlt⟩
  case answer =>
    rw [RunState.goto_pc, Function.update_self] at hpc
    split at hpc <;> cases hpc
  all_goals simp at hpc

private theorem Orderly.nodeMove (inv : Orderly E s) (h : NodeMove E answers node s s') : Orderly E s' where
  permits := inv.permits.nodeMove h
  located := inv.located.nodeMove h
  nodes := h.wave ▸ inv.nodes
  again := by
    intro t te data hpc
    by_cases ht : t = node.taskId
    · subst ht
      exact h.sleeps hpc
    · rw [h.pc_of_ne ht] at hpc
      obtain ⟨w, hw, hlt⟩ := inv.again t te data hpc
      obtain ⟨v, hv, hid⟩ := inv.located.own t te (by rw [hpc]; rfl)
      rw [hw] at hv
      cases hv
      exact ⟨w, h.works_of_ne inv.located hw (by rw [hid]; exact ht), hlt⟩

private theorem Orderly.mainMove (inv : Orderly E s) (h : MainMove E s s') : Orderly E s' where
  permits := inv.permits.mainMove h
  located := inv.located.mainMove inv.permits.idle h
  nodes := by
    rcases h.pc with ⟨_, hwave⟩ | ⟨_, _, hwave, _⟩ <;> rw [hwave]
    · exact inv.nodes
    · exact fun t ht => (E.dag.mem_readyIds.mp ht).1
  again := by
    intro t te data hpc'
    rcases h.pc with ⟨hpc, _⟩ | ⟨_, _, _, hpc⟩ <;> rw [hpc] at hpc'
    · obtain ⟨w, hw, hlt⟩ := inv.again t te data hpc'
      have hmain : s.main ≠ .lookup := by
        intro hmain
        rw [inv.permits.idle.between (by rw [hmain]; rfl) t] at hpc'
        cases hpc'
      exact ⟨w, h.works inv.located.agrees hmain hw, hlt⟩
    · dsimp only at hpc'
      split at hpc' <;> cases hpc'

private theorem Orderly.step (inv : Orderly E s) (h : Step E answers s s') : Orderly E s' := by
  rcases step_cases h with h | ⟨node, _, h⟩
  · exact inv.mainMove h
  · exact inv.nodeMove h

/-! ### The commit of the cancel -/

private theorem length_le_commitTasks (old new cur : List TaskExecution) :
    cur.length ≤ (commitTasks old new cur).length := by
  induction cur generalizing old new with
  | nil => exact Nat.zero_le _
  | cons c cur ih =>
    cases old with
    | nil => exact le_rfl
    | cons o old =>
      cases new with
      | nil => exact le_rfl
      | cons n new => exact Nat.succ_le_succ (ih old new)

private theorem NodeMove.length_le (h : NodeMove E answers node s s') :
    s.db.tasks.length ≤ s'.db.tasks.length := by
  cases h
  case begin => exact length_le_commitTasks _ _ _
  case answer => exact length_le_commitTasks _ _ _
  case again => exact length_le_commitTasks _ _ _
  case branchFound => exact length_le_commitTasks _ _ _
  case branchCreate => exact length_le_commitTasks _ _ _
  all_goals exact le_rfl

private theorem MainMove.length_le (h : MainMove E s s') : s.db.tasks.length ≤ s'.db.tasks.length := by
  cases h
  case start => exact length_le_commitTasks _ _ _
  case recordFailure => exact length_le_commitTasks _ _ _
  case complete => exact length_le_commitTasks _ _ _
  case skipFound => exact length_le_commitTasks _ _ _
  case skipCreate => exact length_le_commitTasks _ _ _
  case load =>
    obtain ⟨_, _, _, h⟩ := foldl_loadRow s.mem.tasks s
    rw [h]
  all_goals exact le_rfl

/-- A cancel of rows that it has loaded, current or not, keeps the work of all stored rows. -/
theorem commitTasks_cancel (now : Time) {old cur : List TaskExecution} (h : old.length ≤ cur.length) :
    (commitTasks old (old.map (·.cancel now)) cur).map TaskExecution.work = cur.map TaskExecution.work := by
  induction old generalizing cur with
  | nil => cases cur <;> rfl
  | cons o old ih =>
    cases cur with
    | nil => simp at h
    | cons c cur =>
      have hwork : (o.writeBack (o.cancel now) c).work = c.work := by
        have hsame := o.cancel_work now
        simp only [TaskExecution.work, Work.mk.injEq] at hsame
        simp [TaskExecution.work, TaskExecution.writeBack, hsame]
      simp only [List.map_cons, commitTasks, hwork, ih (Nat.le_of_succ_le_succ h)]

/-- The run is orderly, and no row has vanished since the cancel loaded its rows. -/
structure CancelRun.Orderly (E : Engine) (c : CancelRun) : Prop where
  run : Workflow.Orderly E c.run
  length : ∀ rows, c.cancel = .loaded rows → rows.tasks.length ≤ c.run.db.tasks.length

private theorem CancelRun.Orderly.step (inv : c.Orderly E) (h : CancelStep E answers c c') : c'.Orderly E := by
  cases h with
  | own h =>
    refine ⟨inv.run.step h, fun rows hc => (inv.length rows hc).trans ?_⟩
    rcases step_cases h with h | ⟨node, _, h⟩
    · exact h.length_le
    · exact h.length_le
  | load habsent =>
    refine ⟨inv.run, fun rows hc => ?_⟩
    cases hc
    exact le_rfl
  | commit now hloaded =>
    obtain ⟨permits, located, nodes, again⟩ := inv.run
    refine ⟨⟨⟨⟨permits.idle.outside, permits.idle.between⟩, permits.count⟩, ⟨?_, located.own⟩, nodes, again⟩,
      fun _ hc => by cases hc⟩
    rw [Agrees, AgreesOn, Database.commit_tasks, Database.cancelExecution,
      commitTasks_cancel now (inv.length _ hloaded)]
    exact located.agrees

/-- Before its end a run can go on, as long as the handlers answer. -/
private theorem Orderly.enabled (inv : Orderly E s) (hanswers : Answering answers) (hend : ¬ s.Ended) :
    ∃ s', Step E answers s s' := by
  by_cases hmain : s.main = .gathering
  · exact gathering_enabled hanswers inv.located inv.permits.idle hmain inv.nodes inv.permits.free_or_held
  · obtain ⟨s', h⟩ := mainStep_enabled E hmain hend 0
    exact ⟨s', .main 0, trivial, h⟩

/-! ### The moves that a coroutine has left -/

/-- No row has more attempts left than `b`, and no new row has more after its first one. -/
structure Spare (E : Engine) (b : Nat) (works : List Work) : Prop where
  works : ∀ w ∈ works, w.maxAttempts - w.attempt ≤ b
  new : ∀ node ∈ E.dag.nodes, E.maxAttempts node - 1 ≤ b

/-- Some bound holds of finitely many rows and nodes. -/
theorem exists_spare (E : Engine) (works : List Work) : ∃ b, Spare E b works := by
  have hle {A : Type} (f : A → Nat) {l : List A} {a : A} (ha : a ∈ l) : f a ≤ (l.map f).sum :=
    List.single_le_sum (fun _ _ => Nat.zero_le _) _ (List.mem_map_of_mem ha)
  exact ⟨(works.map fun w => w.maxAttempts - w.attempt).sum + (E.dag.nodes.map fun n => E.maxAttempts n - 1).sum,
    fun w hw => (hle (fun w : Work => w.maxAttempts - w.attempt) hw).trans (Nat.le_add_right ..),
    fun node hnode => (hle (fun n => E.maxAttempts n - 1) hnode).trans (Nat.le_add_left ..)⟩

namespace Spare
variable (h : Spare E b s.works)
include h

private theorem at_row (hw : s.works[te]? = some w) : w.maxAttempts - w.attempt ≤ b := h.works w
    (List.mem_of_getElem? hw)

private theorem refreshed (ha : Agrees s) : Spare E b s.refreshed.works := (RunState.works_refreshed ha).symm ▸ h

private theorem flush (hnode : node ∈ E.dag.nodes) : Spare E b (s.flush (.new E.settings node)).works := by
  refine ⟨fun w hw => ?_, h.new⟩
  rw [RunState.works_flush, List.mem_append, List.mem_singleton] at hw
  rcases hw with hw | rfl
  · exact h.works w hw
  · exact h.new node hnode

/-- A write that adds no attempts to its row. -/
theorem saveTask (te : Nat) (f : TaskExecution → TaskExecution)
    (hf : ∀ row : TaskExecution, (f row).maxAttempts - (f row).attempt ≤ row.maxAttempts - row.attempt) :
    Spare E b (s.saveTask te f).works := by
  refine ⟨fun w hw => ?_, h.new⟩
  obtain ⟨i, hi⟩ := List.getElem?_of_mem hw
  by_cases hte : i = te
  · subst hte
    obtain ⟨row, hrow, rfl⟩ := RunState.row_of_works hi
    obtain ⟨old, hold, rfl⟩ : ∃ old, s.mem.tasks[i]? = some old ∧ f old = row := by
      simpa using hrow
    exact (hf old).trans (h.at_row (s.getElem?_works hold))
  · rw [RunState.works_saveTask_of_ne _ _ _ hte] at hi
    exact h.at_row hi

private theorem nodeMove (ha : Agrees s) (hnode : E.dag.getTask node.taskId = .ok node)
    (hmove : NodeMove E answers node s s') : Spare E b s'.works := by
  cases hmove
  case acquire => exact h.refreshed ha
  case create => exact h.flush (E.dag.getTask_ok hnode).1
  case begin => exact h.saveTask _ (·.begin _) fun _ => le_rfl
  case answer now te _ _ outcome _ _ _ _ =>
    exact h.saveTask te (·.answered E.strOf now (taskTimeout E.settings node) outcome) fun _ => by simp
  case again => exact h.saveTask _ (·.again) fun row => Nat.sub_le_sub_left (Nat.le_succ row.attempt) row.maxAttempts
  case branchFound => exact h.saveTask _ (·.skip _) fun _ => le_rfl
  case branchCreate htarget => exact (h.flush (E.dag.getTask_ok htarget).1).saveTask _ (·.skip _) fun _ => le_rfl
  all_goals exact h

private theorem mainMove (ha : Agrees s) (hmove : MainMove E s s') : Spare E b s'.works := by
  cases hmove
  case lookup => exact ⟨fun w hw => h.works w (List.IsPrefix.subset ha hw), h.new⟩
  case load =>
    obtain ⟨_, _, _, hload⟩ := foldl_loadRow s.mem.tasks s
    rw [hload]
    exact h
  case iterate => exact h.refreshed ha
  case exit => exact h.refreshed ha
  case skipFound => exact h.saveTask _ (·.skip _) fun _ => le_rfl
  case skipCreate htarget => exact (h.flush (E.dag.getTask_ok htarget).1).saveTask _ (·.skip _) fun _ => le_rfl
  case settled => exact h.refreshed ha
  case gatheredFailed => exact h.refreshed ha
  all_goals exact h

end Spare

private theorem attemptsLeft_of_row (hrow : (s.pc node.taskId).row? = some te) (hw : s.works[te]? = some w) :
    s.attemptsLeft b node = w.maxAttempts - w.attempt := by
  simp [RunState.attemptsLeft, hrow, hw]

private theorem attemptsLeft_of_none (hrow : (s.pc node.taskId).row? = none) : s.attemptsLeft b node = b := by
  simp [RunState.attemptsLeft, hrow]

private theorem Spare.attemptsLeft_le (h : Spare E b s.works) (located : Located s) :
    s.attemptsLeft b node ≤ b := by
  cases hrow : (s.pc node.taskId).row? with
  | none => rw [attemptsLeft_of_none hrow]
  | some te =>
    obtain ⟨w, hw, _⟩ := located.own _ te hrow
    rw [attemptsLeft_of_row hrow hw]
    exact h.at_row hw

private theorem NodePc.over_or_moves (pc : NodePc) (n : Nat) :
    pc = .done ∨ (∃ e, pc = .raised e) ∨ 0 < pc.movesLeft n + pc.branchMoves := by
  cases pc <;> simp [NodePc.movesLeft, NodePc.branchMoves]

/-- Every move of a coroutine leaves it fewer moves, whatever its row and its handler say. -/
private theorem NodeMove.movesBound_lt (h : NodeMove E answers node s s') (inv : Orderly E s)
    (spare : Spare E b s.works)
    (hnode : E.dag.getTask node.taskId = .ok node) : s'.movesBound b node < s.movesBound b node := by
  have hpos : 0 < s.movesBound b node :=
    ((s.pc node.taskId).over_or_moves _).resolve_left h.pc_ne_done |>.resolve_left fun ⟨e, he⟩ => h.not_raised e he
  have hle : s'.attemptsLeft b node ≤ b :=
    (spare.nodeMove inv.located.agrees hnode h).attemptsLeft_le (inv.located.nodeMove h)
  by_cases hb : (s.pc node.taskId).Branches
  · obtain ⟨hlt, hnone⟩ := h.branchMoves_lt hb
    rw [RunState.movesBound, RunState.movesBound, hnone, NodePc.movesLeft_of_branches hb]
    omega
  -- the coroutine goes on with its row, which has as many attempts left
  have hsame {pc pc' : NodePc} {te : Nat} (hpc : s.pc node.taskId = pc) (hpc' : s'.pc node.taskId = pc')
      (hrow : pc.row? = some te) (hrow' : pc'.row? = some te)
      (hworks : ∀ v, s.works[te]? = some v → ∃ w, s'.works[te]? = some w ∧
        w.maxAttempts - w.attempt = v.maxAttempts - v.attempt)
      (hlt : ∀ n, pc'.movesLeft n + pc'.branchMoves < pc.movesLeft n + pc.branchMoves) :
      s'.movesBound b node < s.movesBound b node := by
    subst hpc hpc'
    obtain ⟨v, hv, _⟩ := inv.located.own _ te hrow
    obtain ⟨w, hw, hleft⟩ := hworks v hv
    rw [RunState.movesBound, RunState.movesBound, attemptsLeft_of_row hrow hv, attemptsLeft_of_row hrow' hw, hleft]
    exact hlt _
  cases h with
  | acquire hpc _ | enter hpc _ | missing hpc _ _ _ | found hpc _ _ _ | create hpc =>
    rw [RunState.movesBound, RunState.movesBound, hpc,
      attemptsLeft_of_none (show (s.pc node.taskId).row? = none by rw [hpc]; rfl)]
    simp only [RunState.goto_pc, Function.update_self, NodePc.movesLeft, NodePc.branchMoves]
    omega
  | cancelled | settled | fail | finish | branchThrow | throw =>
    refine lt_of_eq_of_lt ?_ hpos
    simp [RunState.movesBound, NodePc.movesLeft, NodePc.branchMoves]
  | prepare hpc _ | call hpc _ | exhausted hpc _ _ | backOff _ hpc _ _ _ | stop hpc _ _ =>
    exact hsame hpc (Function.update_self ..) rfl rfl (fun v hv => ⟨v, hv, rfl⟩)
      (fun n => by simp [NodePc.movesLeft, NodePc.branchMoves])
  | begin now hpc _ _ _ _ =>
    exact hsame hpc (Function.update_self ..) rfl rfl (fun v hv => ⟨v, (s.works_begin ..).symm ▸ hv, rfl⟩)
      (fun n => by simp [NodePc.movesLeft, NodePc.branchMoves])
  | @answer now te data row outcome hpc hrow _ _ =>
    refine hsame hpc (Function.update_self ..) rfl (by split <;> rfl) (fun v hv => ?_) (fun n => ?_)
    · rw [s.getElem?_works hrow] at hv
      cases hv
      exact ⟨_, RunState.works_saveTask_self _ te _ hrow, by simp [TaskExecution.work]⟩
    · split <;> simp [NodePc.movesLeft, NodePc.branchMoves]
  | @again te data hpc =>
    obtain ⟨w, hw, hlt⟩ := inv.again _ te data hpc
    obtain ⟨row, hrow, rfl⟩ := RunState.row_of_works hw
    have hleft : ((s.saveTask te (·.again)).goto node.taskId (.looping te data)).attemptsLeft b node =
        row.again.work.maxAttempts - row.again.work.attempt :=
      attemptsLeft_of_row (by rw [RunState.goto_pc, Function.update_self]; rfl)
        (RunState.works_saveTask_self s te _ hrow)
    rw [RunState.movesBound, RunState.movesBound, hleft, attemptsLeft_of_row (by rw [hpc]; rfl) hw, hpc]
    simp only [TaskExecution.work] at hlt
    simp only [RunState.goto_pc, Function.update_self, TaskExecution.work, TaskExecution.again, NodePc.movesLeft,
      NodePc.branchMoves]
    omega
  | branch hpc _ _ _ hskips =>
    have hlength := branchSkips_length hskips
    rw [RunState.movesBound, RunState.movesBound, hpc]
    simp only [RunState.goto_pc, Function.update_self, NodePc.movesLeft, NodePc.branchMoves]
    omega
  | branchDone hpc => exact absurd (by rw [hpc]; trivial) hb
  | branchFound _ hpc _ => exact absurd (by rw [hpc]; trivial) hb
  | branchMissing hpc _ => exact absurd (by rw [hpc]; trivial) hb
  | branchCreate _ hpc _ => exact absurd (by rw [hpc]; trivial) hb

/-- No move of another coroutine changes what a coroutine has left. -/
private theorem NodeMove.movesBound_of_ne {other : DAGNode} (h : NodeMove E answers node s s')
    (located : Located s)
    (hne : other.taskId ≠ node.taskId) : s'.movesBound b other = s.movesBound b other := by
  have hpc := h.pc_of_ne hne
  have hleft : s'.attemptsLeft b other = s.attemptsLeft b other := by
    cases hrow : (s.pc other.taskId).row? with
    | none => rw [attemptsLeft_of_none hrow, attemptsLeft_of_none (hpc ▸ hrow)]
    | some te =>
      obtain ⟨w, hw, hid⟩ := located.own _ _ hrow
      have hw' := h.works_of_ne located hw (by rw [hid]; exact hne)
      rw [attemptsLeft_of_row hrow hw, attemptsLeft_of_row (hpc ▸ hrow) hw']
  rw [RunState.movesBound, RunState.movesBound, hpc, hleft]

/-! ### The body -/

/-- The cancel is stored, and no start is about to replace it, until the body has returned. -/
structure CancelStored (s : RunState) : Prop where
  status : s.db.execution.status = .cancelled ∨ s.main = .returned
  start : s.main = .loaded → ¬ s.mem.execution.status.canTransitionTo .running

private theorem CancelStored.nodeMove (h : CancelStored s) (hmove : NodeMove E answers node s s') (idle : Idle s) :
    CancelStored s' where
  status := hmove.execution ▸ hmove.main ▸ h.status
  start := fun hmain => by
    have hg := idle.gathers hmove.pc_ne_done
    rw [hmove.main] at hmain
    rw [hmain] at hg
    cases hg

private theorem CancelStored.mainMove (h : CancelStored s) (hmove : MainMove E s s') : CancelStored s' where
  status := by
    rcases hmove.execution with hex | ⟨hmain, hstart⟩ | hmain
    · rw [hex]
      exact Or.inl (h.status.resolve_right hmove.main_ne_returned)
    · exact absurd hstart (h.start hmain)
    · exact Or.inr hmain
  start := fun hmain => by
    obtain ⟨hlookup, hmem⟩ := hmove.early.2.1 hmain
    rw [hmem, h.status.resolve_right (by simp [hlookup])]
    decide

/-- Each move of the body brings it closer to its end. -/
private theorem MainMove.cancelLeft_lt (hmove : MainMove E s s') (h : CancelStored s) :
    s'.cancelLeft E < s.cancelLeft E := by
  have hstored := h.status.resolve_right hmove.main_ne_returned
  cases hmove
  case start hmain hstart => exact absurd hstart (h.start hmain)
  case iterate hmain _ => simp [RunState.cancelLeft, hmain, MainPc.cancelLeft, hstored]
  case propagateSkips hmain hlive _ _ _ =>
    have hlength : (E.dag.tasksWithAllPredecessorsSkipped s.completed s.skipped).length ≤ E.dag.nodes.length := by
      rw [DAG.tasksWithAllPredecessorsSkipped, List.length_map]
      exact List.length_filter_le _ _
    simp only [RunState.cancelLeft, hmain, MainPc.cancelLeft, hlive, decide_false, Bool.false_eq_true, if_false]
    omega
  case recordFailure hmain hlive _ => simp [RunState.cancelLeft, hmain, MainPc.cancelLeft, hlive]
  case noLock hmain hlive _ _ => simp [RunState.cancelLeft, hmain, MainPc.cancelLeft, hlive]
  case noMethod hmain hlive _ _ => simp [RunState.cancelLeft, hmain, MainPc.cancelLeft, hlive]
  case cancelled hmain hc => simp [RunState.cancelLeft, hmain, MainPc.cancelLeft, hc]
  case skipMissing hmain _ =>
    simp only [RunState.cancelLeft, hmain, MainPc.cancelLeft, List.length_cons]
    omega
  all_goals simp [RunState.cancelLeft, *, MainPc.cancelLeft]

/-! ### Whole runs -/

structure Subsides (E : Engine) (b : Nat) (s : RunState) : Prop where
  orderly : Orderly E s
  spare : Spare E b s.works
  stored : CancelStored s

private theorem Subsides.step (inv : Subsides E b s) (h : Step E answers s s') :
    Subsides E b s' ∧ s'.cancelRank E b < s.cancelRank E b := by
  have horderly := inv.orderly.step h
  have hagrees := inv.orderly.located.agrees
  rw [RunState.cancelRank, RunState.cancelRank, Prod.Lex.toLex_lt_toLex]
  rcases step_cases h with hmove | ⟨node, hnode, hmove⟩
  · exact ⟨⟨horderly, inv.spare.mainMove hagrees hmove, inv.stored.mainMove hmove⟩,
      Or.inl (hmove.cancelLeft_lt inv.stored)⟩
  · refine ⟨⟨horderly, inv.spare.nodeMove hagrees hnode hmove,
      inv.stored.nodeMove hmove inv.orderly.permits.idle⟩, Or.inr ⟨?_, ?_⟩⟩
    · -- while a coroutine is under way, the place of the body says it all
      rw [RunState.cancelLeft, RunState.cancelLeft, hmove.main]
      rcases inv.orderly.permits.idle.main_of_active hmove.pc_ne_done with hmain | ⟨e, hmain⟩ <;> rw [hmain] <;> rfl
    · exact sum_moves_lt hnode (hmove.movesBound_lt inv.orderly inv.spare hnode)
        (fun other hne => hmove.movesBound_of_ne inv.orderly.located hne)

/-- A coroutine announces what its handler does while it holds a permit and has passed its check. -/
private theorem NodeMove.announces (h : NodeMove E answers node s s') : s'.trace = s.trace ∨
    (s.pc node.taskId).Holds ∧ s.pc node.taskId ≠ .checking ∧
      ∃ event, event.task = node.taskId ∧ s'.trace = s.trace ++ [event] := by
  cases h
  case call hpc _ => exact Or.inr ⟨by rw [hpc]; trivial, by simp [hpc], _, rfl, rfl⟩
  case answer hpc _ _ _ => exact Or.inr ⟨by rw [hpc]; trivial, by simp [hpc], _, rfl, rfl⟩
  case backOff hpc _ _ _ => exact Or.inr ⟨by rw [hpc]; trivial, by simp [hpc], _, rfl, rfl⟩
  all_goals exact Or.inl rfl

/-- The one move without a permit takes one, and reads the stored status. -/
private theorem NodeMove.acquires (h : NodeMove E answers node s s') (hfree : ¬ (s.pc node.taskId).Holds) :
    s'.pc node.taskId = .checking ∧ s'.mem.execution = s.db.execution := by
  cases h
  case acquire => exact ⟨Function.update_self .., rfl⟩
  case throw h => cases h <;> simp_all [NodePc.Holds]
  all_goals simp_all [NodePc.Holds]

/-- Who finds the execution cancelled does nothing more. -/
private theorem NodeMove.turns_away (h : NodeMove E answers node s s') (hpc : s.pc node.taskId = .checking)
    (hc : s.mem.execution.status = .cancelled) : s'.pc node.taskId = .done := by
  cases h
  case cancelled => exact Function.update_self ..
  case throw h => cases h <;> simp_all
  all_goals simp_all

/-- While a coroutine is under way, the body leaves the session's rows alone. -/
private theorem MainMove.mem_of_active (h : MainMove E s s') (idle : Idle s) (hactive : s.pc t ≠ .done) :
    s'.mem = s.mem := by
  have hwave := idle.mem_wave hactive
  have hgathers := idle.main_of_active hactive
  cases h
  case gathered hdone _ => exact absurd (hdone t hwave) hactive
  case gatheredFailed hdone _ => exact absurd (hdone t hwave) hactive
  case propagate => rfl
  all_goals simp_all

/-- Who held no permit when the cancel was stored gets one only to find the execution cancelled. -/
structure HeldBack (s₀ s : RunState) : Prop where
  later : ∃ later, s.trace = s₀.trace ++ later ∧ ∀ event ∈ later, (s₀.pc event.task).Holds
  turned : ∀ t, ¬ (s₀.pc t).Holds →
    ¬ (s.pc t).Holds ∨ s.pc t = .checking ∧ s.mem.execution.status = .cancelled

private theorem HeldBack.refl (s : RunState) : HeldBack s s :=
  ⟨⟨[], (List.append_nil _).symm, fun _ h => absurd h List.not_mem_nil⟩, fun _ h => Or.inl h⟩

private theorem HeldBack.nodeMove {s₀ : RunState} (held : HeldBack s₀ s) (stored : CancelStored s) (idle : Idle s)
    (h : NodeMove E answers node s s') : HeldBack s₀ s' := by
  have hstatus : s.db.execution.status = .cancelled := by
    refine stored.status.resolve_right fun hmain => h.pc_ne_done (idle.between (by rw [hmain]; rfl) _)
  refine ⟨?_, fun t ht => ?_⟩
  · obtain ⟨later, htrace, hlater⟩ := held.later
    rcases h.announces with hsame | ⟨hholds, hpassed, event, htask, hnew⟩
    · exact ⟨later, hsame.trans htrace, hlater⟩
    · refine ⟨later ++ [event], by rw [hnew, htrace, List.append_assoc], ?_⟩
      simp only [List.mem_append, List.mem_singleton]
      rintro e (he | rfl)
      · exact hlater e he
      · rw [htask]
        by_contra hno
        exact (held.turned _ hno).elim (fun h => h hholds) (fun h => hpassed h.1)
  · by_cases hne : t = node.taskId
    · subst hne
      rcases held.turned _ ht with hfree | ⟨hpc, hc⟩
      · obtain ⟨hpc', hmem⟩ := h.acquires hfree
        exact Or.inr ⟨hpc', hmem ▸ hstatus⟩
      · exact Or.inl (by rw [h.turns_away hpc hc]; exact id)
    · rw [h.pc_of_ne hne]
      refine (held.turned t ht).imp_right fun ⟨hpc, hc⟩ => ⟨hpc, ?_⟩
      rcases h.mem_execution with hmem | hmem <;> rw [hmem]
      · exact hc
      · exact hstatus

private theorem HeldBack.mainMove {s₀ : RunState} (held : HeldBack s₀ s) (idle : Idle s) (h : MainMove E s s') :
    HeldBack s₀ s' := by
  refine ⟨h.trace.symm ▸ held.later, fun t ht => ?_⟩
  rcases h.pc with ⟨hpc, _⟩ | ⟨_, _, _, hpc⟩ <;> rw [hpc]
  · refine (held.turned t ht).imp_right fun ⟨hchecking, hc⟩ => ⟨hchecking, ?_⟩
    rw [h.mem_of_active idle (by rw [hchecking]; exact nofun)]
    exact hc
  · refine Or.inl ?_
    dsimp only
    split <;> exact id

private theorem HeldBack.step {s₀ : RunState} (held : HeldBack s₀ s) (stored : CancelStored s) (idle : Idle s)
    (h : Step E answers s s') : HeldBack s₀ s' := by
  rcases step_cases h with h | ⟨node, _, h⟩
  · exact held.mainMove idle h
  · exact held.nodeMove stored idle h

structure Heeded (s : RunState) : Prop where
  status : s.db.execution.status = .cancelled
  start : s.main = .loaded → ¬ s.mem.execution.status.canTransitionTo .running
  checks : s.main = .checking ∨ s.main = .final → s.mem.execution.status = .cancelled

private theorem Heeded.nodeMove (h : Heeded s) (idle : Idle s) (hmove : NodeMove E answers node s s') :
    Heeded s' := by
  have hgathers := idle.main_of_active hmove.pc_ne_done
  rw [← hmove.main] at hgathers
  refine ⟨hmove.execution ▸ h.status, fun hmain => ?_, fun hmain => ?_⟩
  · simp [hmain] at hgathers
  · rcases hmain with hmain | hmain <;> simp [hmain] at hgathers

private theorem Heeded.mainMove (h : Heeded s) (hmove : MainMove E s s') : Heeded s' := by
  obtain ⟨hstatus, hstart, hchecks⟩ := h
  cases hmove
  case start hmain h => exact absurd h (hstart hmain)
  case recordFailure hmain hlive _ => exact absurd (hchecks (Or.inl hmain)) hlive
  case complete hmain hlive _ _ => exact absurd (hchecks (Or.inr hmain)) hlive
  case load =>
    obtain ⟨_, _, _, hload⟩ := foldl_loadRow s.mem.tasks s
    rw [hload]
    exact ⟨hstatus, nofun, by simp⟩
  case lookup => exact ⟨hstatus, fun _ => by rw [hstatus]; decide, by simp⟩
  case iterate => exact ⟨hstatus, nofun, fun _ => hstatus⟩
  case exit => exact ⟨hstatus, nofun, fun _ => hstatus⟩
  case settled => exact ⟨hstatus, nofun, fun _ => hstatus⟩
  case gatheredFailed => exact ⟨hstatus, nofun, fun _ => hstatus⟩
  all_goals exact ⟨by simpa using hstatus, nofun, by simp⟩

private theorem Heeded.step (heeded : Heeded s) (idle : Idle s) (h : Step E answers s s') : Heeded s' := by
  rcases step_cases h with h | ⟨node, _, h⟩
  · exact heeded.mainMove h
  · exact heeded.nodeMove idle h

private theorem CancelStep.of_committed (h : CancelStep E answers c c') (hc : c.cancel = .committed rows) :
    Step E answers c.run c'.run ∧ c'.cancel = .committed rows := by
  cases h with
  | own h => exact ⟨h, hc⟩
  | load habsent => simp [hc] at habsent
  | commit now hloaded => simp [hc] at hloaded

/-- After the commit the run goes on alone, and what each of its steps keeps holds of all that it comes to. -/
private theorem Subsides.after_commit (inv : Subsides E b c.run) (hc : c.cancel = .committed rows)
    (rest : Run (CancelStep E answers) c c') (P : RunState → Prop) (h : P c.run)
    (keep : ∀ s s', Subsides E b s → P s → Step E answers s s' → P s') : Subsides E b c'.run ∧ P c'.run := by
  have hstep : ∀ d d', d.cancel = .committed rows ∧ Subsides E b d.run ∧ P d.run → CancelStep E answers d d' →
      d'.cancel = .committed rows ∧ Subsides E b d'.run ∧ P d'.run := by
    rintro d d' ⟨hd, inv, hP⟩ h
    have hown := h.of_committed hd
    exact ⟨hown.2, (inv.step hown.1).1, keep _ _ inv hP hown.1⟩
  exact (rest.invariant hstep ⟨hc, inv, h⟩).2

/-- Once a cancel is stored and no start is about to replace it, the run comes to its end, be it one that would
have turned forever; only the tasks that hold a permit at that moment do anything more with their handlers; and
the execution stays cancelled, unless the body is about to act on a status that it read before. -/
theorem cancelled_run_ends (hanswers : Answering answers) (run : Run (CancelStep E answers) (.start E db) c)
    (hc : c.cancel = .committed rows) (hstatus : c.run.db.execution.status = .cancelled)
    (hstart : c.run.main = .loaded → ¬ c.run.mem.execution.status.canTransitionTo .running) :
    Halts (CancelStep E answers) c ∧ ∀ c', Run (CancelStep E answers) c c' →
      (Terminal (CancelStep E answers) c' → c'.run.Ended) ∧
      (∃ later, c'.run.trace = c.run.trace ++ later ∧ ∀ event ∈ later, (c.run.pc event.task).Holds) ∧
      ((c.run.main = .checking ∨ c.run.main = .final → c.run.mem.execution.status = .cancelled) →
        c'.run.db.execution.status = .cancelled) := by
  have horderly : c.Orderly E :=
    Run.invariant (fun _ _ inv h => inv.step h) run ⟨.start E db, fun _ h => by cases h⟩
  obtain ⟨b, hspare⟩ := exists_spare E c.run.works
  have inv : Subsides E b c.run := ⟨horderly.run, hspare, ⟨Or.inl hstatus, hstart⟩⟩
  refine ⟨?_, fun c' rest => ⟨fun hterm => ?_, ?_, fun hcurrent => ?_⟩⟩
  · have hkeep : ∀ d d', d.cancel = .committed rows ∧ Subsides E b d.run → CancelStep E answers d d' →
        d'.cancel = .committed rows ∧ Subsides E b d'.run := by
      rintro d d' ⟨hd, inv⟩ h
      have hown := h.of_committed hd
      exact ⟨hown.2, (inv.step hown.1).1⟩
    exact halts_of_measure (fun d : CancelRun => d.run.cancelRank E b) hkeep
      (fun d d' inv h => (inv.2.step (h.of_committed inv.1).1).2) ⟨hc, inv⟩
  · obtain ⟨inv', _⟩ := inv.after_commit hc rest (fun _ => True) trivial fun _ _ _ _ _ => trivial
    by_contra hend
    obtain ⟨s, h⟩ := inv'.orderly.enabled hanswers hend
    exact hterm _ (.own h)
  · exact (inv.after_commit hc rest (HeldBack c.run) (.refl c.run) fun _ _ inv held h =>
      held.step inv.stored inv.orderly.permits.idle h).2.later
  · exact (inv.after_commit hc rest Heeded ⟨hstatus, hstart, hcurrent⟩ fun _ _ inv heeded h =>
      heeded.step inv.orderly.permits.idle h).2.status

/-! ### A diamond whose join waits forever -/

private def takenBranch : Outcome := .result ⟨true, .dict [(.str "result", .bool true)], none, 0⟩

private def stallingSchedule : List Choice :=
  body 6 ++ coroutine "c" 12 takenBranch ++ body 4 ++ coroutine "a" 9 takenBranch ++ body 4

private def stalled (s : RunState) : Bool :=
  s.main = .sleeping ∧ s.db.execution.status = .running ∧ diamondEngine.dag.Sleepy s.completed s.skipped

/-- The run of the diamond that finds nothing to do in its passes ends once it is cancelled. -/
theorem cancelled_run_ends_diamond : ∃ c, c.run.main = .sleeping ∧
    diamondEngine.dag.Sleepy c.run.completed c.run.skipped ∧ Halts (CancelStep diamondEngine succeeding) c ∧
    ∀ c', Run (CancelStep diamondEngine succeeding) c c' → c'.run.db.execution.status = .cancelled := by
  have htrue : ∀ node attempt input, succeeding node attempt input takenBranch := fun _ _ _ => rfl
  obtain ⟨s, run, hs⟩ := exists_run diamondEngine succeeding stallingSchedule (.start diamondEngine ⟨{}, []⟩) stalled
    (possible_append (possible_append (possible_append (possible_append (possible_body _ 6)
      (possible_coroutine "c" 12 htrue)) (possible_body _ 4)) (possible_coroutine "a" 9 htrue)) (possible_body _ 4))
    (by decide +kernel)
  obtain ⟨hmain, hrunning, hsleepy⟩ := of_decide_eq_true hs
  have hcancel : Run (CancelStep diamondEngine succeeding) (.start diamondEngine ⟨{}, []⟩)
      ⟨{ s with db := s.db.commit (s.db.cancelExecution 0) s.db }, .committed s.db⟩ :=
    ((CancelRun.lift .absent run).tail (.load rfl)).tail (.commit 0 rfl)
  have hlegal : s.db.execution.status.canTransitionTo .cancelled := by
    rw [hrunning]
    decide
  have hstatus : (s.db.commit (s.db.cancelExecution 0) s.db).execution.status = .cancelled := by
    rw [cancelExecution_fresh]
    simp [Database.cancelExecution, WorkflowExecution.cancel, hlegal]
  have hstart : s.main = .loaded → ¬ s.mem.execution.status.canTransitionTo .running := by
    intro h
    cases hmain.symm.trans h
  have hanswers : Answering succeeding := fun _ _ _ => ⟨takenBranch, rfl⟩
  obtain ⟨halts, hall⟩ := cancelled_run_ends hanswers hcancel rfl hstatus hstart
  refine ⟨_, hmain, hsleepy, halts, fun c' rest => (hall c' rest).2.2 fun h => ?_⟩
  rw [hmain] at h
  rcases h with h | h <;> cases h

end BackendProjects.Workflow
