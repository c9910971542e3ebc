import BackendProjects.Workflow.Works

/-! A cancel that another session loads and commits while a run goes on: when it holds the run
back from further attempts, and keeps its marks on the task rows. -/
namespace BackendProjects.Workflow
open Library

inductive CancelPhase where
  | absent
  | loaded (rows : Database)
  | committed (rows : Database)

structure CancelRun where
  run : RunState
  cancel : CancelPhase

def CancelRun.start (E : Engine) (db : Database) : CancelRun := ⟨.start E db, .absent⟩

inductive CancelStep (E : Engine) (answers : Answers) (c : CancelRun) : CancelRun → Prop
  | own {s : RunState} (h : Step E answers c.run s) : CancelStep E answers c { c with run := s }
  | load (h : c.cancel = .absent) :
      CancelStep E answers c { c with cancel := .loaded c.run.db }
  | commit (now : Time) {rows : Database} (h : c.cancel = .loaded rows) :
      CancelStep E answers c {
        run := { c.run with db := rows.commit (rows.cancelExecution now) c.run.db }
        cancel := .committed rows }

def TaskExecution.Cancellable (te : TaskExecution) : Prop :=
  te.status = .pending ∨ te.status = .running
  deriving Decidable

def CancelsRow (rows : Database) (i : Nat) : Prop :=
  ∃ row, rows.tasks[i]? = some row ∧ row.Cancellable

/-- No attempt is under way: none has been committed without an answer since. -/
def Quiet (s : RunState) : Prop :=
  ∀ t te input, s.pc t ≠ .running te input ∧ s.pc t ≠ .handling te input

def Marks (s s' : RunState) (i : Nat) : Prop :=
  (∃ sid sids, s.main = .skipping (sid :: sids) ∧ s'.main ≠ s.main ∧
    findTask s.mem.tasks sid = some i) ∨
  ∃ t sid toSkip, s.pc t = .branching (sid :: toSkip) ∧ s'.pc t ≠ s.pc t ∧
    findTask s.mem.tasks sid = some i

/-- The cancel commits what is current, between attempts and not over a pending start; later
the retry loops read a current status, and no cancelled task is marked as skipped. -/
structure Effective (c c' : CancelRun) : Prop where
  commits : ∀ rows, c.cancel = .loaded rows → c'.cancel = .committed rows →
    c.run.db = rows ∧ rows.execution.status.canTransitionTo .cancelled ∧
      c.run.main ≠ .loaded ∧ Quiet c.run
  checks : ∀ rows, c.cancel = .committed rows → ∀ t te input, c.run.pc t = .looping te input →
    c'.run.pc t ≠ c.run.pc t → c.run.mem.execution.status = c.run.db.execution.status
  marks : ∀ rows, c.cancel = .committed rows → ∀ i, CancelsRow rows i → ¬ Marks c.run c'.run i

def HandlerEvent.isStart : HandlerEvent → Bool
  | .started _ _ _ => true
  | _ => false

def RunState.attempts (s : RunState) : List HandlerEvent := s.trace.filter HandlerEvent.isStart

variable {E : Engine} {answers : Answers} {node : DAGNode} {s s' : RunState} {rows db : Database}
  {c c' : CancelRun}

/-! ### Before the commit -/

private theorem AgreesOn.isPrefix (h : AgreesOn id s) : s.db.tasks <+: s.mem.tasks := by
  simpa [AgreesOn] using h

theorem RunState.tasks_refreshed (h : AgreesOn id s) : s.refreshed.mem.tasks = s.mem.tasks := by
  simpa using RunState.view_refreshed h

theorem TaskExecution.answered_failed (te : TaskExecution) (strOf : PyValue → String) (now : Time)
    (timeout : Int) {outcome : Outcome} (hok : outcome.ok = false)
    (hcaught : ∀ e, outcome ≠ .raises e) : (te.answered strOf now timeout outcome).status = .failed := by
  cases outcome with
  | result r =>
    have hr : r.success = false := hok
    simp [answered, record, hr]
  | timeout => rfl
  | raises e => exact absurd rfl (hcaught e)

theorem TaskExecution.answered_status (te : TaskExecution) (strOf : PyValue → String) (now : Time)
    (timeout : Int) {outcome : Outcome} (hok : outcome.ok = true) :
    (te.answered strOf now timeout outcome).status = .completed := by
  cases outcome with
  | result r =>
    have hr : r.success = true := hok
    simp [answered, record, hr]
  | timeout => cases hok
  | raises e => cases hok

private theorem modify_skip {tasks : List TaskExecution} {i : Nat} {row : TaskExecution} (te : Nat)
    (now : Time) (h : tasks[i]? = some row) :
    (tasks.modify te (·.skip now))[i]? = some row ∨
      (tasks.modify te (·.skip now))[i]? = some (row.skip now) := by
  by_cases hi : te = i
  · exact Or.inr (by simp [h, hi])
  · exact Or.inl (by simp [h, hi])

private theorem append_row {tasks : List TaskExecution} {i : Nat} {row : TaskExecution}
    (new : TaskExecution) (h : tasks[i]? = some row) : (tasks ++ [new])[i]? = some row := by
  rw [List.getElem?_append_left (List.getElem?_eq_some_iff.mp h).1, h]

/-- A coroutine leaves the rows of others as they are, or marks them as skipped. -/
private theorem NodeMove.mem_row (h : NodeMove E answers node s s') (ha : AgreesOn id s) {i : Nat}
    {row : TaskExecution} (hne : (s.pc node.taskId).row? ≠ some i) (hrow : s.mem.tasks[i]? = some row) :
    s'.mem.tasks[i]? = some row ∨ ∃ now, s'.mem.tasks[i]? = some (row.skip now) := by
  have hother {te : Nat} (f : TaskExecution → TaskExecution) (hpc : (s.pc node.taskId).row? = some te) :
      (s.mem.tasks.modify te f)[i]? = some row := by
    have hi : te ≠ i := fun h => hne (h ▸ hpc)
    simp [hrow, hi]
  cases h
  case acquire =>
    refine Or.inl ?_
    rw [RunState.goto_mem, RunState.tasks_refreshed (show AgreesOn id { s with sem := s.sem - 1 } from ha)]
    exact hrow
  case create => exact Or.inl (append_row _ hrow)
  case begin hpc _ _ _ _ => exact Or.inl (hother _ (by rw [hpc]; rfl))
  case answer hpc _ _ _ => exact Or.inl (hother _ (by rw [hpc]; rfl))
  case again hpc => exact Or.inl (hother _ (by rw [hpc]; rfl))
  case branchFound now _ _ te _ _ =>
    exact (modify_skip te now hrow).imp_right (fun h => ⟨now, h⟩)
  case branchCreate now _ _ target _ _ =>
    exact (modify_skip s.mem.tasks.length now (append_row (.new E.settings target) hrow)).imp_right
      (fun h => ⟨now, h⟩)
  all_goals exact Or.inl hrow

/-- So does the body, once it has loaded its rows. -/
private theorem MainMove.mem_row (h : MainMove E s s') (ha : AgreesOn id s) (hmain : s.main ≠ .lookup)
    {i : Nat} {row : TaskExecution} (hrow : s.mem.tasks[i]? = some row) :
    s'.mem.tasks[i]? = some row ∨ ∃ now, s'.mem.tasks[i]? = some (row.skip now) := by
  have hrefreshed : s.refreshed.mem.tasks[i]? = some row := by
    rw [RunState.tasks_refreshed ha, hrow]
  cases h
  case lookup h => exact absurd h hmain
  case load =>
    obtain ⟨_, _, _, h⟩ := foldl_loadRow s.mem.tasks s
    rw [h]
    exact Or.inl hrow
  case iterate => exact Or.inl hrefreshed
  case exit => exact Or.inl hrefreshed
  case skipFound now _ _ te _ _ => exact (modify_skip te now hrow).imp_right (fun h => ⟨now, h⟩)
  case skipCreate now _ _ node _ _ =>
    exact (modify_skip s.mem.tasks.length now (append_row (.new E.settings node) hrow)).imp_right
      (fun h => ⟨now, h⟩)
  case settled => exact Or.inl hrefreshed
  case gatheredFailed => exact Or.inl hrefreshed
  all_goals exact Or.inl hrow

private theorem kept_or_skipped {found : Option TaskExecution} {old : TaskExecution}
    (h : found = some old ∨ ∃ now, found = some (old.skip now)) (hc : ¬ old.Cancellable) :
    ∀ row, found = some row → ¬ row.Cancellable := by
  rintro row rfl
  rcases h with h | ⟨now, h⟩
  · cases h
    exact hc
  · cases h
    simp [TaskExecution.Cancellable, TaskExecution.skip]

def NodePc.between? : NodePc → Option Nat
  | .attemptFailed te _ | .sleeping te _ => some te
  | _ => none

private theorem NodePc.row?_of_between {pc : NodePc} {te : Nat} (h : pc.between? = some te) :
    pc.row? = some te := by
  cases pc <;> first | exact h | cases h

/-- The session shows what is stored, and a row between two attempts is none to cancel. -/
structure Uncancelled (s : RunState) : Prop where
  idle : Idle s
  located : Located s
  agrees : AgreesOn id s
  between : ∀ t te, (s.pc t).between? = some te → ∀ row, s.mem.tasks[te]? = some row →
    ¬ row.Cancellable

private theorem Uncancelled.start (E : Engine) (db : Database) : Uncancelled (.start E db) where
  idle := Idle.start E db
  located := Located.start E db
  agrees := List.prefix_refl _
  between := fun _ _ h => by cases h

/-- The last answer has left the row as failed. -/
private theorem NodeMove.between (h : NodeMove E answers node s s') {te : Nat}
    (hpc' : (s'.pc node.taskId).between? = some te) :
    (s.pc node.taskId).between? = some te ∧ s'.mem = s.mem ∨
      (∃ input, s.pc node.taskId = .handling te input) ∧
        ∃ row, s'.mem.tasks[te]? = some row ∧ row.status = .failed := by
  cases h
  case answer now te' input row outcome hpc hrow hlegal hcaught =>
    rw [RunState.goto_pc, Function.update_self] at hpc'
    split at hpc'
    · cases hpc'
    next hok =>
    cases hpc'
    refine Or.inr ⟨⟨input, hpc⟩, row.answered E.strOf now (taskTimeout E.settings node) outcome, ?_, ?_⟩
    · simp [hrow]
    · exact row.answered_failed _ _ _ (by simpa using hok) hcaught
  case backOff hpc hrow hlt hdelay =>
    rw [RunState.goto_pc, Function.update_self] at hpc'
    exact Or.inl ⟨by rw [hpc]; exact hpc', rfl⟩
  all_goals simp [NodePc.between?] at hpc'

private theorem Uncancelled.nodeMove (inv : Uncancelled s) (h : NodeMove E answers node s s') :
    Uncancelled s' where
  idle := inv.idle.nodeMove h
  located := inv.located.nodeMove h
  agrees := h.agreesOn TaskExecution.id_writable inv.agrees
  between := by
    intro t te hpc row hrow
    by_cases ht : t = node.taskId
    · subst ht
      rcases h.between hpc with ⟨hpc, hmem⟩ | ⟨_, row', hrow', hfailed⟩
      · rw [hmem] at hrow
        exact inv.between _ te hpc row hrow
      · rw [hrow] at hrow'
        cases hrow'
        simp [TaskExecution.Cancellable, hfailed]
    · rw [h.pc_of_ne ht] at hpc
      obtain ⟨w, hw, hid⟩ := inv.located.own t te (NodePc.row?_of_between hpc)
      obtain ⟨old, hold, rfl⟩ := RunState.row_of_works hw
      have hne : (s.pc node.taskId).row? ≠ some te := by
        intro hrow
        obtain ⟨v, hv, hid'⟩ := inv.located.own _ _ hrow
        rw [hw] at hv
        cases hv
        exact ht (hid.symm.trans hid')
      exact kept_or_skipped (h.mem_row inv.agrees hne hold) (inv.between t te hpc old hold) row hrow

private theorem Uncancelled.mainMove (inv : Uncancelled s) (h : MainMove E s s') : Uncancelled s' where
  idle := inv.idle.mainMove h
  located := inv.located.mainMove inv.idle h
  agrees := h.agreesOn TaskExecution.id_writable inv.agrees
  between := by
    intro t te hpc' row hrow
    rcases h.pc with ⟨hpc, _⟩ | ⟨_, _, _, hpc⟩
    · rw [hpc] at hpc'
      have hmain : s.main ≠ .lookup := by
        intro hmain
        rw [inv.idle.between (by rw [hmain]; rfl) t] at hpc'
        cases hpc'
      obtain ⟨w, hw, hid⟩ := inv.located.own t te (NodePc.row?_of_between hpc')
      obtain ⟨old, hold, rfl⟩ := RunState.row_of_works hw
      exact kept_or_skipped (h.mem_row inv.agrees hmain hold) (inv.between t te hpc' old hold) row hrow
    · rw [hpc] at hpc'
      dsimp only at hpc'
      split at hpc' <;> cases hpc'

private theorem Uncancelled.step (inv : Uncancelled s) (h : Step E answers s s') : Uncancelled s' := by
  rcases step_cases h with h | ⟨node, _, h⟩
  · exact inv.mainMove h
  · exact inv.nodeMove h

/-! ### The commit -/

/-- A commit leaves the stored rows alone whose copies have not changed. -/
theorem commitTasks_of_eq {old new cur : List TaskExecution} {i : Nat} {row : TaskExecution}
    (hcur : cur[i]? = some row) (heq : new[i]? = old[i]?) :
    (commitTasks old new cur)[i]? = some row := by
  induction cur generalizing old new i with
  | nil => simp at hcur
  | cons c cur ih =>
    cases old with
    | nil => simpa [commitTasks] using hcur
    | cons o old =>
      cases new with
      | nil => simpa [commitTasks] using hcur
      | cons n new =>
        cases i with
        | zero =>
          simp only [List.getElem?_cons_zero, Option.some.injEq] at hcur heq
          simp [commitTasks, heq, hcur]
        | succ i =>
          simp only [List.getElem?_cons_succ] at hcur heq
          simpa [commitTasks] using ih hcur heq

/-- A cancel of current rows leaves its own copies in the store. -/
theorem cancelExecution_fresh (rows : Database) (now : Time) :
    rows.commit (rows.cancelExecution now) rows = rows.cancelExecution now := by
  have htasks : commitTasks rows.tasks (rows.cancelExecution now).tasks rows.tasks =
      (rows.cancelExecution now).tasks := by
    have hkey : (rows.cancelExecution now).tasks.map TaskExecution.key =
        rows.tasks.map TaskExecution.key := by
      simp [Database.cancelExecution]
    have h := commitTasks_view TaskExecution.id_writable (List.prefix_refl (rows.tasks.map id)) hkey
    rwa [List.map_id, List.map_id] at h
  rw [Database.commit, htasks, WorkflowExecution.writeBack_fresh]

private theorem cancelExecution_works (rows : Database) (now : Time) :
    (rows.cancelExecution now).tasks.map TaskExecution.work = rows.tasks.map TaskExecution.work := by
  simp [Database.cancelExecution]

/-- The cancel stands: it is stored, no attempt is under way, and its rows are as it left them. -/
structure Cancelled (rows : Database) (s : RunState) : Prop where
  idle : Idle s
  agrees : Agrees s
  status : s.db.execution.status = .cancelled ∨ s.main = .returned
  loaded : s.main = .loaded → s.mem.execution.status = .cancelled
  quiet : Quiet s
  between : ∀ t te, (s.pc t).between? = some te → ¬ CancelsRow rows te
  kept : ∀ i, CancelsRow rows i → ∃ row, s.db.tasks[i]? = some row ∧ row.status = .cancelled

private theorem Uncancelled.commit (inv : Uncancelled s) (now : Time)
    (hstatus : s.db.execution.status.canTransitionTo .cancelled) (hmain : s.main ≠ .loaded)
    (quiet : Quiet s) :
    Cancelled s.db { s with db := s.db.commit (s.db.cancelExecution now) s.db } := by
  rw [cancelExecution_fresh]
  refine ⟨⟨inv.idle.outside, inv.idle.between⟩, ?_, Or.inl ?_, fun h => absurd h hmain, quiet, ?_, ?_⟩
  · rw [Agrees, AgreesOn, cancelExecution_works]
    exact inv.located.agrees
  · simp [Database.cancelExecution, WorkflowExecution.cancel, hstatus]
  · rintro t te hpc ⟨row, hrow, hc⟩
    refine inv.between t te hpc row ?_ hc
    obtain ⟨rest, hrest⟩ := inv.agrees.isPrefix
    rw [← hrest]
    rw [List.getElem?_append_left (List.getElem?_eq_some_iff.mp hrow).1, hrow]
  · rintro i ⟨row, hrow, hc⟩
    have hcancel : (row.cancel now).status = .cancelled := by
      rcases hc with hc | hc <;> simp [TaskExecution.cancel, hc]
    exact ⟨row.cancel now, by simp [Database.cancelExecution, hrow], hcancel⟩

/-! ### After the commit -/

private theorem modify_of_ne (tasks : List TaskExecution) {te i : Nat} (h : te ≠ i)
    (f : TaskExecution → TaskExecution) : (tasks.modify te f)[i]? = tasks[i]? := by
  simp [h]

private theorem Agrees.lt (ha : Agrees s) {i : Nat} {row : TaskExecution}
    (hrow : s.db.tasks[i]? = some row) : i < s.mem.tasks.length := by
  have hlen := List.IsPrefix.length_le ha
  rw [List.length_map, List.length_map] at hlen
  exact (List.getElem?_eq_some_iff.mp hrow).1.trans_le hlen

def Begins (s s' : RunState) (t : TaskId) : Prop :=
  ∃ te input, s.pc t = .looping te input ∧ s'.pc t ≠ s.pc t ∧ s.mem.execution.status ≠ .cancelled

/-- A coroutine writes the row of its own attempts, and the rows that it marks. -/
private theorem NodeMove.db_row (h : NodeMove E answers node s s') (ha : Agrees s) {i : Nat}
    {row : TaskExecution} (hrow : s.db.tasks[i]? = some row) :
    s'.db.tasks[i]? = some row ∨
      Begins s s' node.taskId ∨ (∃ te input, s.pc node.taskId = .handling te input) ∨
      (s.pc node.taskId).between? = some i ∨ Marks s s' i := by
  have hwrite {mem : List TaskExecution} {te : Nat} (f : TaskExecution → TaskExecution) (hi : te ≠ i) :
      (commitTasks mem (mem.modify te f) s.db.tasks)[i]? = some row :=
    commitTasks_of_eq hrow (modify_of_ne mem hi f)
  cases h
  case begin te input row class' hpc hrow hle hlive hclass =>
    exact Or.inr (Or.inl ⟨te, input, hpc, by simp [hpc], hlive⟩)
  case answer te input row outcome hpc hrow hlegal hcaught =>
    exact Or.inr (Or.inr (Or.inl ⟨te, input, hpc⟩))
  case again te input hpc =>
    by_cases hi : te = i
    · exact Or.inr (Or.inr (Or.inr (Or.inl (by rw [hpc, hi]; rfl))))
    · exact Or.inl (hwrite _ hi)
  case branchFound now sid toSkip te hpc hfound =>
    by_cases hi : te = i
    · subst hi
      exact Or.inr (Or.inr (Or.inr (Or.inr (Or.inr
        ⟨node.taskId, sid, toSkip, hpc, by simp [hpc], hfound⟩))))
    · exact Or.inl (hwrite _ hi)
  case branchCreate => exact Or.inl (hwrite _ (ha.lt hrow).ne')
  all_goals exact Or.inl hrow

/-- The body writes no row but those that it marks. -/
private theorem MainMove.db_row (h : MainMove E s s') (ha : Agrees s) {i : Nat} {row : TaskExecution}
    (hrow : s.db.tasks[i]? = some row) : s'.db.tasks[i]? = some row ∨ Marks s s' i := by
  cases h
  case start => exact Or.inl (commitTasks_of_eq hrow rfl)
  case recordFailure => exact Or.inl (commitTasks_of_eq hrow rfl)
  case complete => exact Or.inl (commitTasks_of_eq hrow rfl)
  case load =>
    obtain ⟨_, _, _, h⟩ := foldl_loadRow s.mem.tasks s
    rw [h]
    exact Or.inl hrow
  case skipFound now sid sids te hmain hfound =>
    by_cases hi : te = i
    · subst hi
      exact Or.inr (Or.inl ⟨sid, sids, hmain, by simp [hmain], hfound⟩)
    · exact Or.inl (commitTasks_of_eq hrow (modify_of_ne _ hi _))
  case skipCreate =>
    exact Or.inl (commitTasks_of_eq hrow (modify_of_ne _ (ha.lt hrow).ne' _))
  all_goals exact Or.inl hrow

/-- The body writes the execution to start it, and to end with it. -/
theorem MainMove.execution (h : MainMove E s s') :
    s'.db.execution = s.db.execution ∨
      s.main = .loaded ∧ s.mem.execution.status.canTransitionTo .running ∨ s'.main = .returned := by
  cases h
  case start hmain hstart => exact Or.inr (Or.inl ⟨hmain, hstart⟩)
  case recordFailure => exact Or.inr (Or.inr rfl)
  case complete => exact Or.inr (Or.inr rfl)
  case load =>
    obtain ⟨_, _, _, h⟩ := foldl_loadRow s.mem.tasks s
    rw [h]
    exact Or.inl rfl
  all_goals exact Or.inl (by simp)

theorem MainMove.main_ne_returned (h : MainMove E s s') : s.main ≠ .returned := by
  cases h <;> simp [*]

/-- An attempt is under way once the check has been passed, until the handler has answered. -/
private theorem NodeMove.underWay (h : NodeMove E answers node s s') {te : Nat} {input : PyDict}
    (hpc' : s'.pc node.taskId = .running te input ∨ s'.pc node.taskId = .handling te input) :
    Begins s s' node.taskId ∨ s.pc node.taskId = .running te input := by
  cases h
  case begin te input row class' hpc hrow hle hlive hclass =>
    exact Or.inl ⟨te, input, hpc, by simp [hpc], hlive⟩
  case call hpc hrow =>
    simp only [RunState.goto_pc, Function.update_self, reduceCtorEq, NodePc.handling.injEq,
      false_or] at hpc'
    rw [hpc, hpc'.1, hpc'.2]
    exact Or.inr rfl
  case answer hpc hrow hlegal hcaught =>
    simp only [RunState.goto_pc, Function.update_self] at hpc'
    split at hpc' <;> simp at hpc'
  all_goals simp at hpc'

/-- Only the announced attempt of a coroutine starts. -/
private theorem NodeMove.attempts (h : NodeMove E answers node s s') :
    s'.attempts = s.attempts ∨ ∃ te input, s.pc node.taskId = .running te input := by
  cases h
  case call te input row hpc hrow => exact Or.inr ⟨te, input, hpc⟩
  all_goals exact Or.inl (by simp [RunState.attempts, HandlerEvent.isStart])

/-- The copies of the run are current, and no cancelled row is marked: `Effective`, after the
commit, for a step of the run. -/
structure Respects (rows : Database) (s s' : RunState) : Prop where
  checks : ∀ t te input, s.pc t = .looping te input → s'.pc t ≠ s.pc t →
    s.mem.execution.status = s.db.execution.status
  marks : ∀ i, CancelsRow rows i → ¬ Marks s s' i

/-- The check of the retry loop is not passed any more. -/
private theorem Cancelled.not_begins (inv : Cancelled rows s) (hr : Respects rows s s') (t : TaskId) :
    ¬ Begins s s' t := by
  rintro ⟨te, input, hpc, hmoves, hlive⟩
  have hmain : s.main ≠ .returned := by
    intro hmain
    rw [inv.idle.between (by rw [hmain]; rfl) t] at hpc
    cases hpc
  rw [hr.checks t te input hpc hmoves] at hlive
  exact hlive (inv.status.resolve_right hmain)

private theorem Cancelled.nodeMove (inv : Cancelled rows s) (hr : Respects rows s s')
    (h : NodeMove E answers node s s') : Cancelled rows s' where
  idle := inv.idle.nodeMove h
  agrees := h.agreesOn TaskExecution.work_writable inv.agrees
  status := by
    rw [h.execution, h.main]
    exact inv.status
  loaded := by
    rw [h.main]
    intro hmain
    have hg := inv.idle.gathers h.pc_ne_done
    rw [hmain] at hg
    cases hg
  quiet := by
    intro t te input
    rw [← not_or]
    intro hpc
    by_cases ht : t = node.taskId
    · subst ht
      rcases h.underWay hpc with hb | hpc
      · exact inv.not_begins hr _ hb
      · exact (inv.quiet _ te input).1 hpc
    · rw [h.pc_of_ne ht] at hpc
      exact hpc.elim (inv.quiet t te input).1 (inv.quiet t te input).2
  between := by
    intro t te hpc
    by_cases ht : t = node.taskId
    · subst ht
      rcases h.between hpc with ⟨hpc, _⟩ | ⟨⟨input, hpc⟩, _⟩
      · exact inv.between _ te hpc
      · exact absurd hpc (inv.quiet _ te input).2
    · rw [h.pc_of_ne ht] at hpc
      exact inv.between t te hpc
  kept := by
    intro i hi
    obtain ⟨row, hrow, hc⟩ := inv.kept i hi
    rcases h.db_row inv.agrees hrow with hkept | hb | ⟨te, input, hpc⟩ | hpc | hm
    · exact ⟨row, hkept, hc⟩
    · exact absurd hb (inv.not_begins hr _)
    · exact absurd hpc (inv.quiet _ te input).2
    · exact absurd hi (inv.between _ i hpc)
    · exact absurd hm (hr.marks i hi)

private theorem Cancelled.mainMove (inv : Cancelled rows s) (hr : Respects rows s s')
    (h : MainMove E s s') : Cancelled rows s' where
  idle := inv.idle.mainMove h
  agrees := h.agreesOn TaskExecution.work_writable inv.agrees
  status := by
    rcases h.execution with hex | ⟨hmain, hstart⟩ | hmain
    · rw [hex]
      exact Or.inl (inv.status.resolve_right h.main_ne_returned)
    · rw [inv.loaded hmain] at hstart
      exact absurd hstart (by decide)
    · exact Or.inr hmain
  loaded := by
    intro hmain
    obtain ⟨hlookup, hmem⟩ := h.early.2.1 hmain
    rw [hmem]
    exact inv.status.resolve_right (by simp [hlookup])
  quiet := by
    intro t te input
    rcases h.pc with ⟨hpc, _⟩ | ⟨_, _, _, hpc⟩
    · rw [hpc]
      exact inv.quiet t te input
    · rw [hpc]
      dsimp only
      split <;> simp
  between := by
    intro t te hpc'
    rcases h.pc with ⟨hpc, _⟩ | ⟨_, _, _, hpc⟩
    · rw [hpc] at hpc'
      exact inv.between t te hpc'
    · rw [hpc] at hpc'
      dsimp only at hpc'
      split at hpc' <;> cases hpc'
  kept := by
    intro i hi
    obtain ⟨row, hrow, hc⟩ := inv.kept i hi
    rcases h.db_row inv.agrees hrow with hkept | hm
    · exact ⟨row, hkept, hc⟩
    · exact absurd hm (hr.marks i hi)

/-- After the commit a step of the run starts no attempt and keeps the cancelled rows. -/
private theorem Cancelled.step (inv : Cancelled rows s) (hr : Respects rows s s') (h : Step E answers s s') :
    Cancelled rows s' ∧ s'.attempts = s.attempts := by
  rcases step_cases h with h | ⟨node, _, h⟩
  · exact ⟨inv.mainMove hr h, by rw [RunState.attempts, h.trace, RunState.attempts]⟩
  · refine ⟨inv.nodeMove hr h, h.attempts.resolve_right ?_⟩
    rintro ⟨te, input, hpc⟩
    exact (inv.quiet _ te input).1 hpc

/-! ### Whole runs -/

def CancelRun.Inv (c : CancelRun) : Prop :=
  match c.cancel with
  | .committed rows => Cancelled rows c.run
  | _ => Uncancelled c.run

private theorem CancelRun.Inv.step (inv : c.Inv) (he : Effective c c') (h : CancelStep E answers c c') :
    c'.Inv := by
  cases h with
  | own h =>
    obtain ⟨s, phase⟩ := c
    cases phase with
    | absent => exact Uncancelled.step inv h
    | loaded rows => exact Uncancelled.step inv h
    | committed rows => exact (Cancelled.step inv ⟨he.checks rows rfl, he.marks rows rfl⟩ h).1
  | load habsent =>
    have huncancelled : Uncancelled c.run := by simpa [Inv, habsent] using inv
    exact huncancelled
  | commit now hloaded =>
    have huncancelled : Uncancelled c.run := by simpa [Inv, hloaded] using inv
    obtain ⟨rfl, hstatus, hmain, quiet⟩ := he.commits _ hloaded rfl
    exact huncancelled.commit now hstatus hmain quiet

/-- After the commit nothing else can happen than that the run goes on. -/
private theorem CancelRun.Inv.committed (inv : c.Inv) (hc : c.cancel = .committed rows)
    (he : Effective c c') (h : CancelStep E answers c c') :
    c'.cancel = .committed rows ∧ c'.run.attempts = c.run.attempts := by
  cases h with
  | own h =>
    have hcancelled : Cancelled rows c.run := by simpa [Inv, hc] using inv
    exact ⟨hc, (hcancelled.step ⟨he.checks rows hc, he.marks rows hc⟩ h).2⟩
  | load habsent => simp [hc] at habsent
  | commit now hloaded => simp [hc] at hloaded

/-- Where the cancel commits current rows between attempts, and the run then reads a current
status before each attempt and marks no cancelled task, no attempt starts after the commit and
every row that the cancel has marked stays cancelled. -/
theorem cancel_is_effective (run : Run (Where Effective (CancelStep E answers)) (.start E db) c)
    (hc : c.cancel = .committed rows) (rest : Run (Where Effective (CancelStep E answers)) c c') :
    c'.run.attempts = c.run.attempts ∧ ∀ i, CancelsRow rows i →
      ∃ row, c'.run.db.tasks[i]? = some row ∧ row.status = .cancelled := by
  have hstart : (CancelRun.start E db).Inv := Uncancelled.start E db
  have hinv : c.Inv := run.invariant (fun _ _ inv h => inv.step h.1 h.2) hstart
  have hstep : ∀ d d', d.Inv ∧ d.cancel = .committed rows ∧ d.run.attempts = c.run.attempts →
      Where Effective (CancelStep E answers) d d' →
      d'.Inv ∧ d'.cancel = .committed rows ∧ d'.run.attempts = c.run.attempts := by
    rintro d d' ⟨inv, hd, hattempts⟩ ⟨he, h⟩
    obtain ⟨hd', hsame⟩ := inv.committed hd he h
    exact ⟨inv.step he h, hd', hsame.trans hattempts⟩
  obtain ⟨inv, hc', hattempts⟩ := rest.invariant hstep ⟨hinv, hc, rfl⟩
  have hcancelled : Cancelled rows c'.run := by simpa [CancelRun.Inv, hc'] using inv
  exact ⟨hattempts, hcancelled.kept⟩

/-! ### Two delays in a row -/

/-- A run goes on as if there were no cancel. -/
theorem CancelRun.lift (phase : CancelPhase) (run : Run (Step E answers) s s') :
    Run (CancelStep E answers) ⟨s, phase⟩ ⟨s', phase⟩ := by
  induction run with
  | refl => exact .refl
  | tail _ last ih => exact ih.tail (.own last)

private theorem before_cancel (run : Run (Step E answers) s s') :
    Run (Where Effective (CancelStep E answers)) ⟨s, .absent⟩ ⟨s', .absent⟩ := by
  induction run with
  | refl => exact .refl
  | tail _ last ih => exact ih.tail ⟨⟨nofun, nofun, nofun⟩, .own last⟩

private def BodyOnly (s s' : RunState) : Prop := s'.pc = s.pc ∧ ∀ sids, s.main ≠ .skipping sids

private theorem after_cancel (rows : Database) (run : Run (Where BodyOnly (Step E answers)) s s') :
    Run (Where Effective (CancelStep E answers)) ⟨s, .committed rows⟩ ⟨s', .committed rows⟩ := by
  induction run with
  | refl => exact .refl
  | tail _ last ih =>
    obtain ⟨⟨hpc, hmain⟩, hstep⟩ := last
    refine ih.tail ⟨⟨nofun, fun _ _ t _ _ _ hmoves => absurd (congrFun hpc t) hmoves, ?_⟩, .own hstep⟩
    rintro _ _ _ _ (⟨sid, sids, h, _⟩ | ⟨t, _, _, _, hmoves, _⟩)
    · exact hmain _ h
    · exact hmoves (congrFun hpc t)

private def waitingRows : Database :=
  ⟨{}, [{ taskDefinitionId := "a", taskName := "A", taskType := "delay", maxAttempts := 2 },
    { taskDefinitionId := "b", taskName := "B", taskType := "delay" }]⟩

private def waiting : RunState := .start (chainEngine .repaired) waitingRows

private def succeeds : Outcome := .result ⟨true, .none, none, 0⟩

private def failsOnce : Outcome := .result ⟨false, .none, none, 0⟩

private def cancelled (s : RunState) : RunState :=
  { s with db := s.db.commit (s.db.cancelExecution 0) s.db }

private def loops (c : Choice) (s : RunState) : Bool :=
  match c with
  | .main _ => s.main = .loop ∨ s.main = .checking
  | _ => false

private theorem bodyOnly_of_loops (c : Choice) (s s' : RunState) (h : loops c s = true)
    (hstep : step (chainEngine .repaired) c s = some s') : BodyOnly s s' := by
  cases c with
  | propagate t => cases h
  | node t now sample outcome => cases h
  | main now =>
    have hmain : s.main = .loop ∨ s.main = .checking := of_decide_eq_true h
    rcases (mainStep_move hstep).pc with ⟨hpc, _⟩ | ⟨hskipping, _, _, _⟩
    · refine ⟨hpc, fun sids hskipping => ?_⟩
      rw [hskipping] at hmain
      exact hmain.elim nofun nofun
    · rw [hskipping] at hmain
      exact hmain.elim nofun nofun

private def betweenWaves (s : RunState) : Bool :=
  s.main = .loop ∧ (s.db.execution.status = .running ∧ s.db.tasks.map (·.status) = [.completed, .pending]) ∧
    (execute (fun c s => if loops c s then step (chainEngine .repaired) c s else none) (body 2)
      (cancelled s)).any (fun u => u.main = .returned ∧ u.attempts.length = 2) = true

/-- The first task succeeds in its second attempt; the cancel commits before the body reads its
execution again, and the second task is never started. -/
theorem cancel_is_effective_between_waves : ∃ c : CancelRun, c.run.main = .returned ∧
    c.run.attempts.length = 2 ∧ ∃ row, c.run.db.tasks[1]? = some row ∧ row.status = .cancelled := by
  obtain ⟨s, run, hs⟩ := exists_run (chainEngine .repaired) anyAnswer
    (body 6 ++ (coroutine "a" 9 failsOnce ++ coroutine "a" 4 succeeds) ++ body 1) waiting betweenWaves
    (possible_append (possible_append (possible_body _ 6) (possible_append
      (possible_coroutine "a" 9 fun _ _ _ => trivial) (possible_coroutine "a" 4 fun _ _ _ => trivial)))
      (possible_body _ 1)) (by decide +kernel)
  obtain ⟨hmain, ⟨hrunning, hrows⟩, hu⟩ := of_decide_eq_true hs
  obtain ⟨u, rest, hu⟩ := exists_run_checked (chainEngine .repaired) anyAnswer BodyOnly (body 2)
    (cancelled s) _ loops bodyOnly_of_loops (possible_body _ 2) hu
  obtain ⟨hreturned, hlength⟩ := of_decide_eq_true hu
  have hidle : Idle s := run.invariant (fun _ _ idle h => idle.step h) (Idle.start _ _)
  have hquiet : Quiet s := by
    intro t te input
    rw [hidle.between (by rw [hmain]; rfl) t]
    exact ⟨nofun, nofun⟩
  have hload : Where Effective (CancelStep (chainEngine .repaired) anyAnswer) ⟨s, .absent⟩
      ⟨s, .loaded s.db⟩ := ⟨⟨nofun, nofun, nofun⟩, .load rfl⟩
  have hcommit : Where Effective (CancelStep (chainEngine .repaired) anyAnswer) ⟨s, .loaded s.db⟩
      ⟨cancelled s, .committed s.db⟩ := by
    refine ⟨⟨fun rows h _ => ?_, nofun, nofun⟩, .commit 0 rfl⟩
    cases h
    exact ⟨rfl, by rw [hrunning]; decide, by rw [hmain]; decide, hquiet⟩
  obtain ⟨_, hkept⟩ := cancel_is_effective (((before_cancel run).tail hload).tail hcommit) rfl
    (after_cancel s.db rest)
  obtain ⟨row, hrow, hpending⟩ : ∃ row, s.db.tasks[1]? = some row ∧ row.status = .pending := by
    have hsecond := congrArg (·[1]?) hrows
    simpa using hsecond
  exact ⟨⟨u, .committed s.db⟩, hreturned, hlength, hkept 1 ⟨row, hrow, Or.inl hpending⟩⟩

private def startsLate (s : RunState) : Bool :=
  (execute (step (chainEngine .repaired)) (coroutine "a" 2 succeeds) (cancelled s)).any
    (fun u => u.attempts.length ≠ s.attempts.length ∧
      u.db.tasks.map (·.status) = [.completed] ∧ s.db.tasks.map (·.status) = [.running])

theorem cancel_comes_too_late : ¬ ∀ c c' rows,
    Run (CancelStep (chainEngine .repaired) anyAnswer) (.start (chainEngine .repaired) ⟨{}, []⟩) c →
      c.cancel = .committed rows → Run (CancelStep (chainEngine .repaired) anyAnswer) c c' →
      c'.run.attempts = c.run.attempts ∧ ∀ i, CancelsRow rows i →
        ∃ row, c'.run.db.tasks[i]? = some row ∧ row.status = .cancelled := by
  intro h
  obtain ⟨s, run, hs⟩ := exists_run (chainEngine .repaired) anyAnswer
    (body 6 ++ coroutine "a" 6 succeeds) (.start (chainEngine .repaired) ⟨{}, []⟩) startsLate
    (possible_append (possible_body _ 6) (possible_coroutine "a" 6 fun _ _ _ => trivial))
    (by decide +kernel)
  obtain ⟨u, rest, hu⟩ := exists_run (chainEngine .repaired) anyAnswer _ (cancelled s) _
    (possible_coroutine "a" 2 fun _ _ _ => trivial) hs
  have hcancel : Run (CancelStep (chainEngine .repaired) anyAnswer)
      (.start (chainEngine .repaired) ⟨{}, []⟩) ⟨cancelled s, .committed s.db⟩ :=
    ((CancelRun.lift .absent run).tail (.load rfl)).tail (.commit 0 rfl)
  have hattempts := (h _ _ _ hcancel rfl (CancelRun.lift _ rest)).1
  exact (of_decide_eq_true hu).1 (congrArg List.length hattempts)

end BackendProjects.Workflow
