import BackendProjects.Workflow.Frames

/-! The part of a row that only its own coroutine writes, and why every session agrees on it:
other sessions write statuses and times only. -/
namespace BackendProjects.Workflow
open Library

/-- What an attempt leaves behind, without the status and the times. -/
structure Work where
  taskDefinitionId : TaskId
  outputData : PyValue
  attempt : Nat
  maxAttempts : Nat

def TaskExecution.work (te : TaskExecution) : Work :=
  ⟨te.taskDefinitionId, te.outputData, te.attempt, te.maxAttempts⟩

def TaskExecution.key (te : TaskExecution) : TaskId × String × String :=
  (te.taskDefinitionId, te.taskName, te.taskType)

namespace TaskExecution

@[simp] theorem cancel_work (te : TaskExecution) (now : Time) : (te.cancel now).work = te.work := by
  unfold cancel
  split <;> rfl

@[simp] theorem answered_key (te : TaskExecution) (strOf : PyValue → String) (now : Time)
    (timeout : Int) (outcome : Outcome) : (te.answered strOf now timeout outcome).key = te.key := by
  cases outcome with
  | result r => simp only [answered, record]; split <;> rfl
  | timeout => rfl
  | raises e => rfl

@[simp] theorem answered_taskDefinitionId (te : TaskExecution) (strOf : PyValue → String) (now : Time)
    (timeout : Int) (outcome : Outcome) :
    (te.answered strOf now timeout outcome).taskDefinitionId = te.taskDefinitionId :=
  congrArg Prod.fst (te.answered_key strOf now timeout outcome)

@[simp] theorem answered_attempt (te : TaskExecution) (strOf : PyValue → String) (now : Time)
    (timeout : Int) (outcome : Outcome) :
    (te.answered strOf now timeout outcome).attempt = te.attempt := by
  cases outcome with
  | result r => simp only [answered, record]; split <;> rfl
  | timeout => rfl
  | raises e => rfl

@[simp] theorem answered_maxAttempts (te : TaskExecution) (strOf : PyValue → String) (now : Time)
    (timeout : Int) (outcome : Outcome) :
    (te.answered strOf now timeout outcome).maxAttempts = te.maxAttempts := by
  cases outcome with
  | result r => simp only [answered, record]; split <;> rfl
  | timeout => rfl
  | raises e => rfl

theorem answered_outputData (te : TaskExecution) (strOf : PyValue → String) (now : Time)
    (timeout : Int) {r : TaskResult} (h : r.success = true) :
    (te.answered strOf now timeout (.result r)).outputData = normalizeOutput strOf r.output := by
  simp [answered, record, h]

@[simp] theorem cancel_key (te : TaskExecution) (now : Time) : (te.cancel now).key = te.key := by
  unfold cancel
  split <;> rfl

/-- A view of rows that a session writes as it holds it wherever it has loaded what is stored. -/
def Writable {V : Type} (view : TaskExecution → V) : Prop :=
  ∀ old new cur, view cur = view old → new.key = old.key → view (old.writeBack new cur) = view new

theorem work_writable : Writable work := by
  intro old new cur h hkey
  simp only [work, Work.mk.injEq] at h
  have hid : new.taskDefinitionId = old.taskDefinitionId := congrArg Prod.fst hkey
  simp [work, writeBack, h, hid]

theorem id_writable : Writable id := by
  intro old new cur h hkey
  simp only [key, Prod.mk.injEq] at hkey
  obtain rfl : cur = old := h
  simp [writeBack, ← hkey.1, ← hkey.2.1, ← hkey.2.2]

end TaskExecution

/-! ### Commits and refreshes -/

/-- After a commit the store shows what the session holds, in the rows it had and in the new ones. -/
theorem commitTasks_view {V : Type} {view : TaskExecution → V} (hview : TaskExecution.Writable view)
    {old new cur : List TaskExecution} (h : cur.map view <+: old.map view)
    (hkey : new.map TaskExecution.key = old.map TaskExecution.key) :
    (commitTasks old new cur).map view = new.map view := by
  induction old generalizing new cur with
  | nil =>
    obtain rfl : new = [] := by simpa using hkey
    obtain rfl : cur = [] := by simpa using h
    rfl
  | cons o old ih =>
    cases new with
    | nil => simp at hkey
    | cons n new =>
      cases cur with
      | nil => rfl
      | cons c cur =>
        simp only [List.map_cons, List.cons_prefix_cons, List.cons.injEq] at h hkey
        simp only [commitTasks, List.map_cons]
        rw [hview o n c h.1 hkey.1, ih h.2 hkey.2]

def RunState.works (s : RunState) : List Work := s.mem.tasks.map TaskExecution.work

/-- The store shows what the session holds, up to the rows that are not committed yet. -/
def AgreesOn {V : Type} (view : TaskExecution → V) (s : RunState) : Prop :=
  s.db.tasks.map view <+: s.mem.tasks.map view

abbrev Agrees (s : RunState) : Prop := AgreesOn TaskExecution.work s

namespace RunState
variable (s : RunState)

theorem getElem?_works {te : Nat} {row : TaskExecution} (h : s.mem.tasks[te]? = some row) :
    s.works[te]? = some row.work := by
  simp [works, h]

@[simp] theorem works_goto (t : TaskId) (q : NodePc) : (s.goto t q).works = s.works := rfl

@[simp] theorem works_flush (row : TaskExecution) : (s.flush row).works = s.works ++ [row.work] := by
  simp [works]

private theorem works_flush_some (row : TaskExecution) {i : Nat} {w : Work} (h : s.works[i]? = some w) :
    (s.flush row).works[i]? = some w := by
  rw [works_flush, List.getElem?_append_left (List.getElem?_eq_some_iff.mp h).1, h]

theorem works_saveTask_of_ne (te : Nat) (f : TaskExecution → TaskExecution) {i : Nat} (h : i ≠ te) :
    (s.saveTask te f).works[i]? = s.works[i]? := by
  simp [works, Ne.symm h]

theorem works_saveTask_self (te : Nat) (f : TaskExecution → TaskExecution) {row : TaskExecution}
    (h : s.mem.tasks[te]? = some row) : (s.saveTask te f).works[te]? = some (f row).work := by
  simp [works, h]

/-- A write that keeps the work of its row keeps all works. -/
theorem works_saveTask_keep (te : Nat) {f : TaskExecution → TaskExecution}
    (hf : ∀ row : TaskExecution, (f row).work = row.work) : (s.saveTask te f).works = s.works := by
  apply List.ext_getElem?
  intro i
  by_cases h : i = te
  · subst h
    cases hrow : s.mem.tasks[i]? with
    | none => simp [works, hrow]
    | some row => rw [s.works_saveTask_self i f hrow, hf, s.getElem?_works hrow]
  · exact s.works_saveTask_of_ne te f h

@[simp] theorem works_begin (te : Nat) (now : Time) : (s.saveTask te (·.begin now)).works = s.works :=
  s.works_saveTask_keep te (fun _ => rfl)

@[simp] theorem works_skip (te : Nat) (now : Time) : (s.saveTask te (·.skip now)).works = s.works :=
  s.works_saveTask_keep te (fun _ => rfl)

variable {s}

/-- A row in the session's hands, from its work. -/
theorem row_of_works {te : Nat} {w : Work} (h : s.works[te]? = some w) :
    ∃ row, s.mem.tasks[te]? = some row ∧ row.work = w := by
  rw [works, List.getElem?_map, Option.map_eq_some_iff] at h
  exact h

theorem view_refreshed {V : Type} {view : TaskExecution → V} (h : AgreesOn view s) :
    s.refreshed.mem.tasks.map view = s.mem.tasks.map view := by
  obtain ⟨rest, hrest⟩ := h
  have hlen : s.db.tasks.length = (s.db.tasks.map view).length := by simp
  simp only [refreshed_mem, Database.refresh_tasks, List.map_append, List.map_drop]
  rw [← hrest, hlen, List.drop_left]

theorem works_refreshed (h : Agrees s) : s.refreshed.works = s.works := view_refreshed h

end RunState

variable {E : Engine} {answers : Answers} {node : DAGNode} {s s' : RunState} {V : Type}
  {view : TaskExecution → V}

private theorem AgreesOn.refreshed (h : AgreesOn view s) : AgreesOn view s.refreshed := by
  rw [AgreesOn, RunState.view_refreshed h]
  exact h

theorem AgreesOn.flush (h : AgreesOn view s) (row : TaskExecution) : AgreesOn view (s.flush row) := by
  rw [AgreesOn, RunState.flush_mem_tasks, List.map_append]
  exact h.trans (List.prefix_append _ _)

private theorem AgreesOn.saveTask (hview : TaskExecution.Writable view) (h : AgreesOn view s) (te : Nat)
    {f : TaskExecution → TaskExecution} (hf : ∀ row : TaskExecution, (f row).key = row.key) :
    AgreesOn view (s.saveTask te f) := by
  have hkey : (s.mem.tasks.modify te f).map TaskExecution.key = s.mem.tasks.map TaskExecution.key := by
    apply List.ext_getElem?
    intro i
    simp only [List.getElem?_map, List.getElem?_modify]
    cases s.mem.tasks[i]? with
    | none => rfl
    | some row => by_cases hi : te = i <;> simp [hi, hf]
  rw [AgreesOn, RunState.saveTask_db, Database.commit_tasks, commitTasks_view hview h hkey]
  exact List.prefix_refl _

private theorem AgreesOn.saveExecution (hview : TaskExecution.Writable view) (h : AgreesOn view s)
    (ex : WorkflowExecution) : AgreesOn view (s.saveExecution ex) := by
  rw [AgreesOn, RunState.saveExecution_db, Database.commit_tasks, commitTasks_view hview h rfl]
  exact List.prefix_refl _

theorem NodeMove.agreesOn (h : NodeMove E answers node s s') (hview : TaskExecution.Writable view)
    (ha : AgreesOn view s) : AgreesOn view s' := by
  cases h
  case acquire => exact (show AgreesOn view { s with sem := s.sem - 1 } from ha).refreshed
  case create => exact ha.flush _
  case begin now _ _ _ => exact ha.saveTask hview _ (fun _ => rfl)
  case answer =>
    exact (show AgreesOn view (s.emit _) from ha).saveTask hview _ (fun _ => TaskExecution.answered_key ..)
  case again => exact ha.saveTask hview _ (fun _ => rfl)
  case branchFound =>
    exact (show AgreesOn view { s with skipped := _ } from ha).saveTask hview _ (fun _ => rfl)
  case branchCreate => exact (ha.flush _).saveTask hview _ (fun _ => rfl)
  all_goals exact ha

theorem MainMove.agreesOn (h : MainMove E s s') (hview : TaskExecution.Writable view)
    (ha : AgreesOn view s) : AgreesOn view s' := by
  cases h
  case lookup => exact List.prefix_refl _
  case start => exact ha.saveExecution hview _
  case load =>
    obtain ⟨_, _, _, h⟩ := foldl_loadRow s.mem.tasks s
    rw [h]
    exact ha
  case iterate => exact ha.refreshed
  case exit => exact ha.refreshed
  case recordFailure => exact ha.saveExecution hview _
  case skipFound => exact ha.saveTask hview _ (fun _ => rfl)
  case skipCreate => exact (ha.flush _).saveTask hview _ (fun _ => rfl)
  case settled => exact ha.refreshed
  case gatheredFailed => exact ha.refreshed
  case complete => exact ha.saveExecution hview _
  all_goals exact ha

/-! ### Every coroutine has its own row -/

def NodePc.row? : NodePc → Option Nat
  | .prepared te | .looping te _ | .running te _ | .handling te _ | .attemptFailed te _
  | .sleeping te _ | .finishing te _ => some te
  | _ => none

theorem findTask_some {tasks : List TaskExecution} {t : TaskId} {te : Nat}
    (h : findTask tasks t = some te) : ∃ row, tasks[te]? = some row ∧ row.taskDefinitionId = t := by
  obtain ⟨hlt, hp, _⟩ := List.findIdx?_eq_some_iff_getElem.mp h
  exact ⟨tasks[te], List.getElem?_eq_getElem hlt, by simpa using hp⟩

/-- The session agrees with the store, and every coroutine's row is about its task. -/
structure Located (s : RunState) : Prop where
  agrees : Agrees s
  own : ∀ t te, (s.pc t).row? = some te → ∃ w, s.works[te]? = some w ∧ w.taskDefinitionId = t

theorem Located.start (E : Engine) (db : Database) : Located (.start E db) :=
  ⟨List.prefix_refl _, fun _ _ h => by simp [RunState.start, NodePc.row?] at h⟩

/-- A coroutine changes no work but that of its own rows. -/
theorem NodeMove.works_of_ne (h : NodeMove E answers node s s') (hl : Located s) {i : Nat} {w : Work}
    (hw : s.works[i]? = some w) (hne : w.taskDefinitionId ≠ node.taskId) : s'.works[i]? = some w := by
  have hother {te : Nat} (hte : (s.pc node.taskId).row? = some te) : i ≠ te := by
    rintro rfl
    obtain ⟨v, hv, hid⟩ := hl.own _ _ hte
    rw [hw] at hv
    cases hv
    exact hne hid
  have hflush (row : TaskExecution) : (s.flush row).works[i]? = some w := s.works_flush_some row hw
  cases h
  case acquire =>
    have agrees : Agrees { s with sem := s.sem - 1 } := hl.agrees
    rw [RunState.works_goto, RunState.works_refreshed agrees]
    exact hw
  case create => exact hflush _
  case begin =>
    rw [RunState.works_goto, RunState.works_begin]
    exact hw
  case answer hpc hrow hlegal hcaught =>
    rw [RunState.works_goto, RunState.works_saveTask_of_ne _ _ _ (hother (by rw [hpc]; rfl))]
    exact hw
  case again hpc =>
    rw [RunState.works_goto, RunState.works_saveTask_of_ne _ _ _ (hother (by rw [hpc]; rfl))]
    exact hw
  case branchFound =>
    rw [RunState.works_goto, RunState.works_skip]
    exact hw
  case branchCreate =>
    rw [RunState.works_goto, RunState.works_skip]
    exact hflush _
  all_goals exact hw

/-- The row of a coroutine stays about its task. -/
private theorem NodeMove.own (h : NodeMove E answers node s s') (hl : Located s) {te : Nat}
    (hte : (s'.pc node.taskId).row? = some te) :
    ∃ w, s'.works[te]? = some w ∧ w.taskDefinitionId = node.taskId := by
  cases h
  case found hpc hc hs hfound =>
    obtain ⟨row, hrow, hid⟩ := findTask_some hfound
    simp only [RunState.goto_pc, Function.update_self, NodePc.row?, Option.some.injEq] at hte
    subst hte
    exact ⟨row.work, s.getElem?_works hrow, hid⟩
  case create =>
    simp only [RunState.goto_pc, Function.update_self, NodePc.row?, Option.some.injEq] at hte
    subst hte
    exact ⟨(TaskExecution.new E.settings node).work, by simp [RunState.works], rfl⟩
  case prepare hpc hstrategy =>
    simp only [RunState.goto_pc, Function.update_self] at hte
    exact hl.own _ _ (by rw [hpc]; exact hte)
  case begin hpc hrow hle hlive hclass =>
    simp only [RunState.goto_pc, Function.update_self] at hte
    rw [RunState.works_goto, RunState.works_begin]
    exact hl.own _ _ (by rw [hpc]; exact hte)
  case stop hpc hrow hstop =>
    simp only [RunState.goto_pc, Function.update_self] at hte
    exact hl.own _ _ (by rw [hpc]; exact hte)
  case call hpc hrow =>
    simp only [RunState.goto_pc, Function.update_self] at hte
    exact hl.own _ _ (by rw [hpc]; exact hte)
  case answer now te' input row outcome hpc hrow hlegal hcaught =>
    have hte' : te' = te := by
      simp only [RunState.goto_pc, Function.update_self] at hte
      split at hte <;> exact Option.some.inj hte
    subst hte'
    obtain ⟨w, hw, hid⟩ := hl.own node.taskId te' (by rw [hpc]; rfl)
    rw [s.getElem?_works hrow] at hw
    cases hw
    refine ⟨_, RunState.works_saveTask_self _ te' _ hrow, ?_⟩
    exact (TaskExecution.answered_taskDefinitionId ..).trans hid
  case exhausted hpc hrow hle =>
    simp only [RunState.goto_pc, Function.update_self] at hte
    exact hl.own _ _ (by rw [hpc]; exact hte)
  case backOff hpc hrow hlt hdelay =>
    simp only [RunState.goto_pc, Function.update_self] at hte
    exact hl.own _ _ (by rw [hpc]; exact hte)
  case again te' input hpc =>
    simp only [RunState.goto_pc, Function.update_self, NodePc.row?, Option.some.injEq] at hte
    subst hte
    obtain ⟨w, hw, hid⟩ := hl.own node.taskId te' (by rw [hpc]; rfl)
    obtain ⟨row, hrow, rfl⟩ := RunState.row_of_works hw
    exact ⟨_, RunState.works_saveTask_self _ te' _ hrow, hid⟩
  all_goals simp [NodePc.row?] at hte

theorem Located.nodeMove (hl : Located s) (h : NodeMove E answers node s s') : Located s' := by
  refine ⟨h.agreesOn TaskExecution.work_writable hl.agrees, fun t te hte => ?_⟩
  by_cases ht : t = node.taskId
  · subst ht
    exact h.own hl hte
  · rw [h.pc_of_ne ht] at hte
    obtain ⟨w, hw, hid⟩ := hl.own t te hte
    exact ⟨w, h.works_of_ne hl hw (by rw [hid]; exact ht), hid⟩

/-! ### The body's writes -/

/-- After the lookup, the body adds rows and changes no work. -/
theorem MainMove.works (h : MainMove E s s') (ha : Agrees s) (hmain : s.main ≠ .lookup) {i : Nat}
    {w : Work} (hw : s.works[i]? = some w) : s'.works[i]? = some w := by
  have hrefreshed : s.refreshed.works[i]? = some w := by
    rw [RunState.works_refreshed ha, hw]
  have hskip (te : Nat) (now : Time) : (s.saveTask te (·.skip now)).works[i]? = some w := by
    rw [RunState.works_skip, hw]
  cases h
  case lookup h => exact absurd h hmain
  case load =>
    obtain ⟨_, _, _, h⟩ := foldl_loadRow s.mem.tasks s
    rw [h]
    exact hw
  case iterate => exact hrefreshed
  case exit => exact hrefreshed
  case skipFound => exact hskip _ _
  case skipCreate now _ _ _ _ _ =>
    change ((s.flush _).saveTask s.mem.tasks.length (·.skip now)).works[i]? = some w
    rw [RunState.works_skip, s.works_flush_some _ hw]
  case settled => exact hrefreshed
  case gatheredFailed => exact hrefreshed
  all_goals exact hw

theorem Located.mainMove (hl : Located s) (idle : Idle s) (h : MainMove E s s') : Located s' := by
  refine ⟨h.agreesOn TaskExecution.work_writable hl.agrees, fun t te hte => ?_⟩
  rcases h.pc with ⟨hpc, _⟩ | ⟨_, _, _, hpc⟩
  · rw [hpc] at hte
    by_cases hmain : s.main = .lookup
    · rw [idle.between (by rw [hmain]; rfl) t] at hte
      cases hte
    · obtain ⟨w, hw, hid⟩ := hl.own t te hte
      exact ⟨w, h.works hl.agrees hmain hw, hid⟩
  · rw [hpc] at hte
    dsimp only at hte
    split at hte <;> cases hte

end BackendProjects.Workflow
