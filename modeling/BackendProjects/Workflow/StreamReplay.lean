import BackendProjects.Workflow.Cancellation
import BackendProjects.Workflow.EventStream
import BackendProjects.Workflow.Meaning

/-! The stream of a run that nobody interferes with, replayed: the last event about a task, and the last
one about the execution, tell what is committed. -/
namespace BackendProjects.Workflow
open Library

def rowStatus (t : TaskId) (rows : List TaskExecution) : Option TaskStatus :=
  (rows.find? (·.taskDefinitionId = t)).map (·.status)

def lastAbout (t : TaskId) (es : List Event) : Option Event :=
  (es.filter (·.task? = some t)).getLast?

def statusTold (es : List Event) : Option ExecutionState := (es.filterMap Event.status?).getLast?

def Event.Shows : Event → TaskStatus → Prop
  | .taskRunning _ _, status => status = .running
  | .taskFailed _ _, status => status = .failed ∨ status = .pending
  | .taskCompleted _, status => status = .completed
  | .taskSkipped _, status => status = .skipped
  | _, _ => False

/-- Where no event tells of a task, its row is as the run has found it, or new. -/
def Untouched (found status : Option TaskStatus) : Prop :=
  status = found ∨ found = none ∧ status = some .pending

def Tells (found : Option TaskStatus) (last : Option Event) (status : Option TaskStatus) : Prop :=
  match last with
  | some e => ∃ shown, status = some shown ∧ e.Shows shown
  | none => Untouched found status

def Alone (_ _ : Database) : Prop := False

def NodePc.targets : NodePc → List TaskId
  | .branching toSkip => toSkip
  | .branchCreating sid toSkip => sid :: toSkip
  | _ => []

variable {E : Engine} {answers : Answers} {s s' : RunState} {node : DAGNode} {t u : TaskId}
  {rows : List TaskExecution} {row : TaskExecution} {te : Nat} {status found : Option TaskStatus}

/-! ### The first row of a task -/

private theorem rowStatus_append (t : TaskId) (rows : List TaskExecution) (row : TaskExecution) :
    rowStatus t (rows ++ [row]) =
      (rowStatus t rows).or (if row.taskDefinitionId = t then some row.status else none) := by
  simp only [rowStatus, List.find?_append, Option.map_or]
  congr 1
  by_cases h : row.taskDefinitionId = t <;> simp [h]

private theorem rowStatus_eq_none : rowStatus t rows = none ↔ findTask rows t = none := by
  rw [rowStatus, Option.map_eq_none_iff, List.find?_eq_none, findTask, List.findIdx?_eq_none_iff]
  simp

/-- Where a row is found depends on the ids alone. -/
theorem findTask_eq (rows : List TaskExecution) (t : TaskId) :
    findTask rows t = (rows.map (·.taskDefinitionId)).findIdx? (· = t) := by
  rw [List.findIdx?_map]
  rfl

private theorem findTask_extended {other : List TaskExecution}
    (h : rows.map (·.taskDefinitionId) <+: other.map (·.taskDefinitionId)) (hfound : findTask rows t = some te) :
    findTask other t = some te := by
  obtain ⟨rest, hrest⟩ := h
  rw [findTask_eq] at hfound ⊢
  rw [← hrest, List.findIdx?_append, hfound]
  rfl

private theorem map_modify {α : Type*} (g : TaskExecution → α) {f : TaskExecution → TaskExecution}
    (hf : ∀ row, g (f row) = g row) (rows : List TaskExecution) (te : Nat) :
    (rows.modify te f).map g = rows.map g := by
  apply List.ext_getElem?
  intro i
  simp only [List.getElem?_map, List.getElem?_modify]
  cases rows[i]? with
  | none => rfl
  | some row => by_cases hi : te = i <;> simp [hi, hf]

/-- The first row of a task is the one that `findTask` finds. -/
theorem find?_of_findTask (h : findTask rows t = some te) (hrow : rows[te]? = some row) :
    rows.find? (·.taskDefinitionId = t) = some row := by
  induction rows generalizing te with
  | nil => cases h
  | cons first rows ih =>
    rw [findTask, List.findIdx?_cons] at h
    by_cases hid : first.taskDefinitionId = t
    · simp only [hid, decide_true, if_true, Option.some.injEq] at h
      subst h
      simpa [hid] using hrow
    · simp only [hid, decide_false, Bool.false_eq_true, if_false, Option.map_eq_some_iff] at h
      obtain ⟨te, hte, rfl⟩ := h
      simpa [hid] using ih hte (by simpa using hrow)

private theorem rowStatus_findTask (h : findTask rows t = some te) (hrow : rows[te]? = some row) :
    rowStatus t rows = some row.status := by
  rw [rowStatus, find?_of_findTask h hrow]
  rfl

/-- A write to another task's row. -/
theorem rowStatus_modify_of_ne {f : TaskExecution → TaskExecution}
    (hf : ∀ row : TaskExecution, (f row).taskDefinitionId = row.taskDefinitionId)
    (hrow : rows[te]? = some row) (hne : row.taskDefinitionId ≠ t) :
    rowStatus t (rows.modify te f) = rowStatus t rows := by
  induction rows generalizing te with
  | nil => cases hrow
  | cons first rows ih =>
    cases te with
    | zero =>
      obtain rfl : first = row := by simpa using hrow
      simp [rowStatus, hf, hne]
    | succ te =>
      have hrest := @ih te (by simpa using hrow)
      simp only [rowStatus] at hrest ⊢
      rw [List.modify_succ_cons]
      by_cases hid : first.taskDefinitionId = t
      · simp [hid]
      · simpa [hid] using hrest

/-- A write to the first row of the task. -/
theorem rowStatus_modify_first {f : TaskExecution → TaskExecution}
    (hf : ∀ row : TaskExecution, (f row).taskDefinitionId = row.taskDefinitionId)
    (h : findTask rows t = some te) (hrow : rows[te]? = some row) :
    rowStatus t (rows.modify te f) = some (f row).status := by
  have hfind : findTask (rows.modify te f) t = some te := by
    rw [findTask_eq, map_modify _ hf, ← findTask_eq, h]
  exact rowStatus_findTask hfind (by simp [hrow])

private theorem modify_concat (rows : List TaskExecution) (row : TaskExecution)
    (f : TaskExecution → TaskExecution) : (rows ++ [row]).modify rows.length f = rows ++ [f row] := by
  induction rows with
  | nil => rfl
  | cons first rows ih =>
    rw [List.cons_append, List.length_cons, List.modify_succ_cons, ih]
    rfl

/-! ### What a step does to the first row of a task -/

/-- Of a session that holds what is stored, every commit stores what it holds. -/
private theorem RunState.saveTask_stores (h : AgreesOn id s) (te : Nat) {f : TaskExecution → TaskExecution}
    (hf : ∀ row : TaskExecution, (f row).key = row.key) :
    (s.saveTask te f).db.tasks = (s.saveTask te f).mem.tasks := by
  have hview := commitTasks_view TaskExecution.id_writable h (map_modify _ hf s.mem.tasks te)
  rw [List.map_id, List.map_id] at hview
  simpa using hview

private theorem RunState.saveExecution_stores (h : AgreesOn id s) (ex : WorkflowExecution) :
    (s.saveExecution ex).db.tasks = (s.saveExecution ex).mem.tasks := by
  have hview := commitTasks_view TaskExecution.id_writable h rfl
  rw [List.map_id, List.map_id] at hview
  simpa using hview

/-- What a step does to the first row of a task, and what is published of it. -/
inductive RowEffect (t : TaskId) (who : Publisher) (s s' : RunState) (event : Option Event) : Prop
  | same (hrow : rowStatus t s'.mem.tasks = rowStatus t s.mem.tasks)
      (hevent : ∀ e, event = some e → e.task? ≠ some t)
      (hdb : s'.db.tasks = s.db.tasks ∨ s'.db.tasks = s'.mem.tasks)
  | created (hwho : who = some t) (hold : rowStatus t s.mem.tasks = none)
      (hnew : rowStatus t s'.mem.tasks = some .pending) (hevent : event = none)
      (hdb : s'.db.tasks = s.db.tasks)
  | told {e : Event} {shown : TaskStatus} (hevent : event = some e) (htask : e.task? = some t)
      (hrow : rowStatus t s'.mem.tasks = some shown) (hshows : e.Shows shown)
      (hdb : s'.db.tasks = s'.mem.tasks)
  | again (hwho : who = some t) (hpc : (s.pc t).between?.isSome) (hrow : rowStatus t s'.mem.tasks = some .pending)
      (hevent : event = none) (hdb : s'.db.tasks = s'.mem.tasks)

structure FirstRow (t : TaskId) (s : RunState) : Prop where
  first : ∀ te, (s.pc t).row? = some te → findTask s.mem.tasks t = some te
  creating : s.pc t = .creating → findTask s.mem.tasks t = none
  marking : ∀ c toSkip, s.pc c = .branchCreating t toSkip →
    rowStatus t s.mem.tasks = none ∨ rowStatus t s.mem.tasks = some .skipped

private theorem NodeMove.rowEffect (h : NodeMove E answers node s s') (ha : AgreesOn id s) (located : Located s)
    (rows : FirstRow t s) : RowEffect t (some node.taskId) s s' (nodeEvent node.taskId s s') := by
  have hown {te : Nat} {row : TaskExecution} (hpc : (s.pc node.taskId).row? = some te)
      (hrow : s.mem.tasks[te]? = some row) : row.taskDefinitionId = node.taskId := by
    obtain ⟨w, hw, hid⟩ := located.own _ te hpc
    rw [s.getElem?_works hrow] at hw
    cases hw
    exact hid
  cases h
  case acquire hpc hsem =>
    refine .same ?_ (by simp [nodeEvent, hpc]) (Or.inl rfl)
    rw [RunState.goto_mem, RunState.tasks_refreshed (show AgreesOn id { s with sem := s.sem - 1 } from ha)]
  case create hpc =>
    by_cases ht : node.taskId = t
    · subst ht
      have hnone : rowStatus node.taskId s.mem.tasks = none := rowStatus_eq_none.mpr (rows.creating hpc)
      refine .created rfl hnone ?_ (by simp [nodeEvent, hpc]) rfl
      rw [RunState.goto_mem, RunState.flush_mem_tasks, rowStatus_append, hnone]
      simp [TaskExecution.new]
    · refine .same ?_ (by simp [nodeEvent, hpc]) (Or.inl rfl)
      rw [RunState.goto_mem, RunState.flush_mem_tasks, rowStatus_append]
      simp [TaskExecution.new, ht]
  case begin now te input row taskClass hpc hrow hle hlive hclass =>
    have hid := hown (by rw [hpc]; rfl) hrow
    have hevent : nodeEvent node.taskId s ((s.saveTask te (·.begin now)).goto node.taskId
        (.running te input)) = some (.taskRunning node.taskId row.attempt) := by
      simp [nodeEvent, hpc, hrow, TaskExecution.begin]
    have hstores := s.saveTask_stores ha te (f := (·.begin now)) (fun _ => rfl)
    rw [hevent]
    by_cases ht : node.taskId = t
    · subst ht
      refine .told rfl rfl (rowStatus_modify_first (fun _ => rfl) ?_ hrow) rfl hstores
      exact rows.first te (by rw [hpc]; rfl)
    · refine .same (rowStatus_modify_of_ne (fun _ => rfl) hrow (hid ▸ ht)) ?_ (Or.inr hstores)
      rintro e ⟨⟩
      simpa [Event.task?] using ht
  case answer now te input row outcome hpc hrow hlegal hcaught =>
    have hid := hown (by rw [hpc]; rfl) hrow
    have hstores := (s.emit (.returned node.taskId row.attempt outcome)).saveTask_stores ha te
      (f := (·.answered E.strOf now (taskTimeout E.settings node) outcome))
      (fun _ => TaskExecution.answered_key ..)
    have hwrite (hfound : findTask s.mem.tasks t = some te) := rowStatus_modify_first
      (f := (·.answered E.strOf now (taskTimeout E.settings node) outcome))
      (fun _ => TaskExecution.answered_taskDefinitionId ..) hfound hrow
    cases hok : outcome.ok with
    | true =>
      have hevent : nodeEvent node.taskId s (((s.emit (.returned node.taskId row.attempt outcome)).saveTask te
          (·.answered E.strOf now (taskTimeout E.settings node) outcome)).goto node.taskId
            (.finishing te true)) = some (.taskCompleted node.taskId) := by
        simp [nodeEvent, hpc]
      simp only [if_true]
      rw [hevent]
      by_cases ht : node.taskId = t
      · subst ht
        refine .told rfl rfl (hwrite (rows.first te (by rw [hpc]; rfl))) ?_ hstores
        exact row.answered_status _ _ _ hok
      · refine .same (rowStatus_modify_of_ne (fun _ => TaskExecution.answered_taskDefinitionId ..) hrow
          (hid ▸ ht)) ?_ (Or.inr hstores)
        rintro e ⟨⟩
        simpa [Event.task?] using ht
    | false =>
      obtain ⟨error, hevent⟩ : ∃ error, nodeEvent node.taskId s
          (((s.emit (.returned node.taskId row.attempt outcome)).saveTask te
            (·.answered E.strOf now (taskTimeout E.settings node) outcome)).goto node.taskId
              (.attemptFailed te input)) = some (.taskFailed node.taskId error) := by
        simp [nodeEvent, hpc, hrow]
      simp only [Bool.false_eq_true, if_false]
      rw [hevent]
      by_cases ht : node.taskId = t
      · subst ht
        refine .told rfl rfl (hwrite (rows.first te (by rw [hpc]; rfl))) ?_ hstores
        exact Or.inl (row.answered_failed _ _ _ hok hcaught)
      · refine .same (rowStatus_modify_of_ne (fun _ => TaskExecution.answered_taskDefinitionId ..) hrow
          (hid ▸ ht)) ?_ (Or.inr hstores)
        rintro e ⟨⟩
        simpa [Event.task?] using ht
  case again te input hpc =>
    obtain ⟨w, hw, hid⟩ := located.own node.taskId te (by rw [hpc]; rfl)
    obtain ⟨row, hrow, rfl⟩ := RunState.row_of_works hw
    have hid : row.taskDefinitionId = node.taskId := hid
    have hstores := s.saveTask_stores ha te (f := (·.again)) (fun _ => rfl)
    by_cases ht : node.taskId = t
    · subst ht
      refine .again rfl (by rw [hpc]; rfl) (rowStatus_modify_first (fun _ => rfl) ?_ hrow)
        (by simp [nodeEvent, hpc]) hstores
      exact rows.first te (by rw [hpc]; rfl)
    · refine .same (rowStatus_modify_of_ne (fun _ => rfl) hrow (hid ▸ ht)) (by simp [nodeEvent, hpc])
        (Or.inr hstores)
  case branchFound now sid toSkip te hpc hfound =>
    obtain ⟨row, hrow, hid⟩ := findTask_some hfound
    have hstores := ({ s with skipped := insert sid s.skipped } : RunState).saveTask_stores ha te
      (f := (·.skip now)) (fun _ => rfl)
    have hevent : nodeEvent node.taskId s ((({ s with skipped := insert sid s.skipped }).saveTask te
        (·.skip now)).goto node.taskId (.branching toSkip)) = some (.taskSkipped sid) := by
      simp [nodeEvent, hpc]
    rw [hevent]
    by_cases ht : sid = t
    · subst ht
      exact .told rfl rfl (rowStatus_modify_first (fun _ => rfl) hfound hrow) rfl hstores
    · refine .same (rowStatus_modify_of_ne (fun _ => rfl) hrow (hid ▸ ht)) ?_ (Or.inr hstores)
      rintro e ⟨⟩
      simpa [Event.task?] using ht
  case branchCreate now sid toSkip target hpc htarget =>
    have hid : (TaskExecution.new E.settings target).taskDefinitionId = sid := (E.dag.getTask_ok htarget).2
    have hstores := (s.flush (.new E.settings target)).saveTask_stores (ha.flush _) s.mem.tasks.length
      (f := (·.skip now)) (fun _ => rfl)
    have hrows : ((s.flush (.new E.settings target)).saveTask s.mem.tasks.length (·.skip now)).mem.tasks =
        s.mem.tasks ++ [(TaskExecution.new E.settings target).skip now] := modify_concat ..
    have hstatus : rowStatus t ((s.flush (.new E.settings target)).saveTask s.mem.tasks.length
        (·.skip now)).mem.tasks =
          (rowStatus t s.mem.tasks).or (if sid = t then some .skipped else none) := by
      rw [hrows, rowStatus_append, ← hid]
      rfl
    have hevent : nodeEvent node.taskId s (((s.flush (.new E.settings target)).saveTask s.mem.tasks.length
        (·.skip now)).goto node.taskId (.branching toSkip)) = some (.taskSkipped sid) := by
      simp [nodeEvent, hpc]
    rw [hevent]
    by_cases ht : sid = t
    · subst ht
      have hshows : Event.Shows (.taskSkipped sid) .skipped := rfl
      refine .told rfl rfl ?_ hshows hstores
      rw [RunState.goto_mem, hstatus, if_pos rfl]
      rcases rows.marking node.taskId toSkip hpc with h | h <;> rw [h] <;> rfl
    · refine .same ?_ ?_ (Or.inr hstores)
      · rw [RunState.goto_mem, hstatus, if_neg ht, Option.or_none]
      · rintro e ⟨⟩
        simpa [Event.task?] using ht
  case throw h => cases h <;> exact .same rfl (by simp [nodeEvent, *]) (Or.inl rfl)
  all_goals exact .same rfl (by simp [nodeEvent, *]) (Or.inl rfl)

private theorem MainMove.rowEffect (h : MainMove E s s') (ha : AgreesOn id s)
    (hlookup : s.main = .lookup → s.mem.tasks = s.db.tasks)
    (hcreating : ∀ sids, s.main = .skipCreating t sids → rowStatus t s.mem.tasks = none) :
    RowEffect t none s s' (bodyEvent s s') := by
  have hrefreshed : rowStatus t s.refreshed.mem.tasks = rowStatus t s.mem.tasks := by
    rw [RunState.tasks_refreshed ha]
  cases h
  case lookup hmain =>
    exact .same (by rw [hlookup hmain]) (by simp [bodyEvent, hmain]) (Or.inl rfl)
  case start now hmain hstart =>
    refine .same rfl (fun e he => ?_) (Or.inr (s.saveExecution_stores ha _))
    simp only [bodyEvent, hmain, Option.some.injEq] at he
    simp [← he, Event.task?]
  case noStart hmain hstart =>
    refine .same rfl (fun e he => ?_) (Or.inl rfl)
    simp only [bodyEvent, hmain, Option.some.injEq] at he
    simp [← he, Event.task?]
  case load hmain =>
    obtain ⟨_, _, _, h⟩ := foldl_loadRow s.mem.tasks s
    rw [h]
    exact .same rfl (by simp [bodyEvent, hmain]) (Or.inl rfl)
  case iterate hmain hlt => exact .same hrefreshed (by simp [bodyEvent, hmain]) (Or.inl rfl)
  case exit hmain hle => exact .same hrefreshed (by simp [bodyEvent, hmain]) (Or.inl rfl)
  case cancelled hmain hcancelled =>
    refine .same rfl (fun e he => ?_) (Or.inl rfl)
    simp only [bodyEvent, hmain, hcancelled, if_true, Option.some.injEq] at he
    simp [← he, Event.task?]
  case recordFailure now hmain hlive hfailed =>
    refine .same rfl (fun e he => ?_) (Or.inr (s.saveExecution_stores ha _))
    simp only [bodyEvent, hmain, hlive, if_false, Option.some.injEq] at he
    simp [← he, Event.task?]
  case skipFound now sid sids te hmain hfound =>
    obtain ⟨row, hrow, hid⟩ := findTask_some hfound
    have hstores := s.saveTask_stores ha te (f := (·.skip now)) (fun _ => rfl)
    by_cases ht : sid = t
    · subst ht
      exact .told (e := .taskSkipped sid) (by simp [bodyEvent, hmain]) rfl
        (rowStatus_modify_first (fun _ => rfl) hfound hrow) rfl hstores
    · refine .same (rowStatus_modify_of_ne (fun _ => rfl) hrow (hid ▸ ht)) (fun e he => ?_) (Or.inr hstores)
      simp only [bodyEvent, hmain, Option.some.injEq] at he
      simpa [← he, Event.task?] using ht
  case skipMissing hmain hfound => exact .same rfl (by simp [bodyEvent, hmain]) (Or.inl rfl)
  case skipCreate now sid sids target hmain htarget =>
    have hid : (TaskExecution.new E.settings target).taskDefinitionId = sid := (E.dag.getTask_ok htarget).2
    have hstores := (s.flush (.new E.settings target)).saveTask_stores (ha.flush _) s.mem.tasks.length
      (f := (·.skip now)) (fun _ => rfl)
    have hstatus : rowStatus t ((s.flush (.new E.settings target)).saveTask s.mem.tasks.length
        (·.skip now)).mem.tasks =
          (rowStatus t s.mem.tasks).or (if sid = t then some .skipped else none) := by
      have hrows : ((s.flush (.new E.settings target)).saveTask s.mem.tasks.length (·.skip now)).mem.tasks =
          s.mem.tasks ++ [(TaskExecution.new E.settings target).skip now] := modify_concat ..
      rw [hrows, rowStatus_append, ← hid]
      rfl
    by_cases ht : sid = t
    · subst ht
      have hshows : Event.Shows (.taskSkipped sid) .skipped := rfl
      refine .told (by simp [bodyEvent, hmain]) rfl ?_ hshows hstores
      refine hstatus.trans ?_
      rw [if_pos rfl, hcreating sids hmain]
      rfl
    · refine .same (hstatus.trans (by rw [if_neg ht, Option.or_none])) (fun e he => ?_) (Or.inr hstores)
      simp only [bodyEvent, hmain, Option.some.injEq] at he
      simpa [← he, Event.task?] using ht
  case settled hmain hready hle => exact .same hrefreshed (by simp [bodyEvent, hmain]) (Or.inl rfl)
  case gatheredFailed hmain hdone hfailed =>
    exact .same hrefreshed (by simp [bodyEvent, hmain]) (Or.inl rfl)
  case complete now ex hmain hlive hfailed hex =>
    refine .same rfl (fun e he => ?_) (Or.inr (s.saveExecution_stores ha _))
    simp only [bodyEvent, hmain, hlive, hfailed, or_self, Bool.false_eq_true, if_false,
      Option.some.injEq] at he
    simp [← he, Event.task?]
  all_goals exact .same rfl (by simp [bodyEvent, *]) (Or.inl rfl)

/-! ### Rows are added at the end, and stay about their tasks -/

theorem NodeMove.ids_extended (h : NodeMove E answers node s s') (ha : AgreesOn id s) :
    s.mem.tasks.map (·.taskDefinitionId) <+: s'.mem.tasks.map (·.taskDefinitionId) := by
  have hwrite (rows : List TaskExecution) (te : Nat) {f : TaskExecution → TaskExecution}
      (hf : ∀ row : TaskExecution, (f row).taskDefinitionId = row.taskDefinitionId) :
      rows.map (·.taskDefinitionId) <+: (rows.modify te f).map (·.taskDefinitionId) := by
    rw [map_modify _ hf]
  cases h
  case acquire =>
    rw [RunState.goto_mem, RunState.tasks_refreshed (show AgreesOn id { s with sem := s.sem - 1 } from ha)]
  case create => simp
  case begin => exact hwrite _ _ fun _ => rfl
  case answer => exact hwrite _ _ fun _ => TaskExecution.answered_taskDefinitionId ..
  case again => exact hwrite _ _ fun _ => rfl
  case branchFound => exact hwrite _ _ fun _ => rfl
  case branchCreate now _ _ target _ _ =>
    have hadd : s.mem.tasks.map (·.taskDefinitionId) <+:
        (s.mem.tasks ++ [TaskExecution.new E.settings target]).map (·.taskDefinitionId) := by simp
    exact hadd.trans (hwrite _ _ fun _ => rfl)
  all_goals exact List.prefix_refl _

/-- While coroutines are under way, the body leaves the rows alone. -/
private theorem MainMove.tasks_of_gathers (h : MainMove E s s') (ha : AgreesOn id s) (hg : s.main.gathers = true) :
    s'.mem.tasks = s.mem.tasks := by
  cases h
  case gatheredFailed => exact RunState.tasks_refreshed ha
  case gathered => rfl
  case propagate => rfl
  all_goals simp_all [MainPc.gathers]

/-! ### What is told and what is committed -/

def Feed.Silent (f : Feed) (t : TaskId) : Prop :=
  ∀ who e, f.pending who = some e → e.task? ≠ some t

/-- What has been told of a task fits a status of its row, and so does what waits to be published. -/
structure Told (t : TaskId) (found : Option TaskStatus) (f : Feed) (status : Option TaskStatus) : Prop where
  pending : ∀ who e, f.pending who = some e → e.task? = some t → ∃ shown, status = some shown ∧ e.Shows shown
  quiet : f.Silent t → Tells found (lastAbout t f.sent) status

/-- The session, the store and the stream, about one task. -/
structure Mirror (E : Engine) (t : TaskId) (found : Option TaskStatus) (f : Feed) : Prop where
  followed : ∃ l, Followed f l
  agrees : AgreesOn id f.run
  unread : f.run.main = .lookup → f.run.mem.tasks = f.run.db.tasks
  apart : f.run.pc t ≠ .done → ∀ c ∈ E.dag.predecessors t, f.run.pc c = .done
  targets : ∀ c, t ∈ (f.run.pc c).targets → c ∈ E.dag.predecessors t
  skips : ∀ c, f.pending (some c) = some (.taskSkipped t) → c ∈ E.dag.predecessors t
  rows : FirstRow t f.run
  creating : ∀ sids, f.run.main = .skipCreating t sids → rowStatus t f.run.mem.tasks = none
  paused : (f.run.pc t).between?.isSome → ∃ error, f.pending (some t) = some (.taskFailed t error) ∨
    f.pending (some t) = none ∧ lastAbout t f.sent = some (.taskFailed t error)
  held : Told t found f (rowStatus t f.run.mem.tasks)
  stored : Told t found f (rowStatus t f.run.db.tasks)

variable {f f' : Feed} {who : Publisher} {event : Option Event}

private theorem Feed.Silent.of_own (hidle : f.pending who = none)
    (h : Feed.Silent ⟨s, Function.update f.pending who event, f.sent⟩ t) : f.Silent t := by
  intro w e he
  have hw : w ≠ who := by
    rintro rfl
    rw [hidle] at he
    cases he
  exact h w e (by simpa [hw] using he)

/-- A step that tells nothing of the task. -/
private theorem Told.untold (told : Told t found f status) (hidle : f.pending who = none)
    (hevent : ∀ e, event = some e → e.task? ≠ some t) :
    Told t found ⟨s, Function.update f.pending who event, f.sent⟩ status where
  pending := by
    intro w e he htask
    by_cases hw : w = who
    · subst hw
      exact absurd htask (hevent e (by simpa using he))
    · exact told.pending w e (by simpa [hw] using he) htask
  quiet := fun h => told.quiet (h.of_own hidle)

/-- A step that commits what it is going to tell of the task. -/
private theorem Told.telling {e : Event} {shown : TaskStatus} (htask : e.task? = some t) (hshows : e.Shows shown)
    (hothers : ∀ w ≠ who, ∀ e, f.pending w = some e → e.task? = some t → e.Shows shown) :
    Told t found ⟨s, Function.update f.pending who (some e), f.sent⟩ (some shown) where
  pending := by
    intro w e' he' htask'
    refine ⟨shown, rfl, ?_⟩
    by_cases hw : w = who
    · subst hw
      obtain rfl : e = e' := by simpa using he'
      exact hshows
    · exact hothers w hw e' (by simpa [hw] using he') htask'
  quiet := fun h => absurd htask (h who e (by simp))

/-- The first row of the task is new. -/
private theorem Told.created (told : Told t found f none) (hidle : f.pending who = none) :
    Told t found ⟨s, Function.update f.pending who none, f.sent⟩ (some .pending) where
  pending := by
    intro w e he htask
    have hw : w ≠ who := by
      rintro rfl
      simp at he
    obtain ⟨shown, h, _⟩ := told.pending w e (by simpa [hw] using he) htask
    cases h
  quiet := by
    intro h
    have htells := told.quiet (h.of_own hidle)
    cases hlast : lastAbout t f.sent with
    | some e =>
      rw [hlast] at htells
      obtain ⟨_, h, _⟩ := htells
      cases h
    | none =>
      rw [hlast] at htells
      refine Or.inr ⟨?_, rfl⟩
      rcases htells with h | h
      · exact h.symm
      · exact h.1

/-- The next attempt, after what has been told of the one before. -/
private theorem Told.again {error : Option String} (hlast : lastAbout t f.sent = some (.taskFailed t error))
    (hothers : ∀ w ≠ who, ∀ e, f.pending w = some e → e.task? ≠ some t) :
    Told t found ⟨s, Function.update f.pending who none, f.sent⟩ (some .pending) where
  pending := by
    intro w e he htask
    have hw : w ≠ who := by
      rintro rfl
      simp at he
    exact absurd htask (hothers w hw e (by simpa [hw] using he))
  quiet := by
    intro _
    have hlast : lastAbout t (⟨s, Function.update f.pending who none, f.sent⟩ : Feed).sent =
        some (.taskFailed t error) := hlast
    rw [hlast]
    exact ⟨.pending, rfl, Or.inr rfl⟩

private theorem lastAbout_append (t : TaskId) (es : List Event) (e : Event) :
    lastAbout t (es ++ [e]) = if e.task? = some t then some e else lastAbout t es := by
  by_cases h : e.task? = some t <;> simp [lastAbout, h]

/-- A publication. -/
private theorem Told.send (told : Told t found f status) {e : Event} (he : f.pending who = some e) :
    Told t found { f with pending := Function.update f.pending who none, sent := f.sent ++ [e] } status where
  pending := by
    intro w e' he' htask
    have hw : w ≠ who := by
      rintro rfl
      simp at he'
    exact told.pending w e' (by simpa [hw] using he') htask
  quiet := by
    intro h
    rw [lastAbout_append]
    by_cases htask : e.task? = some t
    · rw [if_pos htask]
      exact told.pending who e he htask
    · rw [if_neg htask]
      refine told.quiet fun w e' he' => ?_
      by_cases hw : w = who
      · subst hw
        rw [he] at he'
        cases he'
        exact htask
      · exact h w e' (by simpa [hw] using he')

/-! ### Who publishes about a task -/

private theorem NodeMove.skip_target (h : NodeMove E answers node s s')
    (he : nodeEvent node.taskId s s' = some (.taskSkipped t)) : t ∈ (s.pc node.taskId).targets := by
  cases h
  case begin now te input row taskClass hpc hrow hle hlive hclass =>
    simp [nodeEvent, hpc, hrow] at he
  case answer now te input row outcome hpc hrow hlegal hcaught =>
    cases hok : outcome.ok <;> simp [nodeEvent, hpc, hrow, hok] at he
  case branchFound now sid toSkip te hpc hfound =>
    obtain rfl : sid = t := by simpa [nodeEvent, hpc] using he
    simp [hpc, NodePc.targets]
  case branchCreate now sid toSkip target hpc htarget =>
    obtain rfl : sid = t := by simpa [nodeEvent, hpc] using he
    simp [hpc, NodePc.targets]
  case throw h => cases h <;> simp [nodeEvent, *] at he
  all_goals simp [nodeEvent, *] at he

/-- A coroutine marks what it was about to mark, or what its condition has just decided. -/
theorem NodeMove.targets (h : NodeMove E answers node s s') (ht : t ∈ (s'.pc node.taskId).targets) :
    t ∈ (s.pc node.taskId).targets ∨ ∃ te row toSkip, s.pc node.taskId = .finishing te true ∧
      s.mem.tasks[te]? = some row ∧ node.taskType = "condition" ∧
        branchSkips E.strOf E.dag node row.outputData = .ok toSkip ∧ t ∈ toSkip := by
  cases h
  case answer now te input row outcome hpc hrow hlegal hcaught =>
    cases hok : outcome.ok <;> simp [hok, NodePc.targets] at ht
  case branch te row toSkip hpc hrow htype hlock hskips =>
    exact Or.inr ⟨te, row, toSkip, hpc, hrow, htype, hskips, by simpa [NodePc.targets] using ht⟩
  case branchFound now sid toSkip te hpc hfound =>
    rw [hpc]
    exact Or.inl (List.mem_cons_of_mem _ (by simpa [NodePc.targets] using ht))
  case branchMissing sid toSkip hpc hfound =>
    rw [hpc]
    exact Or.inl (by simpa [NodePc.targets] using ht)
  case branchCreate now sid toSkip target hpc htarget =>
    rw [hpc]
    exact Or.inl (List.mem_cons_of_mem _ (by simpa [NodePc.targets] using ht))
  all_goals simp [NodePc.targets] at ht

/-- A coroutine goes on with its row, or it has just found or made it. -/
private theorem NodeMove.own_row (h : NodeMove E answers node s s')
    (hcreating : s.pc node.taskId = .creating → findTask s.mem.tasks node.taskId = none)
    (hrow : (s'.pc node.taskId).row? = some te) :
    (s.pc node.taskId).row? = some te ∨ findTask s'.mem.tasks node.taskId = some te := by
  cases h
  case found hpc _ _ hfound =>
    obtain rfl : _ = te := by simpa [NodePc.row?] using hrow
    exact Or.inr hfound
  case create hpc =>
    obtain rfl : s.mem.tasks.length = te := by simpa [NodePc.row?] using hrow
    have hnone := hcreating hpc
    rw [findTask] at hnone
    simp [findTask, List.findIdx?_append, hnone, TaskExecution.new, List.findIdx?_cons]
  case answer now te input row outcome hpc _ _ _ =>
    cases hok : outcome.ok <;> simp_all [NodePc.row?]
  case throw h => cases h <;> simp [NodePc.row?] at hrow
  all_goals simp_all [NodePc.row?]

private theorem NodeMove.creating (h : NodeMove E answers node s s') (hpc : s'.pc node.taskId = .creating) :
    findTask s'.mem.tasks node.taskId = none := by
  cases h
  case missing hfound => exact hfound
  case answer now te input row outcome _ _ _ _ => cases hok : outcome.ok <;> simp [hok] at hpc
  all_goals simp at hpc

private theorem NodeMove.marking {toSkip : List TaskId} (h : NodeMove E answers node s s')
    (hpc : s'.pc node.taskId = .branchCreating t toSkip) : findTask s'.mem.tasks t = none := by
  cases h
  case branchMissing hfound =>
    simp only [RunState.goto_pc, Function.update_self, NodePc.branchCreating.injEq] at hpc
    exact hpc.1 ▸ hfound
  case answer now te input row outcome _ _ _ _ => cases hok : outcome.ok <;> simp [hok] at hpc
  all_goals simp at hpc

/-- A pause between two attempts begins with the publication of the first one's failure. -/
private theorem NodeMove.paused (h : NodeMove E answers node s s')
    (hpc : (s'.pc node.taskId).between?.isSome) :
    (∃ error, nodeEvent node.taskId s s' = some (.taskFailed node.taskId error)) ∨
      (s.pc node.taskId).between?.isSome ∧ nodeEvent node.taskId s s' = none := by
  cases h
  case answer now te input row outcome hpc' hrow _ _ =>
    cases hok : outcome.ok with
    | true => simp [hok, NodePc.between?] at hpc
    | false => exact Or.inl (by simp [nodeEvent, hpc', hrow])
  case backOff hpc' _ _ _ => exact Or.inr (by simp [nodeEvent, hpc', NodePc.between?])
  all_goals simp [NodePc.between?] at hpc

private theorem MainMove.creating {sids : List TaskId} (h : MainMove E s s')
    (hmain : s'.main = .skipCreating t sids) :
    findTask s'.mem.tasks t = none := by
  cases h
  case skipMissing hfound =>
    cases hmain
    exact hfound
  all_goals simp at hmain

namespace Mirror
variable (inv : Mirror E t found f)
include inv

private theorem idle : Idle f.run := inv.followed.elim fun _ h => h.idle

private theorem located : Located f.run := inv.followed.elim fun _ h => h.located

/-- A coroutine that is about to mark the task meets none of the task's own. -/
theorem done_of_target {c : TaskId} (h : t ∈ (f.run.pc c).targets) : f.run.pc t = .done := by
  by_contra ht
  rw [inv.apart ht c (inv.targets c h)] at h
  simp [NodePc.targets] at h

/-- While a coroutine is under way, what waits to be published about another task is a skip. -/
theorem skip_of_pending {w : Publisher} {e : Event} (hactive : ∃ c, f.run.pc c ≠ .done)
    (he : f.pending w = some e) (htask : e.task? = some t) (hw : w ≠ some t) :
    e = .taskSkipped t ∧ f.run.pc t = .done := by
  obtain ⟨l, followed⟩ := inv.followed
  obtain ⟨c, hc⟩ := hactive
  cases w with
  | none =>
    have hspan := followed.span
    rcases followed.idle.main_of_active hc with hmain | ⟨_, hmain⟩ <;>
      (simp only [SpanFits, hmain] at hspan; rw [he] at hspan; cases hspan.2)
  | some c =>
    rcases followed.own c e he with h | ⟨u, rfl⟩
    · rw [htask, Option.some.injEq] at h
      exact absurd (congrArg some h.symm) hw
    · obtain rfl : u = t := by simpa [Event.task?] using htask
      refine ⟨rfl, ?_⟩
      by_contra ht
      exact followed.active c _ he (inv.apart ht c (inv.skips c he))

/-- Before and after a wave only the body publishes. -/
theorem silent_of_between {w : Publisher} {e : Event} (h : f.run.main.gathers = false)
    (he : f.pending w = some e) : w = none := by
  obtain ⟨l, followed⟩ := inv.followed
  cases w with
  | none => rfl
  | some c => exact absurd (followed.idle.between h c) (followed.active c e he)

/-- A step keeps the rows and the stream together. -/
theorem effect (hidle : f.pending who = none) (h : RowEffect t who f.run s event)
    (htelling : ∀ e shown, event = some e → e.task? = some t → e.Shows shown →
      ∀ w ≠ who, ∀ e', f.pending w = some e' → e'.task? = some t → e'.Shows shown)
    (hagain : who = some t → ∀ w ≠ who, ∀ e, f.pending w = some e → e.task? ≠ some t) :
    Told t found ⟨s, Function.update f.pending who event, f.sent⟩ (rowStatus t s.mem.tasks) ∧
      Told t found ⟨s, Function.update f.pending who event, f.sent⟩ (rowStatus t s.db.tasks) := by
  cases h with
  | same hrow hevent hdb =>
    have hheld := hrow ▸ inv.held.untold (s := s) hidle hevent
    refine ⟨hheld, ?_⟩
    rcases hdb with hdb | hdb <;> rw [hdb]
    · exact inv.stored.untold hidle hevent
    · exact hheld
  | created hwho hold hnew hevent hdb =>
    subst hevent
    have hheld := inv.held
    rw [hold] at hheld
    rw [hnew, hdb]
    exact ⟨hheld.created hidle, inv.stored.untold hidle (by simp)⟩
  | told hevent htask hrow hshows hdb =>
    subst hevent
    rw [hdb, hrow]
    have htold := @Told.telling s t found f _ _ _ htask hshows (htelling _ _ rfl htask hshows)
    exact ⟨htold, htold⟩
  | again hwho hpc hrow hevent hdb =>
    subst hevent hwho
    obtain ⟨error, h⟩ := inv.paused hpc
    rw [hidle] at h
    obtain ⟨_, hlast⟩ := h.resolve_left (by simp)
    rw [hdb, hrow]
    have htold := @Told.again s t found f _ _ hlast (hagain rfl)
    exact ⟨htold, htold⟩

private theorem nodeMove_told (hidle : f.pending (some node.taskId) = none) (h : NodeMove E answers node f.run s) :
    Told t found ⟨s, Function.update f.pending (some node.taskId) (nodeEvent node.taskId f.run s), f.sent⟩
        (rowStatus t s.mem.tasks) ∧
      Told t found ⟨s, Function.update f.pending (some node.taskId) (nodeEvent node.taskId f.run s), f.sent⟩
        (rowStatus t s.db.tasks) := by
  have hactive : ∃ c, f.run.pc c ≠ .done := ⟨_, h.pc_ne_done⟩
  refine inv.effect hidle (h.rowEffect inv.agrees inv.located inv.rows) ?_ ?_
  · intro e shown he htask hshows w hw e' he' htask'
    by_cases ht : node.taskId = t
    · subst ht
      exact absurd (inv.skip_of_pending hactive he' htask' hw).2 h.pc_ne_done
    · -- a coroutine tells of another task only that it is skipped, and that task's own is over
      obtain rfl : e = .taskSkipped t := by
        rcases (h.event he).2 with h | ⟨u, rfl⟩
        · rw [htask, Option.some.injEq] at h
          exact absurd h.symm ht
        · obtain rfl : u = t := by simpa [Event.task?] using htask
          rfl
      have hdone := inv.done_of_target (h.skip_target he)
      have hwt : w ≠ some t := by
        rintro rfl
        obtain ⟨l, followed⟩ := inv.followed
        exact followed.active t e' he' hdone
      rw [(inv.skip_of_pending hactive he' htask' hwt).1]
      exact hshows
  · intro hwho w hw e he htask
    rw [hwho] at hw
    refine absurd (inv.skip_of_pending hactive he htask hw).2 ?_
    rw [← Option.some.inj hwho]
    exact h.pc_ne_done

/-- What the coroutine of another task does to the first row of this one. -/
theorem foreign_effect (h : NodeMove E answers node f.run s) (ht : node.taskId ≠ t) :
    rowStatus t s.mem.tasks = rowStatus t f.run.mem.tasks ∨
      rowStatus t s.mem.tasks = some .skipped ∧ f.run.pc t = .done := by
  have effect := h.rowEffect inv.agrees inv.located inv.rows
  have hwho : ¬ (some node.taskId : Publisher) = some t := fun heq => ht (Option.some.inj heq)
  cases effect with
  | same hrow => exact Or.inl hrow
  | created hsame => exact absurd hsame hwho
  | again hsame => exact absurd hsame hwho
  | @told e shown hevent htask hrow hshows hdb =>
    rcases (h.event hevent).2 with h' | ⟨u, rfl⟩
    · rw [htask, Option.some.injEq] at h'
      exact absurd h'.symm ht
    · obtain rfl : u = t := by simpa [Event.task?] using htask
      have hshown : shown = .skipped := hshows
      exact Or.inr ⟨hshown ▸ hrow, inv.done_of_target (h.skip_target hevent)⟩

private theorem nodeMove_rows (h : NodeMove E answers node f.run s) : FirstRow t s where
  first := by
    intro te hte
    by_cases ht : node.taskId = t
    · subst ht
      rcases h.own_row inv.rows.creating hte with hold | hnew
      · exact findTask_extended (h.ids_extended inv.agrees) (inv.rows.first te hold)
      · exact hnew
    · rw [h.pc_of_ne (Ne.symm ht)] at hte
      exact findTask_extended (h.ids_extended inv.agrees) (inv.rows.first te hte)
  creating := by
    intro hpc
    by_cases ht : node.taskId = t
    · subst ht
      exact h.creating hpc
    · rw [h.pc_of_ne (Ne.symm ht)] at hpc
      rcases inv.foreign_effect h ht with hsame | ⟨_, hdone⟩
      · rw [← rowStatus_eq_none, hsame, rowStatus_eq_none]
        exact inv.rows.creating hpc
      · rw [hpc] at hdone
        cases hdone
  marking := by
    intro c toSkip hpc
    by_cases hc : c = node.taskId
    · subst hc
      exact Or.inl (rowStatus_eq_none.mpr (h.marking hpc))
    · rw [h.pc_of_ne hc] at hpc
      have hdone := inv.done_of_target (c := c) (by simp [hpc, NodePc.targets])
      have ht : node.taskId ≠ t := fun ht => h.pc_ne_done (ht ▸ hdone)
      rcases inv.foreign_effect h ht with hsame | ⟨hskipped, _⟩
      · rw [hsame]
        exact inv.rows.marking c toSkip hpc
      · exact Or.inr hskipped

private theorem nodeMove (hmarked : MarkedByPredecessors E t) (hnode : E.dag.getTask node.taskId = .ok node)
    (hidle : f.pending (some node.taskId) = none) (h : NodeMove E answers node f.run s) :
    Mirror E t found
      ⟨s, Function.update f.pending (some node.taskId) (nodeEvent node.taskId f.run s), f.sent⟩ where
  followed := inv.followed.imp fun _ followed => followed.nodeMove hidle h
  agrees := h.agreesOn TaskExecution.id_writable inv.agrees
  unread := by
    intro hmain
    refine absurd (inv.idle.between ?_ node.taskId) h.pc_ne_done
    rw [← h.main, hmain]
    rfl
  apart := by
    intro ht c hc
    have hbefore : f.run.pc t ≠ .done := by
      by_cases heq : t = node.taskId
      · exact heq ▸ h.pc_ne_done
      · rwa [h.pc_of_ne heq] at ht
    have hdone := inv.apart hbefore c hc
    rw [h.pc_of_ne fun heq => h.pc_ne_done (heq ▸ hdone)]
    exact hdone
  targets := by
    intro c hc
    by_cases heq : c = node.taskId
    · subst heq
      rcases h.targets hc with hold | ⟨_, _, toSkip, _, _, htype, hskips, ht⟩
      · exact inv.targets _ hold
      · exact hmarked node (E.dag.getTask_ok hnode).1 htype _ toSkip hskips ht
    · rw [h.pc_of_ne heq] at hc
      exact inv.targets c hc
  skips := by
    intro c hc
    by_cases heq : c = node.taskId
    · subst heq
      exact inv.targets _ (h.skip_target (by simpa using hc))
    · exact inv.skips c (by simpa [heq] using hc)
  rows := inv.nodeMove_rows h
  creating := by
    intro sids hmain
    refine absurd (inv.idle.between ?_ node.taskId) h.pc_ne_done
    rw [← h.main, hmain]
    rfl
  paused := by
    intro hpc
    by_cases heq : t = node.taskId
    · subst heq
      rcases h.paused hpc with ⟨error, hevent⟩ | ⟨hold, hevent⟩
      · exact ⟨error, Or.inl (by simp [hevent])⟩
      · obtain ⟨error, h⟩ := inv.paused hold
        rw [hidle] at h
        exact ⟨error, Or.inr ⟨by simp [hevent], (h.resolve_left (by simp)).2⟩⟩
    · rw [h.pc_of_ne heq] at hpc
      obtain ⟨error, h⟩ := inv.paused hpc
      exact ⟨error, by simpa [heq] using h⟩
  held := (inv.nodeMove_told hidle h).1
  stored := (inv.nodeMove_told hidle h).2

private theorem mainMove_told (hidle : f.pending none = none) (h : MainMove E f.run s) :
    Told t found ⟨s, Function.update f.pending none (bodyEvent f.run s), f.sent⟩ (rowStatus t s.mem.tasks) ∧
      Told t found ⟨s, Function.update f.pending none (bodyEvent f.run s), f.sent⟩
        (rowStatus t s.db.tasks) := by
  refine inv.effect hidle (h.rowEffect inv.agrees inv.unread inv.creating) ?_ (by simp)
  intro e shown he htask hshows w hw e' he' htask'
  have hgathers : f.run.main.gathers = false := by
    cases hmain : f.run.main <;> first | rfl | simp [bodyEvent, hmain] at he
  exact absurd (inv.silent_of_between hgathers he') hw

private theorem mainMove_rows (h : MainMove E f.run s) : FirstRow t s := by
  have hidle := inv.idle
  by_cases hg : f.run.main.gathers = true
  · have htasks := h.tasks_of_gathers inv.agrees hg
    rcases h.pc with ⟨hpc, _⟩ | ⟨hmain, _⟩
    · exact ⟨by rw [hpc, htasks]; exact inv.rows.first, by rw [hpc, htasks]; exact inv.rows.creating,
        by rw [hpc, htasks]; exact inv.rows.marking⟩
    · rw [hmain] at hg
      cases hg
  · -- the coroutines are over or have yet to begin
    have hquiet (c : TaskId) : s.pc c = .done ∨ s.pc c = .waiting := by
      rcases h.pc with ⟨hpc, _⟩ | ⟨_, _, _, hpc⟩
      · exact Or.inl (hpc ▸ hidle.between (by simpa using hg) c)
      · rw [hpc]
        by_cases hc : c ∈ s.wave <;> simp [hc]
    refine ⟨fun te hte => ?_, fun hpc => ?_, fun c toSkip hpc => ?_⟩
    · rcases hquiet t with h | h <;> rw [h] at hte <;> cases hte
    · rcases hquiet t with h | h <;> rw [h] at hpc <;> cases hpc
    · rcases hquiet c with h | h <;> rw [h] at hpc <;> cases hpc

private theorem mainMove (hidle : f.pending none = none) (h : MainMove E f.run s) :
    Mirror E t found ⟨s, Function.update f.pending none (bodyEvent f.run s), f.sent⟩ where
  followed := inv.followed.imp fun _ followed => followed.mainMove hidle h
  agrees := h.agreesOn TaskExecution.id_writable inv.agrees
  unread := fun hmain => absurd hmain h.early.1
  apart := by
    intro ht c hc
    rcases h.pc with ⟨hpc, _⟩ | ⟨_, _, hwave, hpc⟩
    · rw [hpc] at ht ⊢
      exact inv.apart ht c hc
    · rw [hpc] at ht ⊢
      have htw : t ∈ s.wave := by
        by_contra htw
        exact ht (if_neg htw)
      have hcompleted := (E.dag.mem_readyIds.mp (hwave ▸ htw)).2.2.2.2 c hc
      exact if_neg fun hcw => (E.dag.mem_readyIds.mp (hwave ▸ hcw)).2.1 hcompleted
  targets := by
    intro c hc
    rcases h.pc with ⟨hpc, _⟩ | ⟨_, _, _, hpc⟩
    · rw [hpc] at hc
      exact inv.targets c hc
    · rw [hpc] at hc
      by_cases hcw : c ∈ s.wave <;> simp [hcw, NodePc.targets] at hc
  skips := fun c hc => inv.skips c (by simpa using hc)
  rows := inv.mainMove_rows h
  creating := fun sids hmain => rowStatus_eq_none.mpr (h.creating hmain)
  paused := by
    intro hpc
    rcases h.pc with ⟨hsame, _⟩ | ⟨_, _, _, hwave⟩
    · rw [hsame] at hpc
      simpa using inv.paused hpc
    · rw [hwave] at hpc
      by_cases htw : t ∈ s.wave <;> simp [htw, NodePc.between?] at hpc
  held := (inv.mainMove_told hidle h).1
  stored := (inv.mainMove_told hidle h).2

private theorem send {e : Event} (he : f.pending who = some e) :
    Mirror E t found { f with pending := Function.update f.pending who none, sent := f.sent ++ [e] } where
  followed := inv.followed.elim fun _ followed => followed.send he
  agrees := inv.agrees
  unread := inv.unread
  apart := inv.apart
  targets := inv.targets
  skips := by
    intro c hc
    refine inv.skips c ?_
    by_cases hcw : some c = who
    · simp [hcw] at hc
    · simpa [hcw] using hc
  rows := inv.rows
  creating := inv.creating
  paused := by
    intro hpc
    obtain ⟨error, h⟩ := inv.paused hpc
    refine ⟨error, ?_⟩
    by_cases htw : some t = who
    · subst htw
      rw [he] at h
      have hevent : e = .taskFailed t error := by simpa using h
      exact Or.inr ⟨by simp, by rw [lastAbout_append, if_pos (by rw [hevent]; rfl), hevent]⟩
    · rcases h with h | ⟨h, hlast⟩
      · exact Or.inl (by simpa [htw] using h)
      · refine Or.inr ⟨by simpa [htw] using h, ?_⟩
        rw [lastAbout_append, if_neg ?_]
        · exact hlast
        · intro htask
          -- while the task's coroutine pauses, nobody else tells of the task
          have hactive : f.run.pc t ≠ .done := by
            intro hdone
            rw [hdone] at hpc
            cases hpc
          exact hactive (inv.skip_of_pending ⟨t, hactive⟩ he htask (Ne.symm htw)).2
  held := inv.held.send he
  stored := inv.stored.send he

omit inv in
private theorem start (E : Engine) (t : TaskId) (db : Database) :
    Mirror E t (rowStatus t db.tasks) (.start E db) where
  followed := ⟨_, .start E db⟩
  agrees := List.prefix_refl _
  unread := fun _ => rfl
  apart := by simp [Feed.start, RunState.start]
  targets := by simp [Feed.start, RunState.start, NodePc.targets]
  skips := by simp [Feed.start]
  rows := ⟨by simp [Feed.start, RunState.start, NodePc.row?], by simp [Feed.start, RunState.start],
    by simp [Feed.start, RunState.start]⟩
  creating := by simp [Feed.start, RunState.start]
  paused := by simp [Feed.start, RunState.start, NodePc.between?]
  held := ⟨by simp [Feed.start], fun _ => Or.inl rfl⟩
  stored := ⟨by simp [Feed.start], fun _ => Or.inl rfl⟩

private theorem step (hmarked : MarkedByPredecessors E t) (h : Feed.Step E answers Alone f f') :
    Mirror E t found f' := by
  cases Feed.step_cases h with
  | body hidle hmove => exact inv.mainMove hidle hmove
  | node hnode hidle hmove => exact inv.nodeMove hmarked hnode hidle hmove
  | send he => exact inv.send he
  | others halone => exact halone.elim

end Mirror

/-! ### The status of the execution -/

/-- The session holds the stored execution, and its status has been told or waits to be. -/
structure Reported (found : ExecutionState) (f : Feed) : Prop where
  idle : Idle f.run
  current : f.run.mem.execution = f.run.db.execution
  own : ∀ c e, f.pending (some c) = some e → e.status? = none
  pending : ∀ e status, f.pending none = some e → e.status? = some status →
    f.run.db.execution.status = status
  quiet : (∀ e, f.pending none = some e → e.status? = none) →
    f.run.db.execution.status = (statusTold f.sent).getD found

private theorem statusTold_append (es : List Event) (e : Event) :
    statusTold (es ++ [e]) = e.status?.or (statusTold es) := by
  cases h : e.status? <;> simp [statusTold, h]

/-- Of a session that holds the stored execution, every commit stores what it holds. -/
theorem RunState.saveExecution_execution (h : s.mem.execution = s.db.execution) (ex : WorkflowExecution) :
    (s.saveExecution ex).db.execution = ex := by
  simp [h]

private theorem RunState.saveTask_execution (te : Nat) (f : TaskExecution → TaskExecution) :
    (s.saveTask te f).db.execution = s.db.execution := by
  simp

/-- What the body does to the execution, and what is published of it. -/
private theorem MainMove.reports (h : MainMove E s s') (hcur : s.mem.execution = s.db.execution) :
    s'.mem.execution = s'.db.execution ∧
      ((∀ e, bodyEvent s s' = some e → e.status? = none) ∧
          s'.db.execution.status = s.db.execution.status ∨
        bodyEvent s s' ≠ none ∧ ∀ e, bodyEvent s s' = some e → e.status? = some s'.db.execution.status) := by
  cases h
  case lookup hmain => exact ⟨rfl, Or.inl ⟨by simp [bodyEvent, hmain], rfl⟩⟩
  case start now hmain hstart =>
    have hex := s.saveExecution_execution hcur (s.mem.execution.start now)
    refine ⟨hex.symm, Or.inr ⟨by simp [bodyEvent, hmain], fun e he => ?_⟩⟩
    simp only [bodyEvent, hmain, Option.some.injEq] at he
    rw [← he, hex]
    rfl
  case noStart hmain hstart =>
    refine ⟨hcur, Or.inr ⟨by simp [bodyEvent, hmain], fun e he => ?_⟩⟩
    simp only [bodyEvent, hmain, Option.some.injEq] at he
    rw [← he, ← hcur]
    rfl
  case load hmain =>
    obtain ⟨_, _, _, h⟩ := foldl_loadRow s.mem.tasks s
    rw [h]
    exact ⟨hcur, Or.inl ⟨by simp [bodyEvent, hmain], rfl⟩⟩
  case cancelled hmain hcancelled =>
    refine ⟨hcur, Or.inr ⟨by simp [bodyEvent, hmain, hcancelled], fun e he => ?_⟩⟩
    simp only [bodyEvent, hmain, hcancelled, if_true, Option.some.injEq] at he
    rw [← he, ← hcur, hcancelled]
    rfl
  case recordFailure now hmain hlive hfailed =>
    have hex := s.saveExecution_execution hcur (s.mem.execution.fail now)
    refine ⟨hex.symm, Or.inr ⟨by simp [bodyEvent, hmain, hlive], fun e he => ?_⟩⟩
    simp only [bodyEvent, hmain, hlive, if_false, Option.some.injEq] at he
    rw [← he, hex]
    rfl
  case skipFound now sid sids te hmain hfound =>
    refine ⟨hcur.trans (s.saveTask_execution te _).symm, Or.inl ⟨fun e he => ?_, ?_⟩⟩
    · simp only [bodyEvent, hmain, Option.some.injEq] at he
      rw [← he]
      rfl
    · exact congrArg _ (s.saveTask_execution te _)
  case skipCreate now sid sids target hmain htarget =>
    have hex := (s.flush (.new E.settings target)).saveTask_execution s.mem.tasks.length (·.skip now)
    refine ⟨hcur.trans hex.symm, Or.inl ⟨fun e he => ?_, congrArg _ hex⟩⟩
    simp only [bodyEvent, hmain, Option.some.injEq] at he
    rw [← he]
    rfl
  case complete now ex hmain hlive hfailed hex =>
    have hstored := s.saveExecution_execution hcur ex
    refine ⟨hstored.symm, Or.inr ⟨by simp [bodyEvent, hmain, hlive, hfailed], fun e he => ?_⟩⟩
    simp only [bodyEvent, hmain, hlive, hfailed, or_self, Bool.false_eq_true, if_false,
      Option.some.injEq] at he
    rw [← he, hstored]
    rfl
  case iterate hmain _ => exact ⟨rfl, Or.inl ⟨by simp [bodyEvent, hmain], rfl⟩⟩
  case exit hmain _ => exact ⟨rfl, Or.inl ⟨by simp [bodyEvent, hmain], rfl⟩⟩
  case settled hmain _ _ => exact ⟨rfl, Or.inl ⟨by simp [bodyEvent, hmain], rfl⟩⟩
  case gatheredFailed hmain _ _ => exact ⟨rfl, Or.inl ⟨by simp [bodyEvent, hmain], rfl⟩⟩
  case finalCancelled hmain hcancelled =>
    exact ⟨hcur, Or.inl ⟨by simp [bodyEvent, hmain, hcancelled], rfl⟩⟩
  case finalFailed hmain hlive hfailed =>
    exact ⟨hcur, Or.inl ⟨by simp [bodyEvent, hmain, hfailed], rfl⟩⟩
  all_goals exact ⟨hcur, Or.inl ⟨by simp [bodyEvent, *], rfl⟩⟩

private theorem Event.status?_of_task? {e : Event} (h : e.task? = some t) : e.status? = none := by
  cases e <;> first | rfl | cases h

namespace Reported
variable {execution : ExecutionState} (inv : Reported execution f)
include inv

private theorem mainMove (hidle : f.pending none = none) (h : MainMove E f.run s) :
    Reported execution ⟨s, Function.update f.pending none (bodyEvent f.run s), f.sent⟩ := by
  obtain ⟨hcurrent, heffect⟩ := h.reports inv.current
  refine ⟨inv.idle.mainMove h, hcurrent, fun c e he => inv.own c e (by simpa using he),
    fun e status he hstatus => ?_, fun hquiet => ?_⟩
  · have he : bodyEvent f.run s = some e := by simpa using he
    rcases heffect with ⟨hevent, _⟩ | ⟨_, hevent⟩
    · rw [hevent e he] at hstatus
      cases hstatus
    · rw [hevent e he, Option.some.injEq] at hstatus
      exact hstatus
  · simp only [Function.update_self] at hquiet
    rcases heffect with ⟨_, hsame⟩ | ⟨hne, hevent⟩
    · exact hsame.trans (inv.quiet (by simp [hidle]))
    · obtain ⟨e, he⟩ := Option.ne_none_iff_exists'.mp hne
      have hstatus := hevent e he
      rw [hquiet e he] at hstatus
      cases hstatus

private theorem nodeMove (h : NodeMove E answers node f.run s) : Reported execution
    ⟨s, Function.update f.pending (some node.taskId) (nodeEvent node.taskId f.run s), f.sent⟩ where
  idle := inv.idle.nodeMove h
  current := by
    rw [h.execution]
    rcases h.mem_execution with hmem | hmem <;> rw [hmem]
    exact inv.current
  own := by
    intro c e he
    by_cases hc : c = node.taskId
    · subst hc
      rcases (h.event (by simpa using he)).2 with htask | ⟨u, rfl⟩
      · exact Event.status?_of_task? htask
      · rfl
    · exact inv.own c e (by simpa [hc] using he)
  pending := by
    rw [h.execution]
    exact fun e status he => inv.pending e status (by simpa using he)
  quiet := by
    rw [h.execution]
    exact fun hquiet => inv.quiet (by simpa using hquiet)

private theorem send {who : Publisher} {e : Event} (he : f.pending who = some e) :
    Reported execution
      { f with pending := Function.update f.pending who none, sent := f.sent ++ [e] } where
  idle := inv.idle
  current := inv.current
  own := by
    intro c e' he'
    refine inv.own c e' ?_
    by_cases hc : some c = who
    · simp [hc] at he'
    · simpa [hc] using he'
  pending := by
    intro e' status he'
    refine inv.pending e' status ?_
    cases who with
    | none => simp at he'
    | some c => simpa using he'
  quiet := by
    intro hquiet
    rw [statusTold_append]
    cases who with
    | some c =>
      rw [inv.own c e he]
      exact inv.quiet (by simpa using hquiet)
    | none =>
      cases hstatus : e.status? with
      | none =>
        refine inv.quiet fun e' he' => ?_
        rw [he] at he'
        cases he'
        exact hstatus
      | some status => exact inv.pending e status he hstatus

omit inv in
private theorem start (E : Engine) (db : Database) : Reported db.execution.status (.start E db) where
  idle := .start E db
  current := rfl
  own := by simp [Feed.start]
  pending := by simp [Feed.start]
  quiet := fun _ => rfl

private theorem step (h : Feed.Step E answers Alone f f') : Reported execution f' := by
  cases Feed.step_cases h with
  | body hidle hmove => exact inv.mainMove hidle hmove
  | node _ _ hmove => exact inv.nodeMove hmove
  | send he => exact inv.send he
  | others halone => exact halone.elim

end Reported

/-- Whatever the handlers answer and however the coroutines interleave: as long as no other session
writes, what has been published tells what is committed. Once nothing about it waits to be published, the
status of the execution is the last one told, and the first row of a task shows what the last event about
the task says. -/
theorem stream_replays {db : Database} (run : Run (Feed.Step E answers Alone) (.start E db) f) :
    ((∀ e, f.pending none = some e → e.status? = none) →
      f.run.db.execution.status = (statusTold f.sent).getD db.execution.status) ∧
    ∀ t, MarkedByPredecessors E t → f.Silent t →
      Tells (rowStatus t db.tasks) (lastAbout t f.sent) (rowStatus t f.run.db.tasks) := by
  have reported : Reported db.execution.status f :=
    run.invariant (fun _ _ inv h => inv.step h) (.start E db)
  refine ⟨reported.quiet, fun t hmarked hsilent => ?_⟩
  have mirror : Mirror E t (rowStatus t db.tasks) f :=
    run.invariant (fun _ _ inv h => inv.step hmarked h) (.start E t db)
  exact mirror.stored.quiet hsilent

/-- Two delays, one after the other: the stream says what the store shows. -/
theorem stream_replays_chain : ∃ f : Feed,
    f.sent = [.executionStarted .running, .taskRunning "a" 1, .taskCompleted "a", .taskRunning "b" 1,
      .taskCompleted "b", .executionCompleted .completed] ∧
    ((∀ e, f.pending none = some e → e.status? = none) →
      f.run.db.execution.status = (statusTold f.sent).getD .pending) ∧
    ∀ t, MarkedByPredecessors (chainEngine .repaired) t → f.Silent t →
      Tells none (lastAbout t f.sent) (rowStatus t f.run.db.tasks) := by
  obtain ⟨f, run, hf⟩ := Feed.exists_run (chainEngine .repaired) anyAnswer Alone chainAnnounced
    (.start (chainEngine .repaired) ⟨{}, []⟩)
    (fun f => f.sent = [.executionStarted .running, .taskRunning "a" 1, .taskCompleted "a",
      .taskRunning "b" 1, .taskCompleted "b", .executionCompleted .completed])
    chainAnnounced_possible (by decide +kernel)
  exact ⟨f, of_decide_eq_true hf, stream_replays run⟩

end BackendProjects.Workflow
