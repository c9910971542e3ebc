import BackendProjects.Workflow.Works

/-! The rows that settle a task, and what the commits of a run and of other sessions do to them. -/
namespace BackendProjects.Workflow
open Library

/-- A row that no later call takes up again. -/
def TaskExecution.Settled (te : TaskExecution) : Prop := te.status = .completed ∨ te.status = .skipped

def SettledIn (rows : List TaskExecution) (t : TaskId) : Prop :=
  ∃ te ∈ rows, te.taskDefinitionId = t ∧ te.Settled

/-- No row has been settled since a session has loaded the rows. -/
structure Database.StillOpen (loaded cur : Database) : Prop where
  length : loaded.tasks.length ≤ cur.tasks.length
  settled : ∀ (i : Nat) (te te' : TaskExecution), loaded.tasks[i]? = some te → cur.tasks[i]? = some te' →
    te'.Settled → te.Settled

variable {E : Engine} {s s' : RunState} {t : TaskId} {rows old new cur : List TaskExecution}
  {te o n c : TaskExecution} {i : Nat}

/-! ### What a commit does to the rows -/

theorem commitTasks_writeBack (ho : old[i]? = some o) (hn : new[i]? = some n) (hc : cur[i]? = some c) :
    (commitTasks old new cur)[i]? = some (o.writeBack n c) := by
  induction old generalizing new cur i with
  | nil => cases ho
  | cons o' old ih =>
    cases new with
    | nil => cases hn
    | cons n' new =>
      cases cur with
      | nil => cases hc
      | cons c' cur =>
        cases i with
        | zero =>
          cases ho
          cases hn
          cases hc
          rfl
        | succ i => exact ih ho hn hc

private theorem commitTasks_stored (old new : List TaskExecution) (hc : cur[i]? = some c) :
    (commitTasks old new cur)[i]? = some c ∨
    ∃ o n, old[i]? = some o ∧ new[i]? = some n ∧ (commitTasks old new cur)[i]? = some (o.writeBack n c) := by
  induction old generalizing new cur i with
  | nil =>
    cases cur with
    | nil => cases hc
    | cons c' cur => exact Or.inl hc
  | cons o' old ih =>
    cases new with
    | nil =>
      cases cur with
      | nil => cases hc
      | cons c' cur => exact Or.inl hc
    | cons n' new =>
      cases cur with
      | nil => cases hc
      | cons c' cur =>
        cases i with
        | zero =>
          cases hc
          exact Or.inr ⟨o', n', rfl, rfl, rfl⟩
        | succ i => exact ih new hc

theorem commitTasks_new (hlen : new.length = old.length) (hc : cur[i]? = none) :
    (commitTasks old new cur)[i]? = new[i]? := by
  induction old generalizing new cur i with
  | nil =>
    obtain rfl : new = [] := List.length_eq_zero_iff.mp hlen
    cases cur <;> exact hc
  | cons o old ih =>
    cases new with
    | nil => cases hlen
    | cons n new =>
      cases cur with
      | nil => rfl
      | cons c cur =>
        cases i with
        | zero => cases hc
        | succ i => exact ih (Nat.succ.inj hlen) hc

theorem mem_commitTasks (h : te ∈ commitTasks old new cur) : te ∈ cur ∨ te ∈ new ∨
    ∃ (i : Nat) (o n c : TaskExecution), old[i]? = some o ∧ new[i]? = some n ∧ cur[i]? = some c ∧
      te = o.writeBack n c := by
  induction old generalizing new cur with
  | nil =>
    cases cur with
    | nil => exact Or.inr (Or.inl (by simpa [commitTasks] using h))
    | cons c cur => exact Or.inl (by simpa [commitTasks] using h)
  | cons o old ih =>
    cases new with
    | nil =>
      cases cur with
      | nil => simp [commitTasks] at h
      | cons c cur => exact Or.inl (by simpa [commitTasks] using h)
    | cons n new =>
      cases cur with
      | nil => exact Or.inr (Or.inl h)
      | cons c cur =>
        rcases List.mem_cons.mp h with rfl | h
        · exact Or.inr (Or.inr ⟨0, o, n, c, rfl, rfl, rfl, rfl⟩)
        · rcases ih h with h | h | ⟨i, o', n', c', ho, hn, hc, rfl⟩
          · exact Or.inl (List.mem_cons_of_mem _ h)
          · exact Or.inr (Or.inl (List.mem_cons_of_mem _ h))
          · exact Or.inr (Or.inr ⟨i + 1, o', n', c', ho, hn, hc, rfl⟩)

/-- What is settled stays settled, if no write unsettles a row of the task. -/
private theorem SettledIn.commit (h : SettledIn cur t)
    (hkeep : ∀ (i : Nat) (o n c : TaskExecution), old[i]? = some o →
    new[i]? = some n → c.taskDefinitionId = t → c.Settled → cur[i]? = some c → (o.writeBack n c).Settled) :
    SettledIn (commitTasks old new cur) t := by
  obtain ⟨c, hc, hid, hsettled⟩ := h
  obtain ⟨i, hi⟩ := List.mem_iff_getElem?.mp hc
  rcases commitTasks_stored old new hi with h | ⟨o, n, ho, hn, h⟩
  · exact ⟨c, List.mem_of_getElem? h, hid, hsettled⟩
  · exact ⟨_, List.mem_of_getElem? h, hid, hkeep i o n c ho hn hid hsettled hi⟩

/-- A session that changes rows which nobody has settled, and settles none itself, leaves the settled rows alone
and settles nothing. -/
theorem commitTasks_open {f : TaskExecution → TaskExecution}
    (hf : ∀ te : TaskExecution, f te = te ∨ ¬ te.Settled ∧ ¬ (f te).Settled) (hlen : old.length ≤ cur.length)
    (hopen : ∀ (i : Nat) (te te' : TaskExecution), old[i]? = some te → cur[i]? = some te' →
      te'.Settled → te.Settled) :
    List.Forall₂ (fun c c' : TaskExecution => c' = c ∨
      ¬ c.Settled ∧ ¬ c'.Settled ∧ c'.taskDefinitionId = c.taskDefinitionId) cur
      (commitTasks old (old.map f) cur) := by
  induction old generalizing cur with
  | nil =>
    have hsame : commitTasks [] [] cur = cur := by cases cur <;> rfl
    rw [List.map_nil, hsame]
    exact List.forall₂_same.mpr fun _ _ => Or.inl rfl
  | cons o old ih =>
    cases cur with
    | nil => simp at hlen
    | cons c cur =>
      refine .cons ?_ (ih (Nat.le_of_succ_le_succ hlen) fun i te te' h h' => hopen (i + 1) te te' h h')
      rcases hf o with h | ⟨hold, hnew⟩
      · exact Or.inl (by rw [h, TaskExecution.writeBack_same])
      · have hcur : ¬ c.Settled := fun hc => hold (hopen 0 o c rfl rfl hc)
        refine Or.inr ⟨hcur, ?_, rfl⟩
        rcases writeBack_eq_or o.status (f o).status c.status with h | h
        · simpa [TaskExecution.Settled, TaskExecution.writeBack, h] using hcur
        · simpa [TaskExecution.Settled, TaskExecution.writeBack, h] using hnew

private theorem TaskExecution.cancel_open (te : TaskExecution) (now : Time) :
    te.cancel now = te ∨ ¬ te.Settled ∧ ¬ (te.cancel now).Settled := by
  unfold cancel
  split
  · next h => rcases h with h | h <;> exact Or.inr ⟨by simp [Settled, h], by simp [Settled]⟩
  · exact Or.inl rfl

private theorem TaskExecution.retry_open (te : TaskExecution) :
    te.retry = te ∨ ¬ te.Settled ∧ ¬ te.retry.Settled := by
  unfold retry
  split
  · next h => exact Or.inr ⟨by simp [Settled, h], by simp [Settled]⟩
  · exact Or.inl rfl

/-- The stored rows before and after the commit of another session: what is settled is left alone, and nothing
else becomes settled. -/
def LeavesSettled (before after : Database) : Prop :=
  List.Forall₂ (fun c c' : TaskExecution => c' = c ∨
    ¬ c.Settled ∧ ¬ c'.Settled ∧ c'.taskDefinitionId = c.taskDefinitionId) before.tasks after.tasks

variable {db db' loaded new' : Database}

theorem Database.StillOpen.cancel (h : loaded.StillOpen db) (now : Time) :
    LeavesSettled db (loaded.commit (loaded.cancelExecution now) db) :=
  commitTasks_open (fun te => te.cancel_open now) h.length h.settled

theorem Database.StillOpen.retry (h : loaded.StillOpen db) (hnew : loaded.retryExecution = some new') :
    LeavesSettled db (loaded.commit new' db) := by
  obtain ⟨ex, _, rfl⟩ := Option.map_eq_some_iff.mp hnew
  exact commitTasks_open TaskExecution.retry_open h.length h.settled

/-- A session that commits what it has just loaded finds no row settled since. -/
theorem Database.StillOpen.refl (db : Database) : db.StillOpen db where
  length := le_rfl
  settled := fun _ _ _ h h' hs => Option.some.inj (h'.symm.trans h) ▸ hs

theorem commit_cancel_outputData (loaded db : Database) (now : Time) :
    (loaded.commit (loaded.cancelExecution now) db).execution.outputData = db.execution.outputData := by
  have hcancel : (loaded.execution.cancel now).outputData = loaded.execution.outputData := by
    unfold WorkflowExecution.cancel
    split <;> rfl
  simp [Database.cancelExecution, WorkflowExecution.writeBack, hcancel]

theorem LeavesSettled.settledIn (h : LeavesSettled db db') (hs : SettledIn db.tasks t) :
    SettledIn db'.tasks t := by
  obtain ⟨c, hc, hid, hsettled⟩ := hs
  obtain ⟨i, hi, rfl⟩ := List.mem_iff_getElem.mp hc
  obtain ⟨hlen, hrel⟩ := List.forall₂_iff_get.mp h
  rcases hrel i hi (hlen ▸ hi) with heq | ⟨hopen, _⟩
  · have hmem := List.get_mem db'.tasks ⟨i, hlen ▸ hi⟩
    rw [heq] at hmem
    exact ⟨_, hmem, hid, hsettled⟩
  · exact absurd hsettled hopen

/-- A row that is completed afterwards was there before. -/
theorem LeavesSettled.completed (h : LeavesSettled db db') (hte : te ∈ db'.tasks)
    (hstatus : te.status = .completed) :
    te ∈ db.tasks := by
  obtain ⟨i, hi, rfl⟩ := List.mem_iff_getElem.mp hte
  obtain ⟨hlen, hrel⟩ := List.forall₂_iff_get.mp h
  rcases hrel i (hlen ▸ hi) hi with heq | ⟨_, hopen, _⟩
  · exact List.mem_of_getElem heq.symm
  · exact absurd (Or.inl hstatus) hopen

/-! ### The commits of a run -/

private theorem mem_modify {f : TaskExecution → TaskExecution} (h : te ∈ rows.modify i f) :
    te ∈ rows ∨ ∃ o, rows[i]? = some o ∧ te = f o := by
  obtain ⟨j, hj⟩ := List.mem_iff_getElem?.mp h
  rw [List.getElem?_modify, Option.map_eq_map, Option.map_eq_some_iff] at hj
  obtain ⟨o, ho, rfl⟩ := hj
  split
  · next hi => exact Or.inr ⟨o, hi ▸ ho, rfl⟩
  · exact Or.inl (List.mem_of_getElem? ho)

/-- What holds of all rows holds after a write, if it holds of the row that is written. -/
theorem saveTask_forall {P : TaskExecution → Prop} {f : TaskExecution → TaskExecution}
    (hdb : ∀ te ∈ s.db.tasks, P te) (hmem : ∀ te ∈ s.mem.tasks, P te)
    (hnew : ∀ o, s.mem.tasks[i]? = some o → P (f o) ∧ ∀ c, s.db.tasks[i]? = some c → P (o.writeBack (f o) c)) :
    (∀ te ∈ (s.saveTask i f).db.tasks, P te) ∧ ∀ te ∈ (s.saveTask i f).mem.tasks, P te := by
  have hheld : ∀ te ∈ s.mem.tasks.modify i f, P te := by
    intro te hte
    rcases mem_modify hte with hte | ⟨o, ho, rfl⟩
    · exact hmem te hte
    · exact (hnew o ho).1
  refine ⟨fun te hte => ?_, hheld⟩
  rcases mem_commitTasks hte with hte | hte | ⟨j, o, n, c, ho, hn, hc, rfl⟩
  · exact hdb te hte
  · exact hheld te hte
  · rw [List.getElem?_modify, ho] at hn
    by_cases hi : i = j
    · subst hi
      obtain rfl : f o = n := by simpa using hn
      exact (hnew o ho).2 c hc
    · obtain rfl : o = n := by simpa [hi] using hn
      rw [TaskExecution.writeBack_same]
      exact hdb c (List.mem_of_getElem? hc)

theorem SettledIn.saveTask {f : TaskExecution → TaskExecution} (h : SettledIn s.db.tasks t)
    (hrow : ∀ o c, s.mem.tasks[i]? = some o → s.db.tasks[i]? = some c → c.taskDefinitionId = t → c.Settled →
      (o.writeBack (f o) c).Settled) : SettledIn (s.saveTask i f).db.tasks t := by
  refine h.commit fun j o n c ho hn hid hsettled hc => ?_
  rw [List.getElem?_modify, ho] at hn
  by_cases hi : i = j
  · subst hi
    obtain rfl : f o = n := by simpa using hn
    exact hrow o c ho hc hid hsettled
  · obtain rfl : o = n := by simpa [hi] using hn
    rwa [TaskExecution.writeBack_same]

private theorem SettledIn.saveExecution (h : SettledIn s.db.tasks t) (ex : WorkflowExecution) :
    SettledIn (s.saveExecution ex).db.tasks t := by
  refine h.commit fun j o n c ho hn _ hsettled _ => ?_
  obtain rfl : o = n := Option.some.inj (ho.symm.trans hn)
  rwa [TaskExecution.writeBack_same]

/-- To mark a row as skipped unsettles nothing and completes nothing. -/
theorem TaskExecution.writeBack_skip_settled (hc : c.Settled) (now : Time) :
    (o.writeBack (o.skip now) c).Settled := by
  rcases writeBack_eq_or o.status (o.skip now).status c.status with h | h
  · simpa [Settled, writeBack, h] using hc
  · exact Or.inr h

/-- A write of a status other than completed completes no row. -/
theorem TaskExecution.writeBack_ne_completed (hn : n.status ≠ .completed) (hc : c.status ≠ .completed) :
    (o.writeBack n c).status ≠ .completed := by
  rcases writeBack_eq_or o.status n.status c.status with h | h
  · exact fun hstatus => hc (h.symm.trans hstatus)
  · exact fun hstatus => hn (h.symm.trans hstatus)

theorem Agrees.work_eq (h : Agrees s) (hc : s.db.tasks[i]? = some c) (ho : s.mem.tasks[i]? = some o) :
    c.work = o.work := by
  obtain ⟨rest, hrest⟩ := h
  have hi : i < (s.db.tasks.map TaskExecution.work).length := by
    simpa using (List.getElem?_eq_some_iff.mp hc).1
  have hsame := congrArg (·[i]?) hrest
  simpa [List.getElem?_append_left hi, hc, ho] using hsame

theorem SettledIn.mainMove (ht : SettledIn s.db.tasks t) (h : MainMove E s s') : SettledIn s'.db.tasks t := by
  cases h
  case start => exact ht.saveExecution _
  case recordFailure => exact ht.saveExecution _
  case complete => exact ht.saveExecution _
  case load =>
    obtain ⟨_, _, _, h⟩ := foldl_loadRow s.mem.tasks s
    rwa [h]
  case skipFound now _ _ _ _ _ => exact ht.saveTask fun _ _ _ _ _ hc => TaskExecution.writeBack_skip_settled hc now
  case skipCreate now _ _ _ _ _ =>
    exact ht.saveTask (s := s.flush _) fun _ _ _ _ _ hc => TaskExecution.writeBack_skip_settled hc now
  all_goals exact ht

end BackendProjects.Workflow
