import BackendProjects.Library.Counter
import BackendProjects.Library.WriteBack
import BackendProjects.Listings

/-! A stored workflow under updates and deletes whose sessions overlap. Each of them loads the row, changes its copy
and commits the columns that it has changed. Nothing compares the version that it has loaded with the stored one. -/
namespace BackendProjects.Workflow
open Library

/-- Python's `==` of two documents, which does not look at the order of keys. -/
structure DocumentEq where
  same : Json → Json → Bool
  refl : ∀ doc, same doc doc = true

def DocumentEq.writeBack (eq : DocumentEq) (old new cur : Json) : Json := if eq.same new old then cur else new

structure WorkflowUpdate where
  name : Option String := none
  description : Option String := none
  dagDefinition : Option Schemas.DagDefinition := none
  inputSchema : Option Json := none
  isActive : Option Bool := none

namespace WorkflowRow

/-- The changes of `update_workflow` to a loaded row; a definition that is refused raises. -/
def update (wf : WorkflowRow) (data : WorkflowUpdate) : Option WorkflowRow := do
  let stored ← Schemas.updateWorkflow wf.toWorkflowDefinition data.dagDefinition
  return { wf with
    toWorkflowDefinition := stored
    name := data.name.getD wf.name
    description := data.description.or wf.description
    inputSchema := data.inputSchema.getD wf.inputSchema
    isActive := data.isActive.getD wf.isActive }

def delete (wf : WorkflowRow) : WorkflowRow := { wf with isActive := false }

def changes (eq : DocumentEq) (old new : WorkflowRow) : Bool :=
  new.name ≠ old.name || new.description ≠ old.description || new.version ≠ old.version ||
    !eq.same new.dagDefinition old.dagDefinition || !eq.same new.inputSchema old.inputSchema ||
    new.isActive ≠ old.isActive

def writeBack (old : WorkflowRow) (eq : DocumentEq) (now : Time) (new cur : WorkflowRow) : WorkflowRow :=
  { cur with
    name := Library.writeBack old.name new.name cur.name
    description := Library.writeBack old.description new.description cur.description
    version := Library.writeBack old.version new.version cur.version
    dagDefinition := eq.writeBack old.dagDefinition new.dagDefinition cur.dagDefinition
    inputSchema := eq.writeBack old.inputSchema new.inputSchema cur.inputSchema
    isActive := Library.writeBack old.isActive new.isActive cur.isActive
    updatedAt := if changes eq old new then now else cur.updatedAt }

private theorem writeBack_version (eq : DocumentEq) (now : Time) (old new cur : WorkflowRow) :
    (old.writeBack eq now new cur).version = Library.writeBack old.version new.version cur.version := rfl

private theorem writeBack_dagDefinition (eq : DocumentEq) (now : Time) (old new cur : WorkflowRow) :
    (old.writeBack eq now new cur).dagDefinition =
      eq.writeBack old.dagDefinition new.dagDefinition cur.dagDefinition := rfl

end WorkflowRow

structure CatalogueSession where
  loaded : WorkflowRow
  changed : WorkflowRow

/-- A committed update of the definition: the version that its session had loaded, the one that it has replaced,
and the definition that it was asked to store. -/
structure DefinitionUpdate where
  loaded : Nat
  replaced : Nat
  asked : Json

/-- The committed row, the open sessions, and the updates of the definition, the latest first. -/
structure Catalogue where
  row : WorkflowRow
  sessions : Nat → Option CatalogueSession
  updates : List DefinitionUpdate

namespace Catalogue

def opened (row : WorkflowRow) : Catalogue := ⟨row, fun _ => none, []⟩

variable (c : Catalogue)

@[simps] def setSession (i : Nat) (session : Option CatalogueSession) : Catalogue :=
  { c with sessions := Function.update c.sessions i session }

@[simps row sessions] def commit (eq : DocumentEq) (now : Time) (i : Nat) (session : CatalogueSession) :
    Catalogue where
  row := session.loaded.writeBack eq now session.changed c.row
  sessions := Function.update c.sessions i none
  updates :=
    if session.changed.version ≠ session.loaded.version then
      ⟨session.loaded.version, c.row.version, session.changed.dagDefinition⟩ :: c.updates
    else c.updates

/-- The sessions of `update_workflow` and `delete_workflow`; `get_db` commits them or rolls them back. -/
inductive Step (eq : DocumentEq) (c : Catalogue) : Catalogue → Prop
  | update (i : Nat) (data : WorkflowUpdate) {changed : WorkflowRow} (free : c.sessions i = none)
      (h : c.row.update data = some changed) : Step eq c (c.setSession i (some ⟨c.row, changed⟩))
  | delete (i : Nat) (free : c.sessions i = none) : Step eq c (c.setSession i (some ⟨c.row, c.row.delete⟩))
  | commit (i : Nat) (now : Time) {session : CatalogueSession} (h : c.sessions i = some session) :
      Step eq c (c.commit eq now i session)
  | rollback (i : Nat) : Step eq c (c.setSession i none)

end Catalogue

variable {eq : DocumentEq} {wf changed : WorkflowRow} {data : WorkflowUpdate} {c c' : Catalogue} {now : Time}
  {i : Nat} {session : CatalogueSession}

/-! ### One session -/

/-- An update raises the version if it has a definition, and leaves the definition alone otherwise. -/
private theorem WorkflowRow.update_definition (h : wf.update data = some changed) :
    changed.version = wf.version ∧ changed.dagDefinition = wf.dagDefinition ∨
      changed.version = wf.version + 1 := by
  simp only [update, Option.pure_def, Option.bind_eq_bind, Option.bind_eq_some_iff, Option.some.injEq] at h
  obtain ⟨stored, hstored, rfl⟩ := h
  cases hdata : data.dagDefinition with
  | none =>
    rw [hdata] at hstored
    cases hstored
    exact Or.inl ⟨rfl, rfl⟩
  | some definition =>
    rw [hdata] at hstored
    simp only [Schemas.updateWorkflow, Option.pure_def, Option.bind_eq_bind, Option.bind_eq_some_iff,
      Option.some.injEq] at hstored
    obtain ⟨_, _, rfl⟩ := hstored
    exact Or.inr rfl

private theorem DocumentEq.writeBack_same (eq : DocumentEq) (old cur : Json) : eq.writeBack old old cur = cur :=
  if_pos (eq.refl old)

/-- A copy that is current leaves what was asked for, up to the order of keys. -/
private theorem DocumentEq.writeBack_fresh (eq : DocumentEq) (old new : Json) :
    eq.writeBack old new old = new ∨ eq.same new (eq.writeBack old new old) = true := by
  unfold DocumentEq.writeBack
  split
  · next h => exact Or.inr h
  · exact Or.inl rfl

/-- A session changes the definition together with the version, or neither of them. -/
def CatalogueSession.Numbered (session : CatalogueSession) : Prop :=
  session.changed.version = session.loaded.version ∧
      session.changed.dagDefinition = session.loaded.dagDefinition ∨
    session.changed.version = session.loaded.version + 1

namespace Catalogue

private theorem Step.numbered (h : Step eq c c')
    (inv : ∀ i session, c.sessions i = some session → session.Numbered) :
    ∀ i session, c'.sessions i = some session → session.Numbered := by
  have hset {i : Nat} {new : Option CatalogueSession} (hnew : ∀ session, new = some session → session.Numbered) :
      ∀ j session, (Function.update c.sessions i new) j = some session → session.Numbered :=
    fun j session hj => (update_eq_some hj).elim (hnew session) (inv j session)
  cases h with
  | update i data free h =>
    refine hset ?_
    rintro _ ⟨⟩
    exact WorkflowRow.update_definition h
  | delete i free =>
    refine hset ?_
    rintro _ ⟨⟩
    exact Or.inl ⟨rfl, rfl⟩
  | commit i now h => exact hset fun _ hnone => by cases hnone
  | rollback i => exact hset fun _ hnone => by cases hnone

/-! ### The version is a counter of the updates -/

/-- The version as a counter, with what the sessions have loaded. -/
def counter (c : Catalogue) : Counter Nat where
  value := c.row.version
  loaded := fun i => (c.sessions i).map (·.loaded.version)
  writes := c.updates.map fun u => (u.loaded, u.replaced)

private theorem loaded_update (i : Nat) (session : Option CatalogueSession) :
    (fun j => ((Function.update c.sessions i session) j).map (·.loaded.version)) =
      Function.update c.counter.loaded i (session.map (·.loaded.version)) := by
  funext j
  by_cases hj : j = i
  · subst hj
    rw [Function.update_self, Function.update_self]
  · rw [Function.update_of_ne hj, Function.update_of_ne hj]
    rfl

private theorem counter_setSession (i : Nat) (session : Option CatalogueSession) :
    (c.setSession i session).counter =
    { c.counter with loaded := Function.update c.counter.loaded i (session.map (·.loaded.version)) } := by
  rw [← loaded_update]
  rfl

private theorem commit_version (c : Catalogue) (eq : DocumentEq) (now : Time) (i : Nat)
    (session : CatalogueSession) (h : session.changed.version = session.loaded.version) :
    (c.commit eq now i session).row.version = c.row.version ∧ (c.commit eq now i session).updates = c.updates := by
  refine ⟨?_, if_neg (by simp [h])⟩
  rw [commit_row, WorkflowRow.writeBack_version, h, Library.writeBack_same]

private theorem commit_version_succ (c : Catalogue) (eq : DocumentEq) (now : Time) (i : Nat)
    (session : CatalogueSession) (h : session.changed.version = session.loaded.version + 1) :
    (c.commit eq now i session).row.version = session.loaded.version + 1 ∧
    (c.commit eq now i session).updates =
      ⟨session.loaded.version, c.row.version, session.changed.dagDefinition⟩ :: c.updates := by
  have hne : session.changed.version ≠ session.loaded.version := by omega
  refine ⟨?_, if_pos hne⟩
  rw [commit_row, WorkflowRow.writeBack_version, Library.writeBack_of_ne hne, h]

private theorem counter_commit : (c.commit eq now i session).counter =
    ⟨(c.commit eq now i session).row.version, Function.update c.counter.loaded i none,
      (c.commit eq now i session).updates.map fun u => (u.loaded, u.replaced)⟩ := by
  have hloaded := c.loaded_update i none
  rw [Option.map_none] at hloaded
  rw [← hloaded]
  rfl

/-- Whatever a session does is a step of the counter. -/
private theorem Step.counter (h : Step eq c c')
    (inv : ∀ i session, c.sessions i = some session → session.Numbered) :
    Counter.Step c.counter c'.counter := by
  cases h with
  | update i data free h =>
    rw [counter_setSession]
    exact .load i
  | delete i free =>
    rw [counter_setSession]
    exact .load i
  | rollback i =>
    rw [counter_setSession]
    exact .close i
  | @commit i now session h =>
    rw [counter_commit]
    rcases inv i session h with ⟨hversion, _⟩ | hversion
    · obtain ⟨hrow, hupdates⟩ := c.commit_version eq now i session hversion
      rw [hrow, hupdates]
      exact .close i
    · obtain ⟨hrow, hupdates⟩ := c.commit_version_succ eq now i session hversion
      rw [hrow, hupdates]
      exact .write i (by simp [Catalogue.counter, h])

/-! ### The definition that is shown -/

/-- The last of these updates, if there is one, is what the row shows, up to the order of keys. -/
def Shows (eq : DocumentEq) (c : Catalogue) : Prop :=
  ∀ u, c.updates.head? = some u → c.row.dagDefinition = u.asked ∨ eq.same u.asked c.row.dagDefinition = true

structure Inv (eq : DocumentEq) (first : Nat) (c : Catalogue) : Prop where
  numbered : ∀ i session, c.sessions i = some session → session.Numbered
  counted : Counter.Sound first c.counter
  current : ∀ i session, c.sessions i = some session →
    session.loaded.version = first + c.updates.length → session.loaded.dagDefinition = c.row.dagDefinition
  shows : (∀ u ∈ c.updates, u.loaded = u.replaced) → c.Shows eq

private theorem Inv.init (eq : DocumentEq) (wf : WorkflowRow) : Inv eq wf.version (opened wf) where
  numbered := fun _ _ h => by cases h
  counted := .init wf.version
  current := fun _ _ h => by cases h
  shows := fun _ _ h => by cases h

variable {first : Nat}

private theorem Inv.le (inv : Inv eq first c) (h : c.sessions i = some session) :
    session.loaded.version ≤ first + c.updates.length := by
  have hle := inv.counted.le i session.loaded.version (by simp [Catalogue.counter, h])
  simpa [Catalogue.counter] using hle

private theorem Inv.exact_iff (inv : Inv eq first c) :
    c.row.version = first + c.updates.length ↔ ∀ u ∈ c.updates, u.loaded = u.replaced := by
  simpa [Catalogue.counter] using inv.counted.recorded.exact_iff

/-- Opening a session on the stored row, or closing one. -/
private theorem Inv.setSession (inv : Inv eq first c) {new : Option CatalogueSession}
    (hnew : ∀ session, new = some session → session.loaded = c.row) (h : Step eq c (c.setSession i new)) :
    Inv eq first (c.setSession i new) := by
  refine ⟨h.numbered inv.numbered, inv.counted.step (h.counter inv.numbered), fun j session hj hversion => ?_,
    inv.shows⟩
  rcases update_eq_some hj with hj | hj
  · rw [hnew session hj]
    rfl
  · exact inv.current j session hj hversion

private theorem Inv.commit (inv : Inv eq first c) (hi : c.sessions i = some session) :
    Inv eq first (c.commit eq now i session) := by
  have h : Step eq c (c.commit eq now i session) := .commit i now hi
  have hopen {j : Nat} {other : CatalogueSession} (hj : (c.commit eq now i session).sessions j = some other) :
      c.sessions j = some other := (update_eq_some hj).resolve_left (by simp)
  refine ⟨h.numbered inv.numbered, inv.counted.step (h.counter inv.numbered), ?_, ?_⟩
  · intro j other hj hversion
    rcases inv.numbered i session hi with ⟨hsame, hdefinition⟩ | hraised
    · have hupdates := (c.commit_version eq now i session hsame).2
      rw [hupdates] at hversion
      rw [inv.current j other (hopen hj) hversion, commit_row, WorkflowRow.writeBack_dagDefinition, hdefinition,
        DocumentEq.writeBack_same]
    · have hupdates := (c.commit_version_succ eq now i session hraised).2
      have hle := inv.le (hopen hj)
      rw [hupdates, List.length_cons] at hversion
      omega
  · rcases inv.numbered i session hi with ⟨hsame, hdefinition⟩ | hraised
    · have hupdates := (c.commit_version eq now i session hsame).2
      rw [Shows, hupdates, commit_row, WorkflowRow.writeBack_dagDefinition, hdefinition, DocumentEq.writeBack_same]
      exact inv.shows
    · have hupdates := (c.commit_version_succ eq now i session hraised).2
      intro hall u hu
      rw [hupdates] at hall hu
      obtain ⟨hreplaced, hbefore⟩ := List.forall_mem_cons.mp hall
      cases hu
      -- The session has loaded the row that it replaces.
      have hcurrent := inv.current i session hi (hreplaced.trans (inv.exact_iff.mpr hbefore))
      rw [commit_row, WorkflowRow.writeBack_dagDefinition, ← hcurrent]
      exact eq.writeBack_fresh _ _

private theorem Inv.step (inv : Inv eq first c) (h : Step eq c c') : Inv eq first c' := by
  cases h with
  | update i data free hdata => exact inv.setSession (by rintro _ ⟨⟩; rfl) (.update i data free hdata)
  | delete i free => exact inv.setSession (by rintro _ ⟨⟩; rfl) (.delete i free)
  | rollback i => exact inv.setSession (fun _ h => by cases h) (.rollback i)
  | commit i now hi => exact inv.commit hi

end Catalogue

/-- However updates and deletes of a workflow overlap, its version is never more than the number of updates of the
definition since, and it is as much exactly if each of them has replaced the version that its session had loaded.
Otherwise a version is given twice, or comes back. As long as it counts, the row shows the last definition that
was asked for, up to what Python's == takes for the same. -/
theorem version_counts_updates_iff (run : Run (Catalogue.Step eq) (.opened wf) c) :
    c.row.version ≤ wf.version + c.updates.length ∧
    (c.row.version = wf.version + c.updates.length ↔ ∀ u ∈ c.updates, u.loaded = u.replaced) ∧
    (c.row.version = wf.version + c.updates.length ↔
      (c.row.version :: c.updates.map DefinitionUpdate.replaced).Pairwise (· > ·)) ∧
    (c.row.version = wf.version + c.updates.length → c.Shows eq) := by
  have inv : c.Inv eq wf.version := run.invariant (fun _ _ inv h => inv.step h) (.init eq wf)
  refine ⟨?_, inv.exact_iff, ?_, fun h => inv.shows (inv.exact_iff.mp h)⟩
  · simpa [Catalogue.counter] using inv.counted.recorded.le
  · simpa [Catalogue.counter, Function.comp_def] using inv.counted.recorded.rising_iff

/-! ### An update that overlaps with two others -/

private def delayDefinition : Schemas.DagDefinition :=
  ⟨[⟨"c", "delay", "C", [], none, none, [], by simp⟩], [], [], by simp⟩

private theorem update_delay (wf : WorkflowRow) : ∃ changed,
    wf.update { dagDefinition := some delayDefinition } = some changed ∧ changed.version = wf.version + 1 := by
  obtain ⟨dag, hdag⟩ := Option.isSome_iff_exists.mp
    (show (DAG.init delayDefinition.core).toOption.isSome = true by decide +kernel)
  refine ⟨{ wf with dagDefinition := delayDefinition.modelDump, version := wf.version + 1 }, ?_, rfl⟩
  simp [WorkflowRow.update, Schemas.updateWorkflow, hdag]

/-- Nobody is in the way of an update by the second session. -/
private theorem exists_update_alone (eq : DocumentEq) (now : Time) (c : Catalogue) (free : c.sessions 1 = none) :
    ∃ c', Run (Catalogue.Step eq) c c' ∧ c'.row.version = c.row.version + 1 ∧
      c'.updates.length = c.updates.length + 1 ∧ c'.sessions 0 = c.sessions 0 ∧ c'.sessions 1 = none := by
  obtain ⟨changed, hchanged, hversion⟩ := update_delay c.row
  let session : CatalogueSession := ⟨c.row, changed⟩
  have opened : Run (Catalogue.Step eq) c (c.setSession 1 (some session)) := .single (.update 1 _ free hchanged)
  have hsession : (c.setSession 1 (some session)).sessions 1 = some session := by
    rw [Catalogue.setSession_sessions, Function.update_self]
  obtain ⟨hrow, hupdates⟩ := (c.setSession 1 (some session)).commit_version_succ eq now 1 session hversion
  refine ⟨_, opened.tail (.commit 1 now hsession), hrow, by rw [hupdates]; rfl, ?_, ?_⟩
  · simp
  · rw [Catalogue.commit_sessions, Function.update_self]

theorem version_counts_updates_iff_overlapped : ∃ (eq : DocumentEq) (wf : WorkflowRow) (c : Catalogue),
    Run (Catalogue.Step eq) (.opened wf) c ∧ wf.version = 1 ∧ c.row.version = 2 ∧ c.updates.length = 3 ∧
      ¬ (c.row.version :: c.updates.map DefinitionUpdate.replaced).Pairwise (· > ·) := by
  classical
  let eq : DocumentEq := ⟨fun a b => a = b, fun _ => decide_eq_true rfl⟩
  let wf : WorkflowRow := ⟨⟨delayDefinition.modelDump, 1⟩, "w", "W", none, .null, true, "C", 0, 0⟩
  obtain ⟨changed, hchanged, hversion⟩ := update_delay wf
  let c₀ : Catalogue := (Catalogue.opened wf).setSession 0 (some ⟨wf, changed⟩)
  have open₀ : Run (Catalogue.Step eq) (.opened wf) c₀ := .single (.update 0 _ rfl hchanged)
  obtain ⟨c₁, run₁, hversion₁, hlength₁, hfirst₁, hsecond₁⟩ := exists_update_alone eq 1 c₀ rfl
  obtain ⟨c₂, run₂, hversion₂, hlength₂, hfirst₂, _⟩ := exists_update_alone eq 2 c₁ hsecond₁
  -- The first session writes over what the second one has committed twice.
  obtain ⟨hrow, hupdates⟩ := c₂.commit_version_succ eq 3 0 ⟨wf, changed⟩ hversion
  have run : Run (Catalogue.Step eq) (.opened wf) _ :=
    ((open₀.trans run₁).trans run₂).tail (.commit 0 3 (hfirst₂.trans hfirst₁))
  have hlength : (c₂.commit eq 3 0 ⟨wf, changed⟩).updates.length = 3 := by
    rw [hupdates, List.length_cons, hlength₂, hlength₁]
    rfl
  refine ⟨eq, wf, _, run, rfl, hrow, hlength, fun hrising => ?_⟩
  have hexact := (version_counts_updates_iff run).2.2.1.mpr hrising
  rw [hlength, hrow] at hexact
  cases hexact

end BackendProjects.Workflow
