import BackendProjects.Workflow.Standing

/-! The body of a run over the rows of an earlier one: what is not completed in the rows is handed out
until all tasks are completed, and every such run ends. -/
namespace BackendProjects.Workflow
open Library
variable {E : Engine} {respond : Respond} {input : Option PyDict} {db : Database} {s s' : RunState}
  {node : DAGNode} {t : TaskId} {rows : List TaskExecution}

structure Resumable (E : Engine) (respond : Respond) (input : Option PyDict) (rows : List TaskExecution) :
    Prop where
  evaluates : ∀ s : RunState, s.taskOutputs = [] →
    Evaluates E respond input (completedIds rows) (rows.foldl loadRow s).taskOutputs
  unskipped : ∀ row ∈ rows, row.status ≠ .skipped
  fits : ∀ row ∈ rows, row.taskDefinitionId ∉ completedIds rows → row.attempt ≤ row.maxAttempts

def MainPc.Early : MainPc → Prop
  | .lookup | .loaded | .starting => True
  | _ => False

private theorem MainPc.not_early_of_gathers {main : MainPc} (h : main.gathers = true) : ¬ main.Early := by
  rcases MainPc.gathers_iff.mp h with rfl | ⟨e, rfl⟩ <;> exact id

def MainPc.Shows (ex : WorkflowExecution) (taskOutputs : PyDict) : MainPc → Prop
  | .lookup | .loaded => ex.status = .pending
  | .returned => ex.status = .completed ∧ ex.outputData = .dict [(.str "tasks", .dict taskOutputs)]
  | _ => ex.status = .running

def MainPc.OnPath : MainPc → Prop
  | .skipping (_ :: _) | .skipCreating _ _ | .sleeping => False
  | _ => True

/-- The invariant of a run over the rows of an earlier one. -/
structure Resuming (E : Engine) (respond : Respond) (input : Option PyDict) (rows : List TaskExecution)
    (s : RunState) : Prop where
  idle : Idle s
  located : Located s
  stored : s.main = .lookup → s.db.tasks = rows
  loaded : s.main.Early → s.mem.tasks = rows
  early : s.main.Early → s.completed = ∅ ∧ s.taskOutputs = []
  late : ¬ s.main.Early → completedIds rows ⊆ s.completed
  current : s.main ≠ .lookup → s.mem.execution = s.db.execution
  data : s.db.execution.inputData = input
  shows : s.main.Shows s.db.execution s.taskOutputs
  onPath : s.main.OnPath
  skipped : s.skipped = ∅
  unfailed : s.failed = false
  free : 0 < s.sem ∨ ∃ t, (s.pc t).Holds
  resumed : Resumed E respond input (completedIds rows) s
  all : s.main = .final ∨ s.main = .returned → s.completed = E.dag.allTaskIds
  refused : ∀ e, s.main = .raised e → ∃ node, E.dag.getTask node.taskId = .ok node ∧
    node.taskId ∉ completedIds rows ∧ ¬ Accepted node

/-- What the body can do when nothing is skipped and nothing fails. -/
inductive ResumeMove (E : Engine) (s : RunState) : RunState → Prop
  | lookup (hmain : s.main = .lookup) : ResumeMove E s { s with mem := s.db, main := .loaded }
  | start (now : Time) (hmain : s.main = .loaded) :
      ResumeMove E s { s.saveExecution (s.mem.execution.start now) with main := .starting }
  | load (hmain : s.main = .starting) : ResumeMove E s { s.mem.tasks.foldl loadRow s with main := .loop }
  | iterate (hmain : s.main = .loop) : ResumeMove E s { s.refreshed with main := .checking }
  | check (hmain : s.main = .checking) : ResumeMove E s { s with main := .skipping [] }
  | gather (hmain : s.main = .skipping []) (hready : E.dag.readyIds s.completed ∅ ≠ []) :
      ResumeMove E s { s with
        main := .gathering
        wave := E.dag.readyIds s.completed ∅
        pc := fun t => if t ∈ E.dag.readyIds s.completed ∅ then .waiting else .done }
  | gathered (hmain : s.main = .gathering) : ResumeMove E s { s with main := .loop }
  | leave (hmain : s.main = .loop ∨ s.main = .skipping []) (h : E.dag.nodes.length ≤ s.completed.card) :
      ResumeMove E s { s.refreshed with main := .final }
  | complete (now : Time) {ex : WorkflowExecution} (hmain : s.main = .final)
      (h : s.mem.execution.complete now s.taskOutputs = .ok ex) :
      ResumeMove E s { s.saveExecution ex with main := .returned }
  | propagate {t : TaskId} {e : PyError} (hmain : s.main = .gathering) (hwave : t ∈ s.wave)
      (hpc : s.pc t = .raised e) : ResumeMove E s { s with main := .raised e }


structure Unmoved (s s' : RunState) : Prop where
  works : s'.works = s.works
  completed : s'.completed = s.completed := by rfl
  taskOutputs : s'.taskOutputs = s.taskOutputs := by rfl
  skipped : s'.skipped = s.skipped := by rfl
  failed : s'.failed = s.failed := by rfl
  sem : s'.sem = s.sem := by rfl
  trace : s'.trace = s.trace := by rfl
  wave : s'.wave = s.wave := by rfl
  pc : s'.pc = s.pc := by rfl

namespace Resuming
variable (inv : Resuming E respond input rows s)
include inv

private theorem running (hearly : ¬ s.main = .lookup ∧ ¬ s.main = .loaded) (hreturned : s.main ≠ .returned) :
    s.mem.execution.status = .running := by
  have hshows := inv.shows
  rw [inv.current hearly.1]
  cases hmain : s.main <;> rw [hmain] at hshows <;> first | exact hshows | simp_all

/-- Where no task is ready, all are completed. -/
theorem completed_of_ready (hready : E.dag.readyIds s.completed ∅ = []) :
    s.completed = E.dag.allTaskIds := by
  refine Finset.Subset.antisymm
    (fun t ht => E.dag.mem_allTaskIds.mpr (inv.resumed.evaluates.known t ht)) (fun t ht => ?_)
  by_contra hnot
  obtain ⟨w, hw, hnew, hpreds⟩ := E.dag.exists_minimal_unsettled _ (E.dag.mem_allTaskIds.mp ht) hnot
  refine List.not_mem_nil (a := w) (hready ▸ E.dag.mem_readyIds.mpr ⟨hw, hnew, ?_, ?_, hpreds⟩)
  · exact Finset.notMem_empty w
  · exact fun p _ => Finset.notMem_empty p

private theorem completed_of_card (h : E.dag.nodes.length ≤ s.completed.card) : s.completed = E.dag.allTaskIds :=
  Finset.eq_of_subset_of_card_le
    (fun t ht => E.dag.mem_allTaskIds.mpr (inv.resumed.evaluates.known t ht))
    (E.dag.card_allTaskIds ▸ h)

private theorem main_cases (hlock : E.reading.lock = true) (hall : E.reading.allSkipped = true)
    (h : MainMove E s s') : ResumeMove E s s' := by
  have hon := inv.onPath
  have hrunning := inv.running
  have hskipped := inv.skipped
  have hunfailed := inv.unfailed
  cases h with
  | lookup hmain => exact .lookup hmain
  | start now hmain _ => exact .start now hmain
  | noStart hmain hno =>
    have hpending := inv.shows
    rw [hmain] at hpending
    rw [inv.current (by simp [hmain]), show s.db.execution.status = .pending from hpending] at hno
    exact absurd (by decide) hno
  | load hmain => exact .load hmain
  | iterate hmain _ => exact .iterate hmain
  | exit hmain hle => exact .leave (Or.inl hmain) (by simpa [hskipped] using hle)
  | cancelled hmain h | finalCancelled hmain h =>
    rw [hrunning (by simp [hmain]) (by simp [hmain])] at h
    cases h
  | recordFailure now hmain _ h | gatheredFailed hmain _ h | finalFailed hmain _ h =>
    rw [hunfailed] at h
    cases h
  | noLock _ _ _ h =>
    rw [hlock] at h
    cases h
  | noMethod _ _ _ h =>
    rw [hall] at h
    cases h
  | propagateSkips hmain _ _ _ _ =>
    have hnone : E.dag.tasksWithAllPredecessorsSkipped s.completed s.skipped = [] := by
      rw [hskipped, E.dag.tasksWithAllPredecessorsSkipped_empty]
    rw [hnone]
    exact .check hmain
  | skipFound _ hmain _ | skipMissing hmain _ | skipCreate _ hmain _ | skipThrow hmain _ | wake hmain =>
    rw [hmain] at hon
    exact hon.elim
  | settled hmain _ hle => exact .leave (Or.inr hmain) (by simpa [hskipped] using hle)
  | sleep hmain hready hlt =>
    rw [hskipped] at hready
    have hcompleted := inv.completed_of_ready hready
    rw [hskipped, Finset.card_empty, Nat.add_zero, hcompleted, E.dag.card_allTaskIds] at hlt
    exact absurd hlt (lt_irrefl _)
  | gather hmain hready =>
    have hsame : E.dag.readyIds s.completed s.skipped = E.dag.readyIds s.completed ∅ := by rw [hskipped]
    rw [hsame] at hready ⊢
    exact .gather hmain hready
  | gathered hmain _ _ => exact .gathered hmain
  | complete now hmain _ _ h => exact .complete now hmain h
  | completeThrow now hmain _ _ h =>
    have hstatus := hrunning (by simp [hmain]) (by simp [hmain])
    rw [WorkflowExecution.complete, hstatus] at h
    cases h
  | propagate hmain hwave hpc => exact .propagate hmain hwave hpc

/-- Between the moves that load the rows and those that hand out a wave, nothing happens to the tasks. -/
private theorem resumed_of_unmoved (same : Unmoved s s') :
    Resumed E respond input (completedIds rows) s' where
  fits i w hw := inv.resumed.fits i w (same.works ▸ hw)
  evaluates := inv.resumed.evaluates.congr same.completed same.taskOutputs
  wave := by
    rw [same.wave, same.completed]
    exact inv.resumed.wave
  standing node hnode := by
    rw [same.pc]
    refine (inv.resumed.standing node hnode).congr (by rw [same.completed]) ?_ ?_
      (fun _ _ _ => by rw [same.taskOutputs]) (fun _ _ hout => same.wave ▸ hout)
    · rw [RunState.calls, same.trace, RunState.calls]
    · exact fun te w _ hw => same.works ▸ hw

private theorem resumed_load (hrows : Resumable E respond input rows) (hmain : s.main = .starting) :
    Resumed E respond input (completedIds rows) { s.mem.tasks.foldl loadRow s with main := .loop } ∧
      (s.mem.tasks.foldl loadRow s).completed = completedIds rows ∧
      (s.mem.tasks.foldl loadRow s).skipped = ∅ := by
  obtain ⟨hnone, houtputs⟩ := inv.early (hmain ▸ trivial)
  have hmem := inv.loaded (hmain ▸ trivial)
  have hdone (t : TaskId) : s.pc t = .done := inv.idle.between (by rw [hmain]; rfl) t
  have hc : (rows.foldl loadRow s).completed = completedIds rows := by
    ext t
    rw [mem_completed_load, hnone, mem_completedIds]
    simp
  have hs : (rows.foldl loadRow s).skipped = ∅ := by
    ext t
    rw [mem_skipped_load, inv.skipped]
    simpa using fun row hrow hstatus => absurd hstatus (hrows.unskipped row hrow)
  have hevaluates := hrows.evaluates s houtputs
  rw [hmem]
  refine ⟨?_, hc, hs⟩
  rw [← hc] at hevaluates
  obtain ⟨completed, skipped, outputs, hload⟩ := foldl_loadRow rows s
  rw [hload] at hc hevaluates ⊢
  refine ⟨inv.resumed.fits, hevaluates, ?_, fun node hnode => ?_⟩
  · refine fun t ht => ⟨(inv.resumed.wave t ht).1, fun p hp => ?_⟩
    have hin := (inv.resumed.wave t ht).2 p hp
    rw [hnone] at hin
    exact absurd hin (Finset.notMem_empty p)
  · have hbefore := inv.resumed.standing node hnode
    rw [hdone] at hbefore
    change Standing E respond input (completedIds rows) _ node (s.pc node.taskId)
    rw [hdone]
    rcases hbefore with ⟨hin, _⟩ | ⟨huncalled, hout⟩
    · rw [hnone] at hin
      exact absurd hin (Finset.notMem_empty _)
    · by_cases hin : node.taskId ∈ completedIds rows
      · refine Or.inl ⟨hc ▸ hin, ?_⟩
        rw [if_pos hin]
        exact huncalled.calls
      · exact Or.inr ⟨⟨hc ▸ hin, huncalled.calls⟩, hout⟩

private theorem resumed_gather (hmain : s.main = .skipping []) :
    Resumed E respond input (completedIds rows) { s with
      main := .gathering
      wave := E.dag.readyIds s.completed ∅
      pc := fun t => if t ∈ E.dag.readyIds s.completed ∅ then .waiting else .done } := by
  have hdone (t : TaskId) : s.pc t = .done := inv.idle.between (by rw [hmain]; rfl) t
  refine ⟨inv.resumed.fits, inv.resumed.evaluates, ?_, fun node hnode => ?_⟩
  · intro t ht
    obtain ⟨hnode, _, _, _, hpreds⟩ := E.dag.mem_readyIds.mp ht
    exact ⟨hnode, hpreds⟩
  · have hbefore := inv.resumed.standing node hnode
    rw [hdone] at hbefore
    dsimp only
    split
    · next hready =>
      obtain ⟨_, hnew, _⟩ := E.dag.mem_readyIds.mp hready
      rcases hbefore with ⟨hin, _⟩ | ⟨huncalled, _⟩
      · exact absurd hin hnew
      · exact ⟨huncalled.incomplete, huncalled.calls⟩
    · next hready =>
      rcases hbefore with hcompleted | ⟨huncalled, _⟩
      · exact Or.inl hcompleted
      · exact Or.inr ⟨⟨huncalled.incomplete, huncalled.calls⟩, hready⟩

/-- The body's moves, once the rows are loaded, that leave the tasks alone. -/
private theorem pass (same : Unmoved s s') (idle : Idle s') (located : Located s')
    (hlate : ¬ s.main.Early) (hlate' : ¬ s'.main.Early) (hcurrent : s'.mem.execution = s'.db.execution)
    (hdata : s'.db.execution.inputData = input) (hshows : s'.main.Shows s'.db.execution s'.taskOutputs)
    (onPath : s'.main.OnPath)
    (hall : s'.main = .final ∨ s'.main = .returned → s.completed = E.dag.allTaskIds)
    (hrefused : ∀ e, s'.main = .raised e → ∃ node, E.dag.getTask node.taskId = .ok node ∧
      node.taskId ∉ completedIds rows ∧ ¬ Accepted node) : Resuming E respond input rows s' where
  idle := idle
  located := located
  stored h := absurd (h ▸ trivial) hlate'
  loaded h := absurd h hlate'
  early h := absurd h hlate'
  late _ := same.completed ▸ inv.late hlate
  current _ := hcurrent
  data := hdata
  shows := hshows
  onPath := onPath
  skipped := same.skipped.trans inv.skipped
  unfailed := same.failed.trans inv.unfailed
  free := by
    rw [same.sem, same.pc]
    exact inv.free
  resumed := inv.resumed_of_unmoved same
  all h := same.completed.trans (hall h)
  refused := hrefused

private theorem works_looked (hmain : s.main = .lookup) :
    ({ s with mem := s.db, main := .loaded } : RunState).works = s.works := by
  rw [RunState.works, inv.stored hmain, RunState.works, inv.loaded (hmain ▸ trivial)]

private theorem mainMove (hrows : Resumable E respond input rows) (hlock : E.reading.lock = true)
    (hall : E.reading.allSkipped = true) (h : MainMove E s s') : Resuming E respond input rows s' := by
  have idle := inv.idle.mainMove h
  have located := inv.located.mainMove inv.idle h
  have hworks : s.refreshed.works = s.works := RunState.works_refreshed inv.located.agrees
  have hshows := inv.shows
  have hcurrent := inv.current
  cases inv.main_cases hlock hall h with
  | lookup hmain =>
    rw [hmain] at hshows
    exact {
      idle, located, stored := nofun, loaded := fun _ => inv.stored hmain
      early := fun _ => inv.early (hmain ▸ trivial)
      late := fun h => absurd trivial h, current := fun _ => rfl, data := inv.data, shows := hshows
      onPath := trivial, skipped := inv.skipped, unfailed := inv.unfailed, free := inv.free
      resumed := inv.resumed_of_unmoved { works := inv.works_looked hmain }, all := nofun, refused := nofun }
  | start now hmain =>
    rw [hmain] at hshows
    have hsame := hcurrent (by simp [hmain])
    have hdb : s.mem.execution.writeBack (s.mem.execution.start now) s.db.execution =
        s.mem.execution.start now := by rw [hsame, WorkflowExecution.writeBack_fresh]
    have hdata := (congrArg WorkflowExecution.inputData hdb).trans
      ((congrArg WorkflowExecution.inputData hsame).trans inv.data)
    exact {
      idle, located, stored := nofun, loaded := fun _ => inv.loaded (hmain ▸ trivial)
      early := fun _ => inv.early (hmain ▸ trivial), late := fun h => absurd trivial h
      current := fun _ => hdb.symm, data := hdata, shows := congrArg WorkflowExecution.status hdb
      onPath := trivial, skipped := inv.skipped, unfailed := inv.unfailed, free := inv.free
      resumed := inv.resumed_of_unmoved { works := rfl }, all := nofun, refused := nofun }
  | load hmain =>
    rw [hmain] at hshows
    obtain ⟨hresumed, hc, hs⟩ := inv.resumed_load hrows hmain
    obtain ⟨completed, skipped, outputs, hload⟩ := foldl_loadRow s.mem.tasks s
    rw [hload] at hc hs idle located hresumed ⊢
    exact {
      idle, located, stored := nofun, loaded := nofun, early := nofun, late := fun _ => hc.ge
      current := fun _ => hcurrent (by simp [hmain]), data := inv.data, shows := hshows, onPath := trivial
      skipped := hs, unfailed := inv.unfailed, free := inv.free, resumed := hresumed, all := nofun
      refused := nofun }
  | iterate hmain =>
    rw [hmain] at hshows
    exact inv.pass { works := hworks } idle located (by simp [hmain, MainPc.Early]) id rfl inv.data hshows
      trivial nofun nofun
  | check hmain =>
    rw [hmain] at hshows
    exact inv.pass { works := rfl } idle located (by simp [hmain, MainPc.Early]) id
      (hcurrent (by simp [hmain])) inv.data hshows trivial nofun nofun
  | gather hmain hready =>
    rw [hmain] at hshows
    have hfree : 0 < s.sem := by
      refine inv.free.resolve_right ?_
      rintro ⟨t, ht⟩
      rw [inv.idle.between (by rw [hmain]; rfl) t] at ht
      exact ht
    exact {
      idle, located, stored := nofun, loaded := nofun, early := nofun
      late := fun _ => inv.late (by simp [hmain, MainPc.Early])
      current := fun _ => hcurrent (by simp [hmain]), data := inv.data, shows := hshows, onPath := trivial
      skipped := inv.skipped, unfailed := inv.unfailed, free := Or.inl hfree
      resumed := inv.resumed_gather hmain, all := nofun, refused := nofun }
  | gathered hmain =>
    rw [hmain] at hshows
    exact inv.pass { works := rfl } idle located (by simp [hmain, MainPc.Early]) id
      (hcurrent (by simp [hmain])) inv.data hshows trivial nofun nofun
  | leave hmain hle =>
    have hrunning : s.db.execution.status = .running := by
      rcases hmain with hmain | hmain <;> rw [hmain] at hshows <;> exact hshows
    have hlate : ¬ s.main.Early := by rcases hmain with hmain | hmain <;> simp [hmain, MainPc.Early]
    exact inv.pass { works := hworks } idle located hlate id rfl inv.data hrunning trivial
      (fun _ => inv.completed_of_card hle) nofun
  | @complete now ex hmain hcomplete =>
    rw [hmain] at hshows
    have hsame := hcurrent (by simp [hmain])
    have hdb : s.mem.execution.writeBack ex s.db.execution = ex := by
      rw [hsame, WorkflowExecution.writeBack_fresh]
    have hrunning := inv.running (by simp [hmain]) (by simp [hmain])
    rw [WorkflowExecution.complete, hrunning] at hcomplete
    cases hcomplete
    have hdata := (congrArg WorkflowExecution.inputData hdb).trans
      ((congrArg WorkflowExecution.inputData hsame).trans inv.data)
    exact inv.pass { works := rfl } idle located (by simp [hmain, MainPc.Early]) id hdb.symm hdata
      ⟨congrArg WorkflowExecution.status hdb, congrArg WorkflowExecution.outputData hdb⟩ trivial
      (fun _ => inv.all (Or.inl hmain)) nofun
  | @propagate t e hmain hwave hpc =>
    rw [hmain] at hshows
    have hlate : ¬ s.main.Early := by simp [hmain, MainPc.Early]
    refine inv.pass { works := rfl } idle located hlate id (hcurrent (by simp [hmain])) inv.data hshows
      trivial nofun (fun _ _ => ?_)
    obtain ⟨node, hnode⟩ := E.dag.exists_getTask (inv.resumed.wave t hwave).1
    obtain rfl := (E.dag.getTask_ok hnode).2
    have hs := inv.resumed.standing node hnode
    rw [hpc] at hs
    exact ⟨node, hnode, fun hin => hs.1.incomplete (inv.late hlate hin), hs.2⟩

private theorem opened (hactive : s.pc t ≠ .done) : Open input (completedIds rows) s ∧ s.main.gathers = true := by
  have hg := inv.idle.gathers hactive
  have hlate := MainPc.not_early_of_gathers hg
  have hlookup : s.main ≠ .lookup := fun h => hlate (h ▸ trivial)
  have hrunning : s.mem.execution.status = .running := by
    refine inv.running ⟨hlookup, fun h => hlate (h ▸ trivial)⟩ (fun h => ?_)
    rw [h] at hg
    cases hg
  refine ⟨⟨inv.idle, inv.located, by simp [hrunning], ?_, inv.skipped, inv.late hlate⟩, hg⟩
  rw [inv.current hlookup]
  exact inv.data

private theorem nodeMove (hnode : E.dag.getTask node.taskId = .ok node) (htype : node.taskType ≠ "condition")
    (succeeds : ∀ node data, (respond node data).success = true)
    (h : NodeMove E respond.handler.answers node s s') : Resuming E respond input rows s' := by
  obtain ⟨ho, hg⟩ := inv.opened h.pc_ne_done
  have hs := inv.resumed.standing node hnode
  have hlate := MainPc.not_early_of_gathers hg
  have hlate' : ¬ s'.main.Early := h.main ▸ hlate
  have hcurrent : s'.mem.execution = s'.db.execution := by
    have hbefore := inv.current (fun hm => hlate (hm ▸ trivial))
    rw [h.execution]
    exact h.mem_execution.elim (fun hm => hm.trans hbefore) id
  have hshows : s'.main.Shows s'.db.execution s'.taskOutputs := by
    have hbefore := inv.shows
    rw [h.main, h.execution]
    rcases MainPc.gathers_iff.mp hg with hm | ⟨e, hm⟩ <;> rw [hm] at hbefore ⊢ <;> exact hbefore
  have hskipped : s'.skipped = ∅ := by
    rcases h.skipped with hsame | ⟨sid, toSkip, hpc, _⟩
    · rw [hsame, inv.skipped]
    · rw [hpc] at hs
      exact hs.elim
  have hunfailed : s'.failed = false := by
    by_contra hup
    rcases h.failed_iff.mp (by simpa using hup) with hf | ⟨te, hpc⟩
    · rw [inv.unfailed] at hf
      cases hf
    · rw [hpc] at hs
      exact hs.elim
  have hall : ¬ (s'.main = .final ∨ s'.main = .returned) := by
    rw [h.main]
    rintro (hm | hm) <;> rw [hm] at hg <;> cases hg
  exact {
    idle := inv.idle.nodeMove h, located := inv.located.nodeMove h
    stored := fun hm => absurd (hm ▸ trivial) hlate', loaded := fun hm => absurd hm hlate'
    early := fun hm => absurd hm hlate', late := fun _ => (inv.late hlate).trans h.completed_mono
    current := fun _ => hcurrent, data := h.execution ▸ inv.data, shows := hshows
    onPath := h.main ▸ inv.onPath, skipped := hskipped, unfailed := hunfailed
    free := h.free.imp_right (fun hh => ⟨_, hh⟩), resumed := inv.resumed.nodeMove ho hnode succeeds htype h
    all := fun hm => absurd hm hall, refused := h.main ▸ inv.refused }

/-! ### Every run ends -/

/-- Whatever the moves of a coroutine lead to, fewer are left. -/
private theorem movesLeft_lt (hnode : E.dag.getTask node.taskId = .ok node)
    (htype : node.taskType ≠ "condition") (h : NodeMove E respond.handler.answers node s s') :
    (s'.pc node.taskId).movesLeft 0 < (s.pc node.taskId).movesLeft 0 := by
  have hs := inv.resumed.standing node hnode
  cases h with
  | branch hpc _ htype' _ _ => exact absurd htype' htype
  | branchThrow hpc _ htype' _ => exact absurd htype' htype
  | again hpc | branchDone hpc | branchFound _ hpc _ | branchMissing hpc _ | branchCreate _ hpc _ =>
    rw [hpc] at hs
    exact hs.elim
  | @answer now te input' row outcome hpc _ _ _ =>
    rw [hpc, RunState.goto_pc, Function.update_self]
    split <;> simp [NodePc.movesLeft]
  | throw h =>
    rw [RunState.throw_pc, Function.update_self]
    cases h with
    | target hpc _ =>
      rw [hpc] at hs
      exact hs.elim
    | strategy hpc _ | taskClass hpc _ _ _ _ | handler hpc _ _ | delay _ hpc _ _ _ =>
      rw [hpc]
      exact Nat.succ_pos _
  | acquire hpc _ | cancelled hpc _ | enter hpc _ | settled hpc _ | found hpc _ _ _ | missing hpc _ _ _
  | create hpc | prepare hpc _ | begin _ hpc _ _ _ _ | stop hpc _ _ | call hpc _ | exhausted hpc _ _
  | backOff _ hpc _ _ _ | fail hpc | finish hpc _ _ => simp [hpc, NodePc.movesLeft]

/-- What a run has completed itself has accepted settings. -/
theorem accepted (hnode : E.dag.getTask node.taskId = .ok node) (hin : node.taskId ∈ s.completed)
    (hnew : node.taskId ∉ completedIds rows) : Accepted node := by
  have hs := inv.resumed.standing node hnode
  cases hpc : s.pc node.taskId with
  | done =>
    rw [hpc] at hs
    rcases hs with ⟨_, h⟩ | ⟨huncalled, _⟩
    · rw [if_neg hnew] at h
      exact h.2
    · exact absurd hin huncalled.incomplete
  | waiting | checking | entering | creating =>
    rw [hpc] at hs
    exact absurd hin hs.incomplete
  | finishing te ok =>
    rw [hpc] at hs
    cases ok with
    | false => exact hs.elim
    | true => exact absurd hin hs.1.incomplete
  | prepared | looping | running | handling | raised =>
    rw [hpc] at hs
    exact absurd hin hs.1.incomplete
  | attemptFailed | sleeping | branching | branchCreating =>
    rw [hpc] at hs
    exact hs.elim

theorem ended_or_enabled : s.Ended ∨ ∃ s', Step E respond.handler.answers s s' := by
  by_cases hend : s.Ended
  · exact Or.inl hend
  by_cases hmain : s.main = .gathering
  · have hnodes : ∀ t ∈ s.wave, t ∈ E.dag.graph.nodes := fun t ht => (inv.resumed.wave t ht).1
    exact Or.inr (gathering_enabled respond.handler.answering inv.located inv.idle hmain hnodes inv.free)
  · obtain ⟨s', h⟩ := mainStep_enabled E hmain hend 0
    exact Or.inr ⟨s', .main 0, trivial, h⟩

/-- A task that is completed, and was not before, has been called once, and its settings are accepted. -/
theorem called (hmain : s.main = .final ∨ s.main = .returned)
    (hnode : E.dag.getTask node.taskId = .ok node) :
    if node.taskId ∈ completedIds rows then s.calls node.taskId = 0
    else s.calls node.taskId = 1 ∧ Accepted node := by
  have hs := inv.resumed.standing node hnode
  rw [inv.idle.between (by rcases hmain with h | h <;> rw [h] <;> rfl)] at hs
  have hin : node.taskId ∈ s.completed := by
    rw [inv.all hmain]
    exact E.dag.mem_allTaskIds.mpr (E.dag.mem_nodes_of_getTask hnode)
  rcases hs with ⟨_, h⟩ | ⟨huncalled, _⟩
  · exact h
  · exact absurd hin huncalled.incomplete

end Resuming

theorem Resuming.start (hrows : Resumable E respond input db.tasks)
    (hpending : db.execution.status = .pending) (hdata : db.execution.inputData = input) :
    Resuming E respond input db.tasks (.start E db) where
  idle := .start E db
  located := .start E db
  stored _ := rfl
  loaded _ := rfl
  early _ := ⟨rfl, rfl⟩
  late h := absurd trivial h
  current h := absurd rfl h
  data := hdata
  shows := hpending
  onPath := trivial
  skipped := rfl
  unfailed := rfl
  free := Or.inl E.settings.permits
  resumed := by
    refine ⟨fun i w hw hid => ?_, .empty, fun t ht => absurd ht List.not_mem_nil, fun node _ => ?_⟩
    · obtain ⟨row, hrow, rfl⟩ := RunState.row_of_works hw
      exact hrows.fits row (List.mem_of_getElem? hrow) hid
    · exact Or.inr ⟨⟨Finset.notMem_empty _, rfl⟩, List.not_mem_nil⟩
  all := nofun
  refused := nofun

def RunState.distance (E : Engine) (s : RunState) : Nat ×ₗ Nat ×ₗ Nat :=
  toLex ((s.unreached E).card, toLex (s.main.movesLeft,
    (E.dag.nodes.map (fun node => (s.pc node.taskId).movesLeft 0)).sum))

section Runs
variable (hlock : E.reading.lock = true) (hall : E.reading.allSkipped = true)
  (htypes : ∀ node ∈ E.dag.nodes, node.taskType ≠ "condition")
  (succeeds : ∀ node data, (respond node data).success = true) (hrows : Resumable E respond input rows)
include hlock hall htypes succeeds hrows

theorem Resuming.step (inv : Resuming E respond input rows s) (h : Step E respond.handler.answers s s') :
    Resuming E respond input rows s' := by
  rcases step_cases h with h | ⟨node, hnode, h⟩
  · exact inv.mainMove hrows hlock hall h
  · exact inv.nodeMove hnode (htypes node (E.dag.getTask_ok hnode).1) succeeds h

theorem Resuming.halts (inv : Resuming E respond input rows s) :
    Halts (Step E respond.handler.answers) s := by
  have keep : ∀ s s', Resuming E respond input rows s → Step E respond.handler.answers s s' →
      Resuming E respond input rows s' := fun _ _ inv h => inv.step hlock hall htypes succeeds hrows h
  refine halts_of_measure (RunState.distance E) keep (fun s s' inv h => ?_) inv
  have inv' := keep s s' inv h
  rcases step_cases h with h | ⟨node, hnode, h⟩
  · refine h.lex_lt (fun hskipping t ht => ?_) (fun hmain => ?_)
    · obtain ⟨node, hnode⟩ := E.dag.exists_getTask (inv.resumed.wave t ht).1
      obtain rfl := (E.dag.getTask_ok hnode).2
      have hs := inv.resumed.standing node hnode
      rw [inv.idle.between (by rw [hskipping]; rfl)] at hs
      rcases hs with ⟨hin, _⟩ | ⟨_, hout⟩
      · exact hin
      · exact absurd ht hout
    · have hon := inv.onPath
      refine h.movesLeft_lt (fun hm => ?_) (fun sid sids hm => ?_) (fun sid sids hm => ?_)
        (fun hm => ?_) hmain
      · rw [hm] at hon
        exact hon
      · rw [hm] at hon
        exact hon
      · rw [hm] at hon
        exact hon
      · have hon' := inv'.onPath
        rw [hm] at hon'
        exact hon'
  · refine h.lex_lt inv.idle hnode (inv.movesLeft_lt hnode (htypes node (E.dag.getTask_ok hnode).1) h) ?_
    intro other hne
    rw [h.pc_of_ne hne]

end Runs

end BackendProjects.Workflow
