import BackendProjects.Workflow.OrderIndependence
import BackendProjects.Workflow.Resume

/-! A run resumed from the rows of an earlier one comes to what a run from scratch comes to, as long as no
task that is left raises an exception. -/
namespace BackendProjects.Workflow
open Library
variable {E : Engine} {respond : Respond} {input : Option PyDict} {db : Database} {s u : RunState}
  {node : DAGNode} {t : TaskId} {rows rows' : List TaskExecution}

def SameOutputs (a b : PyValue) : Prop :=
  ∃ o o' : PyDict, a = .dict [(.str "tasks", .dict o)] ∧ b = .dict [(.str "tasks", .dict o')] ∧
    ∀ key, o.get? key = o'.get? key

/-- A run over the rows of an earlier one that has called what was left, and has come to what every run
from scratch comes to. -/
structure ResumesLikeFresh (E : Engine) (respond : Respond) (input : Option PyDict) (db : Database)
    (s : RunState) : Prop where
  returned : s.main = .returned
  completed : s.db.execution.status = .completed
  calls : ∀ node ∈ E.dag.nodes,
    s.calls node.taskId = if node.taskId ∈ completedIds db.tasks then 0 else 1
  output : ∀ u, Leads E respond.handler input u → u.Ended →
    u.main = .returned ∧ SameOutputs s.db.execution.outputData u.db.execution.outputData

private theorem Resumable.fresh (E : Engine) (respond : Respond) (input : Option PyDict) :
    Resumable E respond input [] where
  evaluates _ h := by
    rw [List.foldl_nil, h]
    exact .empty
  unskipped _ h := absurd h List.not_mem_nil
  fits _ h := absurd h List.not_mem_nil

/-- A run whose remaining tasks have accepted settings has returned once it has ended. -/
private theorem Resuming.returned (inv : Resuming E respond input rows s) (hend : s.Ended)
    (haccepted : ∀ node ∈ E.dag.nodes, node.taskId ∉ completedIds rows → Accepted node) :
    s.main = .returned := by
  rcases hend with hmain | ⟨e, hmain⟩
  · exact hmain
  · obtain ⟨node, hnode, hnew, hnot⟩ := inv.refused e hmain
    exact absurd (haccepted node (E.dag.getTask_ok hnode).1 hnew) hnot

/-- What a run that has returned shows of the tasks and outputs. -/
private theorem Resuming.shown (inv : Resuming E respond input rows s) (hmain : s.main = .returned) :
    s.db.execution.status = .completed ∧
      s.db.execution.outputData = .dict [(.str "tasks", .dict s.taskOutputs)] := by
  have hshows := inv.shows
  rw [hmain] at hshows
  exact hshows

/-- Two runs that have returned show the same outputs, whichever rows they have started from. -/
private theorem Resuming.sameOutputs (inv : Resuming E respond input rows s) (hmain : s.main = .returned)
    (inv' : Resuming E respond input rows' u) (hmain' : u.main = .returned) :
    SameOutputs s.db.execution.outputData u.db.execution.outputData := by
  have hall := inv.all (Or.inr hmain)
  have hall' := inv'.all (Or.inr hmain')
  refine ⟨s.taskOutputs, u.taskOutputs, (inv.shown hmain).2, (inv'.shown hmain').2, fun key => ?_⟩
  by_cases hkey : ∃ t ∈ E.dag.allTaskIds, key = .str t
  · obtain ⟨t, ht, rfl⟩ := hkey
    exact inv.resumed.evaluates.agree inv'.resumed.evaluates (hall ▸ ht) (hall' ▸ ht)
  · have hother : ∀ t ∈ E.dag.allTaskIds, key ≠ .str t := fun t ht heq => hkey ⟨t, ht, heq⟩
    rw [inv.resumed.evaluates.absent key (hall ▸ hother), inv'.resumed.evaluates.absent key (hall' ▸ hother)]

section Agreement
variable (hlock : E.reading.lock = true) (hall : E.reading.allSkipped = true)
  (htypes : ∀ node ∈ E.dag.nodes, node.taskType ≠ "condition")
  (succeeds : ∀ node data, (respond node data).success = true)
include hlock hall htypes succeeds

private theorem Resuming.of_run (hrows : Resumable E respond input db.tasks)
    (hpending : db.execution.status = .pending) (hdata : db.execution.inputData = input)
    (run : Run (Step E respond.handler.answers) (.start E db) s) :
    Resuming E respond input db.tasks s :=
  run.invariant (fun _ _ inv h => inv.step hlock hall htypes succeeds hrows h) (.start hrows hpending hdata)

private theorem Resuming.of_leads (run : Leads E respond.handler input u) : Resuming E respond input [] u := by
  have hrows : Resumable E respond input (freshRows input).tasks := .fresh E respond input
  exact .of_run hlock hall htypes succeeds hrows rfl rfl run

/-- What a checkpoint has loaded for a task is what some run from scratch has published. -/
private theorem Checkpoint.loaded (checkpoint : Checkpoint E respond input db) (hs : s.taskOutputs = [])
    (ht : t ∈ completedIds db.tasks) : ∃ u, Resuming E respond input [] u ∧ t ∈ u.completed ∧
      (db.tasks.foldl loadRow s).taskOutputs.get? (.str t) = u.taskOutputs.get? (.str t) := by
  obtain ⟨row, hrow, hstatus, rfl⟩ := mem_completedIds.mp ht
  obtain ⟨u, run, hin, hvalue⟩ := checkpoint.outputs row hrow hstatus
  refine ⟨u, .of_leads hlock hall htypes succeeds run, hin, ?_⟩
  rw [load_taskOutputs, hs, persistedOutput_of_mem hrow hstatus checkpoint.once, hvalue]
  exact Option.or_none

private theorem Checkpoint.resumable (checkpoint : Checkpoint E respond input db) :
    Resumable E respond input db.tasks where
  evaluates s hs := by
    refine ⟨fun t ht => ?_, checkpoint.closed, fun key hkey => ?_, fun node hnode ht => ?_⟩
    · obtain ⟨row, hrow, _, rfl⟩ := mem_completedIds.mp ht
      exact checkpoint.known row hrow
    · rw [load_get?_of_ne hkey, hs]
      rfl
    · obtain ⟨u, inv, hin, hsame⟩ := checkpoint.loaded hlock hall htypes succeeds hs ht
      rw [hsame, inv.resumed.evaluates.value node hnode hin]
      congr 1
      refine outputOf_congr (fun p hp => ?_)
      have hbefore := checkpoint.closed _ ht p hp
      obtain ⟨v, inv', hin', hsame'⟩ := checkpoint.loaded hlock hall htypes succeeds hs hbefore
      rw [hsame']
      exact inv.resumed.evaluates.agree inv'.resumed.evaluates (inv.resumed.evaluates.closed _ hin p hp) hin'
  unskipped row hrow hskipped := by
    refine (checkpoint.others row hrow ?_).1 hskipped
    rw [hskipped]
    decide
  fits row hrow hnot := by
    refine (checkpoint.others row hrow (fun hstatus => hnot ?_)).2.2
    exact mem_completedIds.mpr ⟨row, hrow, hstatus, rfl⟩

/-- A task that a checkpoint has completed has accepted settings. -/
private theorem Checkpoint.accepted (checkpoint : Checkpoint E respond input db)
    (hnode : E.dag.getTask node.taskId = .ok node) (hin : node.taskId ∈ completedIds db.tasks) :
    Accepted node := by
  have hempty : (RunState.start E db).taskOutputs = [] := rfl
  obtain ⟨u, inv, hcompleted, _⟩ := checkpoint.loaded hlock hall htypes succeeds hempty hin
  exact inv.accepted hnode hcompleted (Finset.notMem_empty _)

end Agreement

/-- Without conditions and cancels, every run over the rows of an earlier one comes to an end; and all of
them call what was left and come to what a run from scratch does exactly when the settings and types of
the tasks that were left are accepted. -/
theorem resumed_runs_agree_with_fresh (E : Engine) (respond : Respond) (input : Option PyDict) (db : Database)
    (hlock : E.reading.lock = true) (hall : E.reading.allSkipped = true)
    (htypes : ∀ node ∈ E.dag.nodes, node.taskType ≠ "condition")
    (succeeds : ∀ node data, (respond node data).success = true)
    (checkpoint : Checkpoint E respond input db) :
    Halts (Step E respond.handler.answers) (.start E db) ∧
    (∀ s, Run (Step E respond.handler.answers) (.start E db) s →
      Terminal (Step E respond.handler.answers) s → s.Ended) ∧
    ((∀ s, Run (Step E respond.handler.answers) (.start E db) s → s.Ended →
        ResumesLikeFresh E respond input db s) ↔
      ∀ node ∈ E.dag.nodes, node.taskId ∉ completedIds db.tasks → Accepted node) := by
  have hrows := checkpoint.resumable hlock hall htypes succeeds
  have hinv {s : RunState} (run : Run (Step E respond.handler.answers) (.start E db) s) :
      Resuming E respond input db.tasks s :=
    .of_run hlock hall htypes succeeds hrows checkpoint.pending checkpoint.data run
  have hhalts := (hinv .refl).halts hlock hall htypes succeeds hrows
  have hends : ∀ s, Run (Step E respond.handler.answers) (.start E db) s →
      Terminal (Step E respond.handler.answers) s → s.Ended := by
    intro s run hterminal
    rcases (hinv run).ended_or_enabled with hend | ⟨s', h⟩
    · exact hend
    · exact absurd h (hterminal s')
  refine ⟨hhalts, hends, fun h node hnode hnew => ?_, fun haccepted s run hend => ?_⟩
  · obtain ⟨s, run, hterminal⟩ := hhalts.exists_terminal
    have hmain := (h s run (hends s run hterminal)).returned
    have hcalled := (hinv run).called (Or.inr hmain) (E.dag.getTask_of_mem hnode)
    rw [if_neg hnew] at hcalled
    exact hcalled.2
  · have hmain := (hinv run).returned hend haccepted
    refine ⟨hmain, ((hinv run).shown hmain).1, fun node hnode => ?_, fun u hu hend' => ?_⟩
    · have hcalled := (hinv run).called (Or.inr hmain) (E.dag.getTask_of_mem hnode)
      split at hcalled
      · next hin => rw [if_pos hin, hcalled]
      · next hnew => rw [if_neg hnew, hcalled.1]
    · have inv' := Resuming.of_leads hlock hall htypes succeeds hu
      have hmain' := inv'.returned hend' (fun node hnode _ => ?_)
      · exact ⟨hmain', (hinv run).sameOutputs hmain inv' hmain'⟩
      · by_cases hin : node.taskId ∈ completedIds db.tasks
        · exact checkpoint.accepted hlock hall htypes succeeds (E.dag.getTask_of_mem hnode) hin
        · exact haccepted node hnode hin

/-! ### Interrupted between two tasks -/

private def doneResult : TaskResult := ⟨true, .str "done", none, 0⟩

private def respondsDone : Respond := fun _ _ => doneResult

private theorem possible_done (t : TaskId) (n : Nat) :
    ∀ c ∈ coroutine t n (.result doneResult), c.Possible respondsDone.handler.answers :=
  possible_coroutine t n fun _ _ _ => rfl

private def interrupted : Database where
  execution := {}
  tasks := [
    { taskDefinitionId := "a", taskName := "A", taskType := "delay", status := .completed,
      outputData := .str "done" },
    { taskDefinitionId := "b", taskName := "B", taskType := "delay", status := .running, attempt := 2,
      maxAttempts := 3 }]

private def publishesA (s : RunState) : Bool :=
  "a" ∈ s.completed ∧ s.taskOutputs.get? (.str "a") = some (.str "done")

private theorem interrupted_checkpoint (ha : "a" ∈ E.dag.graph.nodes) (hb : "b" ∈ E.dag.graph.nodes)
    (hsource : E.dag.predecessors "a" = [])
    (h : (execute (step E) (body 6 ++ coroutine "a" 9 (.result doneResult))
      (.start E (freshRows none))).any publishesA = true) : Checkpoint E respondsDone none interrupted where
  pending := rfl
  data := rfl
  known row hrow := by
    rcases List.mem_pair.mp hrow with rfl | rfl
    · exact ha
    · exact hb
  once := by decide
  closed t ht p hp := by
    obtain ⟨row, hrow, hstatus, rfl⟩ := mem_completedIds.mp ht
    rcases List.mem_pair.mp hrow with rfl | rfl
    · rw [hsource] at hp
      cases hp
    · cases hstatus
  outputs row hrow hstatus := by
    rcases List.mem_pair.mp hrow with rfl | rfl
    · obtain ⟨u, run, hu⟩ := exists_run E respondsDone.handler.answers _ _ _
        (possible_append (possible_body _ 6) (possible_done "a" 9)) h
      obtain ⟨hin, hvalue⟩ := of_decide_eq_true hu
      exact ⟨u, run, hin, hvalue⟩
    · cases hstatus
  others row hrow hstatus := by
    rcases List.mem_pair.mp hrow with rfl | rfl
    · exact absurd rfl hstatus
    · decide

theorem resumed_runs_agree_with_fresh_chain :
    ∃ s u, Run (Step (chainEngine .repaired) respondsDone.handler.answers)
        (.start (chainEngine .repaired) interrupted) s ∧
      Leads (chainEngine .repaired) respondsDone.handler none u ∧
      s.db.execution.status = .completed ∧ s.calls "a" = 0 ∧ s.calls "b" = 1 ∧
      SameOutputs s.db.execution.outputData u.db.execution.outputData := by
  have htypes : ∀ node ∈ (chainEngine .repaired).dag.nodes, node.taskType ≠ "condition" := by decide +kernel
  have checkpoint : Checkpoint (chainEngine .repaired) respondsDone none interrupted :=
    interrupted_checkpoint (by decide +kernel) (by decide +kernel) (by decide +kernel) (by decide +kernel)
  obtain ⟨hhalts, hends, hagree⟩ := resumed_runs_agree_with_fresh (chainEngine .repaired) respondsDone none
    interrupted rfl rfl htypes (fun _ _ => rfl) checkpoint
  obtain ⟨s, run, hterminal⟩ := hhalts.exists_terminal
  have haccepted : ∀ node ∈ (chainEngine .repaired).dag.nodes,
      (getRetryStrategy node.retryConfig).toBool = true ∧ (getTaskClass node.taskType).toBool = true := by
    decide +kernel
  have hlike := hagree.mpr (fun node hnode _ => ⟨(haccepted node hnode).1, (haccepted node hnode).2⟩) s run
    (hends s run hterminal)
  have hcalls {t : TaskId} (ht : t ∈ (chainEngine .repaired).dag.nodes.map (·.taskId)) :
      s.calls t = if t ∈ completedIds interrupted.tasks then 0 else 1 := by
    obtain ⟨node, hnode, rfl⟩ := List.mem_map.mp ht
    exact hlike.calls node hnode
  have ha := (hcalls (t := "a") (by decide +kernel)).trans (if_pos (by decide))
  have hb := (hcalls (t := "b") (by decide +kernel)).trans (if_neg (by decide))
  have hpossible := possible_append (possible_append (possible_body _ 6) (possible_done "a" 9))
    (possible_append (possible_append (possible_body respondsDone.handler.answers 4) (possible_done "b" 9))
      (possible_body _ 3))
  obtain ⟨u, hu, hend⟩ := exists_run (chainEngine .repaired) respondsDone.handler.answers _
    (.start (chainEngine .repaired) (freshRows none)) (fun s => decide (s.main = .returned)) hpossible
    (by decide +kernel)
  exact ⟨s, u, run, hu, hlike.completed, ha, hb, (hlike.output u hu (Or.inl (of_decide_eq_true hend))).2⟩

/-- The second task asks for a delay that is too long for a double. -/
theorem resumed_overflow_raises :
    Checkpoint overflowEngine respondsDone none interrupted ∧
    ¬ ∀ s, Run (Step overflowEngine respondsDone.handler.answers) (.start overflowEngine interrupted) s →
      s.Ended → ResumesLikeFresh overflowEngine respondsDone none interrupted s := by
  refine ⟨interrupted_checkpoint (by decide +kernel) (by decide +kernel) (by decide +kernel)
    (by decide +kernel), fun h => ?_⟩
  have hpropagate : ∀ c ∈ [Choice.propagate "b"], c.Possible respondsDone.handler.answers := by
    intro c hc
    rw [List.mem_singleton.mp hc]
    trivial
  let e : PyError := .overflowError "int too large to convert to float"
  obtain ⟨s, run, hs⟩ := exists_run overflowEngine respondsDone.handler.answers _
    (.start overflowEngine interrupted) (fun s => decide (s.main = .raised e))
    (possible_append (possible_append (possible_body _ 6) (possible_done "b" 4)) hpropagate)
    (by decide +kernel)
  have hmain := of_decide_eq_true hs
  have hreturned := (h s run (Or.inr ⟨_, hmain⟩)).returned
  rw [hmain] at hreturned
  cases hreturned

end BackendProjects.Workflow
