import BackendProjects.Workflow.Attempts
import BackendProjects.Workflow.FailureRecord

/-! A run of a fresh execution against the evaluation of its DAG: whatever the interleaving, each
wave is the next generation, and comes to what the evaluation says. -/
namespace BackendProjects.Workflow
open Library

structure Matches (sum : Summary) (s : RunState) : Prop where
  completed : s.completed = sum.completed
  failed : s.failed = sum.failed
  calls : ∀ t, s.calls t = sum.calls t
  outputs : ∀ key, s.taskOutputs.get? key = sum.outputs.get? key

structure Reached (E : Engine) (handler : Handler) (input : Option PyDict) (sum : Summary)
    (rest : List (List TaskId)) : Prop where
  eval : evaluate E handler input = evalGenerations E handler input rest sum
  waves : E.dag.graph.Waves (sum.completed : Set TaskId) rest
  known : ∀ t ∈ sum.completed, t ∈ E.dag.graph.nodes
  unfailed : sum.failed = false
  unraised : sum.raised = false
  untried : ∀ t, t ∉ sum.completed → sum.calls t = 0 ∧ sum.outputs.get? (.str t) = none

variable {E : Engine} {handler : Handler} {input : Option PyDict} {sum : Summary} {gen : List TaskId}
  {rest : List (List TaskId)} {s s' : RunState} {node : DAGNode} {t : TaskId}

/-! ### The evaluation -/

private theorem Reached.empty (E : Engine) (handler : Handler) (input : Option PyDict) :
    Reached E handler input .empty E.dag.getExecutionOrder where
  eval := rfl
  waves := by simpa [Summary.empty, DAG.getExecutionOrder] using E.dag.graph.topologicalGenerations_waves
  known := by simp [Summary.empty]
  unfailed := rfl
  unraised := rfl
  untried := fun _ _ => ⟨rfl, rfl⟩

private theorem Reached.ready (h : Reached E handler input sum (gen :: rest)) :
    t ∈ gen ↔ t ∈ E.dag.readyIds sum.completed ∅ :=
  (h.waves.2.2.1 t).trans E.dag.mem_readyIds_empty.symm

theorem Reached.fresh (h : Reached E handler input sum (gen :: rest)) (ht : t ∈ gen) :
    t ∈ E.dag.graph.nodes ∧ t ∉ sum.completed ∧ ∀ p ∈ E.dag.predecessors t, p ∈ sum.completed := by
  obtain ⟨hnode, hnew, hpreds⟩ := (h.waves.2.2.1 t).mp ht
  exact ⟨hnode, by simpa using hnew, fun p hp => Finset.mem_coe.mp (hpreds p hp)⟩

/-- Nothing is left exactly when everything is completed. -/
private theorem Reached.rest_eq_nil (h : Reached E handler input sum rest)
    (hnone : E.dag.readyIds sum.completed ∅ = []) : rest = [] := by
  cases rest with
  | nil => rfl
  | cons gen rest =>
    obtain ⟨t, ht⟩ := List.exists_mem_of_ne_nil _ h.waves.1
    have := h.ready.mp ht
    rw [hnone] at this
    cases this

/-- Where nothing is ready, nothing is unsettled. -/
private theorem Reached.all_completed (h : Reached E handler input sum [])
    (ht : t ∈ E.dag.graph.nodes) : t ∈ sum.completed := by
  by_contra hnot
  obtain ⟨w, hw, hnew, hpreds⟩ := E.dag.exists_minimal_unsettled sum.completed ht hnot
  exact h.waves w ⟨hw, by simpa using hnew, fun p hp => Finset.mem_coe.mpr (hpreds p hp)⟩

variable (E handler input sum) in
/-- What the evaluation says about a task of the next generation. -/
abbrev Summary.verdict (t : TaskId) : Verdict := Workflow.verdict E handler input sum.outputs t

theorem evalGeneration_failed (h : sum.failed = false) :
    (evalGeneration E handler input sum gen).failed = true ↔
      ∃ t ∈ gen, (sum.verdict E handler input t).succeeds = false := by
  simp [evalGeneration, h]

theorem evalGeneration_raised (h : sum.raised = false) :
    (evalGeneration E handler input sum gen).raised = true ↔
      ∃ t ∈ gen, (sum.verdict E handler input t).isRaise = true := by
  simp [evalGeneration, h]

/-- A generation without a failure leads on to the next one. -/
private theorem Reached.next (h : Reached E handler input sum (gen :: rest))
    (hok : ∀ t ∈ gen, (sum.verdict E handler input t).succeeds = true) :
    Reached E handler input (evalGeneration E handler input sum gen) rest := by
  have hfailed : (evalGeneration E handler input sum gen).failed = false := by
    by_contra hf
    obtain ⟨t, ht, hnot⟩ := (evalGeneration_failed h.unfailed).mp (by simpa using hf)
    rw [hok t ht] at hnot
    cases hnot
  have hcompleted : (evalGeneration E handler input sum gen).completed = sum.completed ∪ gen.toFinset := by
    simp only [evalGeneration]
    rw [List.filter_eq_self.mpr hok]
  have hset : ((sum.completed ∪ gen.toFinset : Finset TaskId) : Set TaskId) =
      (sum.completed : Set TaskId) ∪ {v | v ∈ gen} := by
    ext v
    simp
  refine ⟨?_, ?_, ?_, hfailed, ?_, ?_⟩
  · rw [h.eval, evalGenerations]
    simp [hfailed]
  · rw [hcompleted, hset]
    exact h.waves.2.2.2
  · rw [hcompleted]
    intro t ht
    rcases Finset.mem_union.mp ht with ht | ht
    · exact h.known t ht
    · exact (h.fresh (List.mem_toFinset.mp ht)).1
  · by_contra hr
    obtain ⟨t, ht, hraise⟩ := (evalGeneration_raised h.unraised).mp (by simpa using hr)
    have hs := hok t ht
    cases hv : sum.verdict E handler input t <;> rw [hv] at hs hraise <;>
      simp [Verdict.succeeds, Verdict.isRaise] at hs hraise
  · rw [hcompleted]
    intro t ht
    simp only [Finset.mem_union, List.mem_toFinset, not_or] at ht
    obtain ⟨hcalls, houtput⟩ := h.untried t ht.1
    refine ⟨by simp [evalGeneration, ht.2, hcalls], ?_⟩
    simp only [evalGeneration]
    rw [publishAll_of_notMem _ _ (fun u hu heq => ht.2 (by cases heq; exact hu)), houtput]

/-- A generation with a failure is the last one. -/
theorem Reached.stop (h : Reached E handler input sum (gen :: rest))
    (hf : ∃ t ∈ gen, (sum.verdict E handler input t).succeeds = false) :
    evaluate E handler input = evalGeneration E handler input sum gen := by
  have hfailed := (evalGeneration_failed h.unfailed).mpr hf
  rw [h.eval, evalGenerations]
  exact if_pos hfailed

/-! ### The stages of a run -/

structure Between (E : Engine) (handler : Handler) (input : Option PyDict) (sum : Summary)
    (rest : List (List TaskId)) (s : RunState) : Prop where
  reached : Reached E handler input sum rest
  shown : Matches sum s
  wave : ∀ t ∈ s.wave, t ∈ sum.completed
  ids : ∀ t ∈ s.ids, t ∈ sum.completed

/-- In a wave, the coroutines of the next generation are heading for their verdicts. -/
structure During (E : Engine) (handler : Handler) (input : Option PyDict) (sum : Summary)
    (gen : List TaskId) (rest : List (List TaskId)) (s : RunState) : Prop where
  reached : Reached E handler input sum (gen :: rest)
  wave : ∀ t, t ∈ s.wave ↔ t ∈ gen
  locals : ∀ node, E.dag.getTask node.taskId = .ok node → node.taskId ∈ gen →
    Local E handler (taskInput E input sum.outputs node.taskId)
      (sum.verdict E handler input node.taskId) s node
  completed : ∀ t, t ∉ gen → (t ∈ s.completed ↔ t ∈ sum.completed)
  calls : ∀ t, t ∉ gen → s.calls t = sum.calls t
  ids : ∀ t ∈ s.ids, t ∉ gen → t ∈ sum.completed
  outputs : ∀ key, (∀ t ∈ gen, key ≠ .str t) → s.taskOutputs.get? key = sum.outputs.get? key
  flag : s.failed = true → ∃ t ∈ gen, (sum.verdict E handler input t).succeeds = false
  raised : ∀ e, s.main = .raised e → ∃ t ∈ gen, (sum.verdict E handler input t).isRaise = true

/-- A wave as the body hands it out. -/
structure Handed (E : Engine) (handler : Handler) (input : Option PyDict) (sum : Summary)
    (gen : List TaskId) (rest : List (List TaskId)) (s : RunState) : Prop where
  during : During E handler input sum gen rest s
  main : s.main = .gathering
  waiting : ∀ t ∈ gen, s.pc t = .waiting
  unfailed : s.failed = false

/-- An execution as `trigger_workflow` creates it. -/
def freshRows (input : Option PyDict) : Database := ⟨{ inputData := input }, []⟩

abbrev Leads (E : Engine) (handler : Handler) (input : Option PyDict) : RunState → Prop :=
  Run (Step E handler.answers) (.start E (freshRows input))

/-- How far a run has come. -/
inductive Stage (E : Engine) (handler : Handler) (input : Option PyDict) (s : RunState) : Prop
  | before (hmain : s.main = .lookup ∨ s.main = .loaded ∨ s.main = .starting)
      (hshown : Matches .empty s) (hwave : s.wave = []) (hmem : s.mem.tasks = [])
      (hdb : s.db.tasks = [])
  | between {sum : Summary} {rest : List (List TaskId)}
      (hmain : s.main = .loop ∨ s.main = .checking ∨ s.main = .skipping [])
      (h : Between E handler input sum rest s)
  | during {sum : Summary} {gen : List TaskId} {rest : List (List TaskId)}
      (hmain : s.main.gathers = true) (h : During E handler input sum gen rest s)
      (handed : ∃ s₀, Leads E handler input s₀ ∧ Handed E handler input sum gen rest s₀)
  | ended (hmain : s.main = .final ∨ s.main = .returned)
      (hshown : Matches (evaluate E handler input) s)
      (hraised : (evaluate E handler input).raised = false)

def NodePc.Holds : NodePc → Prop
  | .waiting | .done | .raised _ => False
  | _ => True

structure Replays (E : Engine) (handler : Handler) (input : Option PyDict) (s : RunState) : Prop where
  run : Leads E handler input s
  unrecorded : Unrecorded s
  data : s.mem.execution.inputData = input ∧ s.db.execution.inputData = input
  skipped : s.skipped = ∅
  free : 0 < s.sem ∨ ∃ t, (s.pc t).Holds
  stage : Stage E handler input s

theorem Replays.start (E : Engine) (handler : Handler) (input : Option PyDict) :
    Replays E handler input (.start E (freshRows input)) where
  run := .refl
  unrecorded := .start E rfl rfl
  data := ⟨rfl, rfl⟩
  skipped := rfl
  free := Or.inl E.settings.permits
  stage := .before (Or.inl rfl) ⟨rfl, rfl, fun _ => rfl, fun _ => rfl⟩ rfl rfl rfl

/-- Past the start, the execution is running as far as the session can see. -/
private theorem Replays.running (inv : Replays E handler input s) (h : s.main.gathers = true ∨
    s.main = .loop ∨ s.main = .checking ∨ s.main = .skipping [] ∨ s.main = .final) :
    s.mem.execution.status = .running := by
  have hmain : s.main ≠ .lookup ∧ s.main ≠ .loaded ∧ s.main ≠ .returned := by
    rcases h with h | h | h | h | h
    · cases hm : s.main <;> simp_all [MainPc.gathers]
    all_goals simp [h]
  rw [inv.unrecorded.current hmain.1]
  exact ((inv.unrecorded.unended hmain.1 hmain.2.1).resolve_right (fun h => hmain.2.2 h.1)).1

/-! ### The coroutines -/

/-- The input that a coroutine merges is the one of the evaluation. -/
private theorem During.merged (d : During E handler input sum gen rest s)
    (hinput : s.mem.execution.inputData = input) (ht : t ∈ gen) :
    mergedInput s.mem.execution.inputData (predOutputs E.dag t s.taskOutputs) =
      taskInput E input sum.outputs t := by
  have hpreds : predOutputs E.dag t s.taskOutputs = predOutputs E.dag t sum.outputs := by
    apply List.filterMap_congr
    intro p hp
    rw [d.outputs]
    intro u hu heq
    cases heq
    exact (d.reached.fresh hu).2.1 ((d.reached.fresh ht).2.2 p hp)
  rw [hpreds, hinput, taskInput]

theorem starts_verdict (hnode : E.dag.getTask node.taskId = .ok node) (outputs : PyDict) :
    Starts E handler (taskInput E input outputs node.taskId)
      (verdict E handler input outputs node.taskId) node := by
  intro te
  simp only [outlook, verdict, hnode]
  cases getRetryStrategy node.retryConfig with
  | error e => rfl
  | ok strategy => rfl

/-- After its move, a coroutine holds a permit, or has given one back. -/
theorem NodeMove.free {answers : Answers} (h : NodeMove E answers node s s') :
    0 < s'.sem ∨ (s'.pc node.taskId).Holds := by
  cases h
  case answer => exact Or.inr (by simp only [RunState.goto_pc, Function.update_self]; split <;> trivial)
  all_goals first
    | exact Or.inl (Nat.succ_pos _)
    | exact Or.inr (by simp [NodePc.Holds])

theorem Replays.during (inv : Replays E handler input s) (h : s.main.gathers = true) :
    ∃ sum gen rest, During E handler input sum gen rest s ∧
      ∃ s₀, Leads E handler input s₀ ∧ Handed E handler input sum gen rest s₀ := by
  cases inv.stage with
  | before hmain => rcases hmain with hm | hm | hm <;> rw [hm] at h <;> cases h
  | between hmain => rcases hmain with hm | hm | hm <;> rw [hm] at h <;> cases h
  | during _ d handed => exact ⟨_, _, _, d, handed⟩
  | ended hmain => rcases hmain with hm | hm <;> rw [hm] at h <;> cases h

theorem During.exists_node (d : During E handler input sum gen rest s) (ht : t ∈ s.wave) :
    ∃ node, E.dag.getTask node.taskId = .ok node ∧ node.taskId = t := by
  obtain ⟨node, hnode⟩ := E.dag.exists_getTask (d.reached.fresh ((d.wave t).mp ht)).1
  obtain rfl := (E.dag.getTask_ok hnode).2
  exact ⟨node, hnode, rfl⟩

/-- A coroutine with a verdict against it has no successful attempt. -/
private theorem Local.flagged {data : PyDict} {v : Verdict} {te : Nat}
    (hl : Local E handler data v s node) (hpc : s.pc node.taskId = .finishing te false) :
    v.succeeds = false := by
  obtain ⟨w, h⟩ := hl.of_row (by rw [hpc]; rfl)
  rw [← h.view, hpc]
  rfl

/-- Every move of a coroutine of the wave keeps all of them heading for their verdicts. -/
theorem During.nodeMove (d : During E handler input sum gen rest s) (inv : Replays E handler input s)
    (hnode : E.dag.getTask node.taskId = .ok node) (h : NodeMove E handler.answers node s s')
    (htype : node.taskType ≠ "condition") : During E handler input sum gen rest s' := by
  have located := inv.unrecorded.located
  have hg := inv.unrecorded.idle.gathers h.pc_ne_done
  have hlive : s.mem.execution.status ≠ .cancelled := by
    rw [inv.running (Or.inl hg)]
    simp
  have hin : node.taskId ∈ gen := (d.wave _).mp (inv.unrecorded.idle.mem_wave h.pc_ne_done)
  have hl := d.locals node hnode hin
  have hown := hl.own h (starts_verdict hnode _) (d.merged inv.data.1 hin) hlive inv.skipped htype
    located.agrees
  have hne {t : TaskId} (ht : t ∉ gen) : t ≠ node.taskId := fun heq => ht (heq ▸ hin)
  refine ⟨d.reached, h.wave ▸ d.wave, ?_, ?_, ?_, ?_, ?_, ?_, ?_⟩
  · intro other hother hgen
    by_cases heq : other.taskId = node.taskId
    · rw [heq, hnode] at hother
      cases hother
      exact hown
    · exact (d.locals other hother hgen).frame located h heq hl.not_branching
  · exact fun t ht => (h.completed_of_ne (hne ht)).trans (d.completed t ht)
  · exact fun t ht => (h.calls_of_ne (hne ht)).trans (d.calls t ht)
  · intro t ht hgen
    exact d.ids t ((h.mem_ids located.agrees hl.not_branching ht).resolve_right (hne hgen)) hgen
  · exact fun key hkey => (h.taskOutputs_of_key (hkey _ hin)).trans (d.outputs key hkey)
  · intro hf
    rcases h.failed_iff.mp hf with hf | ⟨te, hpc⟩
    · exact d.flag hf
    · exact ⟨node.taskId, hin, hl.flagged hpc⟩
  · rw [h.main]
    exact d.raised

private theorem Replays.nodeMove (inv : Replays E handler input s) (hstep : Step E handler.answers s s')
    (hnode : E.dag.getTask node.taskId = .ok node) (h : NodeMove E handler.answers node s s')
    (htype : node.taskType ≠ "condition") : Replays E handler input s' := by
  have hg := inv.unrecorded.idle.gathers h.pc_ne_done
  obtain ⟨sum, gen, rest, d, handed⟩ := inv.during hg
  have hin : node.taskId ∈ gen := (d.wave _).mp (inv.unrecorded.idle.mem_wave h.pc_ne_done)
  refine ⟨inv.run.tail hstep, inv.unrecorded.nodeMove h, ⟨?_, h.execution ▸ inv.data.2⟩, ?_,
    h.free.imp_right (fun hh => ⟨_, hh⟩), .during (h.main ▸ hg) (d.nodeMove inv hnode h htype) handed⟩
  · rcases h.mem_execution with hm | hm
    · exact hm ▸ inv.data.1
    · exact hm ▸ inv.data.2
  · rcases h.skipped with hs | ⟨sid, toSkip, hpc, _⟩
    · rw [hs, inv.skipped]
    · exact absurd hpc ((d.locals node hnode hin).not_branching.1 _)

/-! ### The body -/

/-- What the tasks of a wave that has ended have come to. -/
private theorem During.standing (d : During E handler input sum gen rest s)
    (hdone : ∀ t ∈ s.wave, s.pc t = .done) (ht : t ∈ gen) :
    (sum.verdict E handler input t).isRaise = false ∧
    ((sum.verdict E handler input t).succeeds = true ↔ t ∈ s.completed) ∧
    ((sum.verdict E handler input t).succeeds = false → s.failed = true) ∧
    s.calls t = (sum.verdict E handler input t).calls ∧
    s.taskOutputs.get? (.str t) = (sum.verdict E handler input t).output? := by
  have hwave := (d.wave t).mpr ht
  obtain ⟨node, hnode, rfl⟩ := d.exists_node hwave
  exact (d.locals node hnode ht).of_done (hdone _ hwave)

/-- A wave that has ended has come to the evaluation of its generation. -/
private theorem During.done (d : During E handler input sum gen rest s)
    (hdone : ∀ t ∈ s.wave, s.pc t = .done) : Matches (evalGeneration E handler input sum gen) s ∧
      (evalGeneration E handler input sum gen).raised = false := by
  refine ⟨⟨?_, ?_, ?_, ?_⟩, ?_⟩
  · ext t
    by_cases ht : t ∈ gen
    · have hfresh := (d.reached.fresh ht).2.1
      simp [evalGeneration, ht, hfresh, (d.standing hdone ht).2.1]
    · simp [evalGeneration, ht, d.completed t ht]
  · rw [Bool.eq_iff_iff, evalGeneration_failed d.reached.unfailed]
    refine ⟨d.flag, fun h => ?_⟩
    obtain ⟨t, ht, hv⟩ := h
    exact (d.standing hdone ht).2.2.1 hv
  · intro t
    by_cases ht : t ∈ gen
    · simp [evalGeneration, ht, (d.standing hdone ht).2.2.2.1]
    · simp [evalGeneration, ht, d.calls t ht]
  · intro key
    by_cases hkey : ∃ t ∈ gen, key = .str t
    · obtain ⟨t, ht, rfl⟩ := hkey
      have hnew := (d.reached.untried t (d.reached.fresh ht).2.1).2
      simp only [evalGeneration]
      rw [publishAll_of_mem _ d.reached.waves.2.1 _ ht, hnew, Option.or_none]
      exact (d.standing hdone ht).2.2.2.2
    · have hkey' : ∀ t ∈ gen, key ≠ .str t := fun t ht heq => hkey ⟨t, ht, heq⟩
      simp only [evalGeneration]
      rw [publishAll_of_notMem _ _ hkey', d.outputs key hkey']
  · by_contra hr
    obtain ⟨t, ht, hv⟩ := (evalGeneration_raised d.reached.unraised).mp (by simpa using hr)
    rw [(d.standing hdone ht).1] at hv
    cases hv

private theorem Matches.congr (h : Matches sum s) (hc : s'.completed = s.completed)
    (hf : s'.failed = s.failed) (ht : s'.trace = s.trace) (ho : s'.taskOutputs = s.taskOutputs) :
    Matches sum s' := by
  refine ⟨hc.trans h.completed, hf.trans h.failed, fun t => ?_, fun key => ho ▸ h.outputs key⟩
  rw [RunState.calls, ht]
  exact h.calls t

private theorem Matches.mainMove (h : Matches sum s) (hmove : MainMove E s s') (hmain : s.main ≠ .starting) :
    Matches sum s' :=
  h.congr (hmove.completed hmain).1 hmove.failed hmove.trace (hmove.completed hmain).2

private theorem Replays.ids_refreshed (inv : Replays E handler input s) : s.refreshed.ids = s.ids :=
  RunState.ids_refreshed inv.unrecorded.located.agrees

private theorem Between.pass (b : Between E handler input sum rest s) (h : MainMove E s s')
    (hmain : s.main ≠ .starting) (hwave : s'.wave = s.wave) (hids : s'.ids = s.ids) :
    Between E handler input sum rest s' :=
  ⟨b.reached, b.shown.mainMove h hmain, hwave ▸ b.wave, hids ▸ b.ids⟩

/-- When nothing is ready, the evaluation has come to its end. -/
private theorem Between.stage (b : Between E handler input sum rest s) (h : MainMove E s s')
    (hmain : s.main ≠ .starting) (hfinal : s'.main = .final) (hrest : rest = []) :
    Stage E handler input s' := by
  subst hrest
  have heval : evaluate E handler input = sum := b.reached.eval
  refine .ended (Or.inl hfinal) (heval ▸ b.shown.mainMove h hmain) ?_
  rw [heval, b.reached.unraised]

/-- As many completed tasks as there are leave no generation. -/
private theorem Between.counted (b : Between E handler input sum rest s)
    (h : E.dag.nodes.length ≤ s.completed.card) : rest = [] := by
  apply b.reached.rest_eq_nil
  rw [List.eq_nil_iff_forall_not_mem]
  intro t ht
  obtain ⟨hnode, hnew, _⟩ := E.dag.mem_readyIds.mp ht
  have hsub : sum.completed ⊆ E.dag.allTaskIds := fun u hu => E.dag.mem_allTaskIds.mpr (b.reached.known u hu)
  have hall : sum.completed = E.dag.allTaskIds := by
    apply Finset.eq_of_subset_of_card_le hsub
    rw [E.dag.card_allTaskIds, ← b.shown.completed]
    exact h
  rw [hall] at hnew
  exact hnew (E.dag.mem_allTaskIds.mpr hnode)

/-- The body hands out the next generation. -/
private theorem Between.gather (b : Between E handler input sum rest s) (hskipped : s.skipped = ∅)
    (hready : E.dag.readyIds s.completed s.skipped ≠ []) : ∃ gen rest', Handed E handler input sum gen rest'
      { s with
        main := .gathering
        wave := E.dag.readyIds s.completed s.skipped
        pc := fun t => if t ∈ E.dag.readyIds s.completed s.skipped then .waiting else .done } := by
  rw [hskipped, b.shown.completed] at hready ⊢
  have hunfailed : s.failed = false := b.shown.failed.trans b.reached.unfailed
  obtain ⟨t, ht⟩ := List.exists_mem_of_ne_nil _ hready
  cases rest with
  | nil =>
    obtain ⟨hnode, hnew, _⟩ := E.dag.mem_readyIds.mp ht
    exact absurd (b.reached.all_completed hnode) hnew
  | cons gen rest =>
    have hwaiting {t : TaskId} (ht : t ∈ gen) :
        (if t ∈ E.dag.readyIds sum.completed ∅ then NodePc.waiting else .done) = .waiting :=
      if_pos (b.reached.ready.mp ht)
    refine ⟨gen, rest, ⟨b.reached, fun t => b.reached.ready.symm, ?_, fun _ _ => Iff.rfl,
      fun t _ => b.shown.calls t, fun t ht _ => b.ids t ht, fun key _ => b.shown.outputs key,
      ?_, fun e h => by cases h⟩, rfl, fun t ht => hwaiting ht, hunfailed⟩
    · intro node hnode hgen
      have hnew := (b.reached.fresh hgen).2.1
      obtain ⟨hcalls, houtput⟩ := b.reached.untried _ hnew
      refine .untried ?_ (fun hin => hnew (b.ids _ hin)) ((b.shown.calls _).trans hcalls) hnew
        ((b.shown.outputs _).trans houtput)
      dsimp only
      rw [hwaiting hgen]
      trivial
    · intro hf
      rw [hunfailed] at hf
      cases hf

private theorem WorkflowExecution.complete_running {ex : WorkflowExecution} (h : ex.status = .running)
    (now : Time) (taskOutputs : PyDict) :
    ∃ new, ex.complete now taskOutputs = .ok new ∧ new.inputData = ex.inputData := by
  have hnext : ex.status.transitionTo .completed = .ok .completed := by
    rw [h]
    rfl
  unfold WorkflowExecution.complete
  rw [hnext]
  exact ⟨_, rfl, rfl⟩

/-- The input of the execution is never written. -/
private theorem Replays.inputData (inv : Replays E handler input s) (h : MainMove E s s') :
    s'.mem.execution.inputData = input := by
  cases h
  case load =>
    obtain ⟨_, _, _, h⟩ := foldl_loadRow s.mem.tasks s
    rw [h]
    exact inv.data.1
  case complete now ex hmain _ _ h =>
    have hrunning := inv.running (Or.inr (Or.inr (Or.inr (Or.inr hmain))))
    obtain ⟨new, hnew, hdata⟩ := WorkflowExecution.complete_running hrunning now s.taskOutputs
    rw [h] at hnew
    cases hnew
    exact hdata.trans inv.data.1
  all_goals first
    | exact inv.data.1
    | exact inv.data.2

private theorem Replays.early (inv : Replays E handler input s) (h : MainMove E s s')
    (hmain : s.main = .lookup ∨ s.main = .loaded ∨ s.main = .starting) (hshown : Matches .empty s)
    (hwave : s.wave = []) (hmem : s.mem.tasks = []) (hdb : s.db.tasks = []) :
    Stage E handler input s' ∧ s'.skipped = ∅ := by
  cases h
  case lookup hlookup =>
    exact ⟨.before (Or.inr (Or.inl rfl)) (hshown.congr rfl rfl rfl rfl) hwave hdb hdb, inv.skipped⟩
  case start now hloaded hstart =>
    refine ⟨.before (Or.inr (Or.inr rfl)) (hshown.congr rfl rfl rfl rfl) hwave hmem ?_, inv.skipped⟩
    simp [hmem, hdb, commitTasks]
  case noStart hloaded hstart =>
    exact ⟨.before (Or.inr (Or.inr rfl)) (hshown.congr rfl rfl rfl rfl) hwave hmem hdb, inv.skipped⟩
  case load hstarting =>
    rw [hmem]
    refine ⟨.between (Or.inl rfl) ⟨.empty E handler input, hshown.congr rfl rfl rfl rfl, ?_, ?_⟩,
      inv.skipped⟩
    · simp [hwave]
    · simp [RunState.ids, hmem]
  all_goals simp_all

private theorem Replays.loops (inv : Replays E handler input s) (run : Leads E handler input s')
    (h : MainMove E s s') (hlock : E.reading.lock = true) (hall : E.reading.allSkipped = true)
    (hmain : s.main = .loop ∨ s.main = .checking ∨ s.main = .skipping [])
    (b : Between E handler input sum rest s) : Stage E handler input s' ∧ s'.skipped = ∅ := by
  have hns : s.main ≠ .starting := by rcases hmain with h | h | h <;> simp [h]
  have hunfailed : s.failed = false := b.shown.failed.trans b.reached.unfailed
  have hrunning := inv.running (Or.inr (hmain.imp_right (fun h => h.imp_right Or.inl)))
  have hcount (h : E.dag.nodes.length ≤ s.completed.card + s.skipped.card) : rest = [] :=
    b.counted (by simpa [inv.skipped] using h)
  have hmove := h
  cases h
  case iterate hloop hlt =>
    exact ⟨.between (Or.inr (Or.inl rfl)) (b.pass hmove hns rfl inv.ids_refreshed), inv.skipped⟩
  case exit hloop hle => exact ⟨b.stage hmove hns rfl (hcount hle), inv.skipped⟩
  case cancelled hchecking hcancelled =>
    rw [hrunning] at hcancelled
    cases hcancelled
  case recordFailure hfailed =>
    rw [hunfailed] at hfailed
    cases hfailed
  case noLock hno =>
    rw [hlock] at hno
    cases hno
  case noMethod hno =>
    rw [hall] at hno
    cases hno
  case propagateSkips =>
    refine ⟨.between (Or.inr (Or.inr ?_)) (b.pass hmove hns rfl rfl), inv.skipped⟩
    rw [inv.skipped, E.dag.tasksWithAllPredecessorsSkipped_empty]
  case settled hskipping hready hle => exact ⟨b.stage hmove hns rfl (hcount hle), inv.skipped⟩
  case sleep hskipping hready hlt =>
    rw [inv.skipped, b.shown.completed] at hready
    rw [inv.skipped, Finset.card_empty, Nat.add_zero, b.shown.completed, ← E.dag.card_allTaskIds] at hlt
    obtain rfl := b.reached.rest_eq_nil hready
    have hsub : E.dag.allTaskIds ⊆ sum.completed :=
      fun t ht => b.reached.all_completed (E.dag.mem_allTaskIds.mp ht)
    exact absurd (Finset.card_le_card hsub) (not_le.mpr hlt)
  case gather hskipping hready =>
    obtain ⟨gen, rest', handed⟩ := b.gather inv.skipped hready
    exact ⟨.during rfl handed.during ⟨_, run, handed⟩, inv.skipped⟩
  all_goals simp_all

private theorem Replays.gathers (inv : Replays E handler input s) (h : MainMove E s s')
    (hmain : s.main.gathers = true) (d : During E handler input sum gen rest s)
    (handed : ∃ s₀, Leads E handler input s₀ ∧ Handed E handler input sum gen rest s₀) :
    Stage E handler input s' ∧ s'.skipped = ∅ := by
  have hmove := h
  cases h
  case gathered hgathering hdone hfailed =>
    obtain ⟨hshown, _⟩ := d.done hdone
    have hok : ∀ t ∈ gen, (sum.verdict E handler input t).succeeds = true := by
      intro t ht
      by_contra hnot
      rw [(d.standing hdone ht).2.2.1 (by simpa using hnot)] at hfailed
      cases hfailed
    have hcompleted {t : TaskId} (ht : t ∈ gen ∨ t ∈ sum.completed) :
        t ∈ (evalGeneration E handler input sum gen).completed := by
      rw [← hshown.completed]
      by_cases hin : t ∈ gen
      · exact (d.standing hdone hin).2.1.mp (hok t hin)
      · exact (d.completed t hin).mpr (ht.resolve_left hin)
    refine ⟨.between (Or.inl rfl) ⟨d.reached.next hok, hshown.congr rfl rfl rfl rfl, ?_, ?_⟩, inv.skipped⟩
    · exact fun t ht => hcompleted (Or.inl ((d.wave t).mp ht))
    · exact fun t ht => hcompleted (or_iff_not_imp_left.mpr (d.ids t ht))
  case gatheredFailed hgathering hdone hfailed =>
    obtain ⟨hshown, hraised⟩ := d.done hdone
    have heval := d.reached.stop (d.flag hfailed)
    refine ⟨.ended (Or.inl rfl) ?_ (heval ▸ hraised), inv.skipped⟩
    rw [heval]
    exact hshown.mainMove hmove (by simp [hgathering])
  case propagate t e hgathering hwave hpc =>
    have ht := (d.wave t).mp hwave
    refine ⟨.during rfl ⟨d.reached, d.wave, ?_, d.completed, d.calls, d.ids, d.outputs, d.flag, ?_⟩ handed,
      inv.skipped⟩
    · intro node hnode hgen
      exact (d.locals node hnode hgen).congr rfl (fun _ _ _ h => h) id rfl Iff.rfl rfl id
    · intro _ _
      obtain ⟨node, hnode, rfl⟩ := d.exists_node hwave
      exact ⟨node.taskId, ht, (d.locals node hnode ht).of_raised hpc⟩
  all_goals simp_all [MainPc.gathers]

private theorem Replays.ends (inv : Replays E handler input s) (h : MainMove E s s')
    (hmain : s.main = .final ∨ s.main = .returned) (hshown : Matches (evaluate E handler input) s)
    (hraised : (evaluate E handler input).raised = false) :
    Stage E handler input s' ∧ s'.skipped = ∅ := by
  have hreturned (hr : s'.main = .returned) : Stage E handler input s' := by
    refine .ended (Or.inr hr) (hshown.mainMove h ?_) hraised
    rcases hmain with hm | hm <;> simp [hm]
  cases h
  case finalCancelled => exact ⟨hreturned rfl, inv.skipped⟩
  case finalFailed => exact ⟨hreturned rfl, inv.skipped⟩
  case complete => exact ⟨hreturned rfl, inv.skipped⟩
  case completeThrow now e hfinal hlive hfailed herror =>
    have hrunning := inv.running (Or.inr (Or.inr (Or.inr (Or.inr hfinal))))
    obtain ⟨new, hnew, _⟩ := WorkflowExecution.complete_running hrunning now s.taskOutputs
    rw [herror] at hnew
    cases hnew
  all_goals simp_all

/-- The body's moves lead through the stages. -/
private theorem Replays.mainMove (inv : Replays E handler input s) (hstep : Step E handler.answers s s')
    (h : MainMove E s s') (hlock : E.reading.lock = true) (hall : E.reading.allSkipped = true) :
    Replays E handler input s' := by
  have hstage : Stage E handler input s' ∧ s'.skipped = ∅ := by
    cases inv.stage with
    | before hmain hshown hwave hmem hdb => exact inv.early h hmain hshown hwave hmem hdb
    | between hmain b => exact inv.loops (inv.run.tail hstep) h hlock hall hmain b
    | during hmain d handed => exact inv.gathers h hmain d handed
    | ended hmain hshown hraised => exact inv.ends h hmain hshown hraised
  have unrecorded := inv.unrecorded.mainMove h
  have hdata := inv.inputData h
  refine ⟨inv.run.tail hstep, unrecorded, ⟨hdata, ?_⟩, hstage.2, ?_, hstage.1⟩
  · rw [← unrecorded.current h.early.1]
    exact hdata
  · rw [h.sem]
    rcases h.pc with ⟨hpc, _⟩ | ⟨hmain, _⟩
    · rw [hpc]
      exact inv.free
    · refine Or.inl (inv.free.resolve_right ?_)
      rintro ⟨t, ht⟩
      rw [inv.unrecorded.idle.between (by rw [hmain]; rfl) t] at ht
      exact ht

theorem Replays.step (hlock : E.reading.lock = true) (hall : E.reading.allSkipped = true)
    (htypes : ∀ node ∈ E.dag.nodes, node.taskType ≠ "condition") (inv : Replays E handler input s)
    (h : Step E handler.answers s s') : Replays E handler input s' := by
  rcases step_cases h with hm | ⟨node, hnode, hn⟩
  · exact inv.mainMove h hm hlock hall
  · exact inv.nodeMove h hnode hn (htypes node (E.dag.getTask_ok hnode).1)

theorem Replays.of_leads (hlock : E.reading.lock = true) (hall : E.reading.allSkipped = true)
    (htypes : ∀ node ∈ E.dag.nodes, node.taskType ≠ "condition")
    (run : Leads E handler input s) : Replays E handler input s :=
  run.invariant (fun _ _ inv h => inv.step hlock hall htypes h) (.start E handler input)

end BackendProjects.Workflow
