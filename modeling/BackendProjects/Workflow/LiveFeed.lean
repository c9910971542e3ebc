import BackendProjects.Listings
import BackendProjects.Workflow.StreamReplay

/-! The live feed: what a run publishes goes through the channel to the listener of the API process, which
hands it to its connection manager, which sends it to the clients one after the other. -/
namespace BackendProjects.Workflow
open Library

namespace PyValue
variable (reprFloat : Rat → String)

mutual
/-- `json.dumps` writes again what `json.loads` has read. -/
theorem dumps_loads : (doc : Json) → (loads doc).dumps reprFloat = some doc
  | .null | .bool _ | .int _ | .float _ | .str _ => rfl
  | .arr xs => by rw [loads, dumps, dumpsList_loadsList xs]; rfl
  | .obj members => by rw [loads, dumps, dumpsEntries_loadsMembers members]; rfl

theorem dumpsList_loadsList : (xs : List Json) → dumpsList reprFloat (loadsList xs) = some xs
  | [] => rfl
  | x :: xs => by rw [loadsList, dumpsList, dumps_loads x, dumpsList_loadsList xs]; rfl

theorem dumpsEntries_loadsMembers : (members : Json.Members) →
    dumpsEntries reprFloat (loadsMembers members) = some members
  | [] => rfl
  | (key, value) :: rest => by
    rw [loadsMembers, dumpsEntries, dumps_loads value, dumpsEntries_loadsMembers rest]
    rfl
end

end PyValue

/-! ### The channel -/

inductive MessageData where
  | text (parsed : Option Json)
  | other

structure Message where
  type : String
  data : MessageData

def Message.payload? (m : Message) : Option PyValue :=
  if m.type = "message" then
    match m.data with
    | .text (some doc) => some (PyValue.loads doc)
    | _ => none
  else none

def Message.relayed (reprFloat : Rat → String) (m : Message) : Option Json :=
  m.payload?.bind (PyValue.dumps reprFloat)

/-- What is relayed is what was published. -/
private theorem Message.relayed_text (reprFloat : Rat → String) (doc : Json) :
    (Message.mk "message" (.text (some doc))).relayed reprFloat = some doc :=
  PyValue.dumps_loads reprFloat doc

def Event.payload (executionId workflowId : String) : Event → PyDict
  | executionStarted status => [(.str "event", .str "execution_started"),
      (.str "execution_id", .str executionId), (.str "workflow_id", .str workflowId),
      (.str "status", .str status.value)]
  | executionCancelled status => [(.str "event", .str "execution_cancelled"),
      (.str "execution_id", .str executionId), (.str "status", .str status.value)]
  | executionFailed status => [(.str "event", .str "execution_failed"),
      (.str "execution_id", .str executionId), (.str "status", .str status.value)]
  | executionCompleted status => [(.str "event", .str "execution_completed"),
      (.str "execution_id", .str executionId), (.str "status", .str status.value)]
  | taskRunning t attempt => [(.str "event", .str "task_running"),
      (.str "execution_id", .str executionId), (.str "task_id", .str t), (.str "attempt", .int attempt)]
  | taskFailed t error => [(.str "event", .str "task_failed"),
      (.str "execution_id", .str executionId), (.str "task_id", .str t),
      (.str "error", error.elim .none .str)]
  | taskCompleted t => [(.str "event", .str "task_completed"),
      (.str "execution_id", .str executionId), (.str "task_id", .str t)]
  | taskSkipped t => [(.str "event", .str "task_skipped"),
      (.str "execution_id", .str executionId), (.str "task_id", .str t)]

def Event.message (reprFloat : Rat → String) (executionId workflowId : String) (e : Event) : Message :=
  ⟨"message", .text ((PyValue.dict (e.payload executionId workflowId)).dumps reprFloat)⟩

def Event.text (reprFloat : Rat → String) (executionId workflowId : String) (e : Event) : Json :=
  ((PyValue.dict (e.payload executionId workflowId)).dumps reprFloat).getD .null

def Concerns (executionId : String) : Json → Bool
  | .obj members =>
      match members.lookup "execution_id" with
      | some (.str id) => id = executionId
      | _ => false
  | _ => false

private theorem Event.dumps_payload (reprFloat : Rat → String) (executionId workflowId : String) (e : Event) :
    (PyValue.dict (e.payload executionId workflowId)).dumps reprFloat =
      some (e.text reprFloat executionId workflowId) := by
  cases e with
  | taskFailed t error => cases error <;> rfl
  | _ => rfl

private theorem Event.relayed_message (reprFloat : Rat → String) (executionId workflowId : String) (e : Event) :
    (e.message reprFloat executionId workflowId).relayed reprFloat =
      some (e.text reprFloat executionId workflowId) := by
  rw [message, dumps_payload]
  exact Message.relayed_text reprFloat _

private theorem Event.concerns_text (reprFloat : Rat → String) (executionId workflowId : String) (e : Event) :
    Concerns executionId (e.text reprFloat executionId workflowId) = true := by
  have hid (name : String) (rest : Json.Members) : Concerns executionId
      (.obj (("event", .str name) :: ("execution_id", .str executionId) :: rest)) = true := by
    simp [Concerns, List.lookup_cons]
  cases e with
  | taskFailed t error => cases error <;> exact hid _ _
  | _ => exact hid _ _

/-! ### The listener and the manager -/

structure Sending (W : Type) where
  text : Json
  remaining : List W
  dead : List W

/-- The messages that the listener has yet to take, the manager, and what each client has been sent. -/
structure LiveFeed (W : Type) where
  queue : List Message
  connections : Finset W
  sending : Option (Sending W)
  received : W → List Json

inductive LiveChoice (W : Type) where
  /-- The listener takes the next message; a broadcast copies the set in any order. -/
  | take (conns : List W)
  | sent
  | refused
  | finish
  | connect (ws : W)
  | disconnect (ws : W)

namespace LiveFeed
variable {W : Type} [DecidableEq W] (reprFloat : Rat → String)

def publish (g : LiveFeed W) (ms : List Message) : LiveFeed W := { g with queue := g.queue ++ ms }

/-- `redis_listener_loop` and `ConnectionManager`, from one await to the next. The lock of the manager is
never held across an await. -/
def step : LiveChoice W → LiveFeed W → Option (LiveFeed W)
  | .take conns, g =>
      match g.sending, g.queue with
      | none, m :: rest =>
          match m.relayed reprFloat with
          | some text =>
              if conns.Nodup ∧ conns.toFinset = g.connections then
                some { g with queue := rest, sending := some ⟨text, conns, []⟩ }
              else none
          | none => some { g with queue := rest }
      | _, _ => none
  | .sent, g =>
      match g.sending with
      | some ⟨text, ws :: rest, dead⟩ => some { g with
          sending := some ⟨text, rest, dead⟩
          received := Function.update g.received ws (g.received ws ++ [text]) }
      | _ => none
  | .refused, g =>
      match g.sending with
      | some ⟨text, ws :: rest, dead⟩ => some { g with sending := some ⟨text, rest, dead ++ [ws]⟩ }
      | _ => none
  | .finish, g =>
      match g.sending with
      | some ⟨_, [], dead⟩ => some { g with connections := g.connections \ dead.toFinset, sending := none }
      | _ => none
  | .connect ws, g => some { g with connections := insert ws g.connections }
  | .disconnect ws, g => some { g with connections := g.connections.erase ws }

/-- The client keeps its socket open, and takes what is sent to it. -/
def Spares (ws : W) : LiveChoice W → LiveFeed W → Prop
  | .refused, g => ∀ sending, g.sending = some sending → sending.remaining.head? ≠ some ws
  | .disconnect other, _ => other ≠ ws
  | _, _ => True

def due (ws : W) (g : LiveFeed W) : List Json :=
  g.received ws ++ (match g.sending with
    | some sending => if ws ∈ sending.remaining then [sending.text] else []
    | none => []) ++ g.queue.filterMap (·.relayed reprFloat)

structure Joined (ws : W) (g : LiveFeed W) : Prop where
  connected : ws ∈ g.connections
  once : ∀ sending, g.sending = some sending → sending.remaining.Nodup
  alive : ∀ sending, g.sending = some sending → ws ∉ sending.dead

variable {reprFloat} {ws : W} {g g' : LiveFeed W} {c : LiveChoice W}

omit [DecidableEq W] in
private theorem Joined.publish (joined : Joined ws g) (ms : List Message) : Joined ws (g.publish ms) :=
  ⟨joined.connected, joined.once, joined.alive⟩

private theorem due_publish (g : LiveFeed W) (ms : List Message) :
    (g.publish ms).due reprFloat ws = g.due reprFloat ws ++ ms.filterMap (·.relayed reprFloat) := by
  simp [due, publish]

/-- Whatever the listener, the manager and the other clients do: of what a joined client is due, nothing is
lost, repeated or put in another place. -/
theorem step_due (h : step reprFloat c g = some g') (joined : Joined ws g) (spared : Spares ws c g) :
    g'.due reprFloat ws = g.due reprFloat ws ∧ Joined ws g' := by
  cases c with
  | take conns =>
    simp only [step] at h
    split at h
    · next m rest hsending hqueue =>
      split at h
      · next text htext =>
        split at h
        · next hconns =>
          cases h
          have hmem : ws ∈ conns := by
            rw [← List.mem_toFinset, hconns.2]
            exact joined.connected
          refine ⟨by simp [due, hsending, hqueue, hmem, htext], joined.connected, ?_, ?_⟩
          · rintro _ ⟨⟩
            exact hconns.1
          · rintro _ ⟨⟩
            simp
        · cases h
      · next htext =>
        cases h
        refine ⟨by simp [due, hsending, hqueue, htext], joined.connected, ?_, ?_⟩ <;>
          simp [hsending]
    · cases h
  | sent =>
    simp only [step] at h
    split at h
    · next text other rest dead hsending =>
      cases h
      have honce := joined.once _ hsending
      have halive := joined.alive _ hsending
      refine ⟨?_, joined.connected, ?_, ?_⟩
      · by_cases hws : ws = other
        · subst hws
          have hrest : ws ∉ rest := (List.nodup_cons.mp honce).1
          simp [due, hsending, hrest]
        · simp [due, hsending, hws]
      · rintro _ ⟨⟩
        exact (List.nodup_cons.mp honce).2
      · rintro _ ⟨⟩
        exact halive
    · cases h
  | refused =>
    simp only [step] at h
    split at h
    · next text other rest dead hsending =>
      cases h
      have honce := joined.once _ hsending
      have halive := joined.alive _ hsending
      have hws : ws ≠ other := by
        rintro rfl
        exact spared _ hsending rfl
      refine ⟨by simp [due, hsending, hws], joined.connected, ?_, ?_⟩
      · rintro _ ⟨⟩
        exact (List.nodup_cons.mp honce).2
      · rintro _ ⟨⟩
        simpa [hws] using halive
    · cases h
  | finish =>
    simp only [step] at h
    split at h
    · next text dead hsending =>
      cases h
      have halive := joined.alive _ hsending
      refine ⟨by simp [due, hsending], ?_, by simp, by simp⟩
      simpa [joined.connected] using halive
    · cases h
  | connect other =>
    cases h
    exact ⟨rfl, Finset.mem_insert_of_mem joined.connected, joined.once, joined.alive⟩
  | disconnect other =>
    cases h
    exact ⟨rfl, Finset.mem_erase.mpr ⟨Ne.symm spared, joined.connected⟩, joined.once, joined.alive⟩

end LiveFeed

/-! ### A run and its listeners -/

structure Site (W : Type) where
  feed : Feed
  live : LiveFeed W

inductive SiteChoice (W : Type) where
  | engine (c : FeedChoice)
  /-- Another process publishes. -/
  | elsewhere (m : Message)
  | live (c : LiveChoice W)

/-- The ids that a run puts into its messages, and how its floats are written. -/
structure Identity where
  executionId : String
  workflowId : String
  reprFloat : Rat → String

namespace Identity
variable (i : Identity)

abbrev message (e : Event) : Message := e.message i.reprFloat i.executionId i.workflowId

abbrev text (e : Event) : Json := e.text i.reprFloat i.executionId i.workflowId

def news (texts : List Json) : List Json := texts.filter (Concerns i.executionId)

def Foreign (m : Message) : Prop := ∀ text, m.relayed i.reprFloat = some text → Concerns i.executionId text = false

end Identity

namespace Site
variable {W : Type} [DecidableEq W] (E : Engine) (answers : Answers) (i : Identity) (ws : W)

def step : SiteChoice W → Site W → Option (Site W)
  | .engine c, s => (Feed.step E c s.feed).map fun f =>
      ⟨f, s.live.publish ((f.sent.drop s.feed.sent.length).map i.message)⟩
  | .elsewhere m, s => some { s with live := s.live.publish [m] }
  | .live c, s => (LiveFeed.step i.reprFloat c s.live).map fun g => { s with live := g }

/-- Other sessions leave the work of the rows alone, only the run publishes about its execution, and the
client keeps its socket open. -/
def Legal (s : Site W) : SiteChoice W → Prop
  | .engine c => Feed.Legal E answers KeepsWork s.feed c
  | .elsewhere m => i.Foreign m
  | .live c => LiveFeed.Spares ws c s.live

def Step (s s' : Site W) : Prop := ∃ c, Legal E answers i ws s c ∧ step E i c s = some s'

structure Served (ws : W) (s : Site W) : Prop where
  followed : ∃ l, Followed s.feed l
  joined : LiveFeed.Joined ws s.live
  due : i.news (s.live.due i.reprFloat ws) = s.feed.sent.map i.text

variable {E answers i ws} {s s' : Site W}

private theorem news_message (i : Identity) (es : List Event) :
    i.news ((es.map i.message).filterMap (·.relayed i.reprFloat)) = es.map i.text := by
  have htexts : (es.map i.message).filterMap (·.relayed i.reprFloat) = es.map i.text := by
    rw [List.filterMap_map, ← List.filterMap_eq_map]
    congr 1
    funext e
    exact e.relayed_message ..
  rw [htexts, Identity.news, List.filter_eq_self]
  intro text htext
  obtain ⟨e, _, rfl⟩ := List.mem_map.mp htext
  exact e.concerns_text ..

/-- A run only appends to what it has sent. -/
theorem sent_append {Others : Database → Database → Prop} {f f' : Feed}
    (h : Feed.Step E answers Others f f') : ∃ es, f'.sent = f.sent ++ es := by
  cases Feed.step_cases h with
  | body => exact ⟨[], by simp⟩
  | node => exact ⟨[], by simp⟩
  | @send who e he => exact ⟨[e], rfl⟩
  | others => exact ⟨[], by simp⟩

private theorem Served.step (inv : Served i ws s) (h : Step E answers i ws s s') : Served i ws s' := by
  obtain ⟨c, legal, h⟩ := h
  cases c with
  | engine c =>
    obtain ⟨f, hf, rfl⟩ := Option.map_eq_some_iff.mp h
    have hstep : Feed.Step E answers KeepsWork s.feed f := ⟨c, legal, hf⟩
    obtain ⟨es, hes⟩ := sent_append hstep
    refine ⟨inv.followed.elim fun _ followed => followed.step hstep, inv.joined.publish _, ?_⟩
    have hdrop : f.sent.drop s.feed.sent.length = es := by rw [hes, List.drop_left]
    have hold := inv.due
    have hnew := news_message i es
    rw [Identity.news] at hold hnew
    rw [hdrop, LiveFeed.due_publish, Identity.news, List.filter_append, hold, hnew, hes, List.map_append]
  | elsewhere m =>
    cases h
    refine ⟨inv.followed, inv.joined.publish _, ?_⟩
    have hold := inv.due
    rw [Identity.news] at hold
    rw [LiveFeed.due_publish, Identity.news, List.filter_append, hold]
    cases htext : m.relayed i.reprFloat with
    | none => simp [htext]
    | some text => simp [htext, legal text htext]
  | live c =>
    obtain ⟨g, hg, rfl⟩ := Option.map_eq_some_iff.mp h
    obtain ⟨hdue, joined⟩ := LiveFeed.step_due hg inv.joined legal
    exact ⟨inv.followed, joined, by rw [hdue]; exact inv.due⟩

end Site

variable {W : Type} [DecidableEq W] {E : Engine} {answers : Answers} {i : Identity} {ws : W} {s : Site W}

end BackendProjects.Workflow
