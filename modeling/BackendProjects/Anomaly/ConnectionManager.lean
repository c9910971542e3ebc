import BackendProjects.Anomaly.Stores
import BackendProjects.Library.Runs
import Mathlib.Data.List.Infix

/-! The connection manager of the alerts. A broadcast walks over a list object by index while connects
append to that object or to a later one, and disconnects put a new object in its place. -/
namespace BackendProjects.Anomaly
open Library
variable {W B : Type}

structure Connection (W : Type) where
  websocket : W
  sourceFilter : Option SourceId
  deriving DecidableEq

/-- A call of broadcast: the list object that it walks over, the index of its iterator, the send that it
waits for, and its dead sockets. The last two are the history: its sends so far, and what was listed when
it started. -/
structure Broadcast (W : Type) where
  sourceId : Option SourceId
  walked : Nat
  index : Nat := 0
  awaiting : Option W := none
  dead : List W := []
  returned : Bool := false
  sends : List W := []
  listed : List (Connection W)

def Broadcast.wants (r : Broadcast W) (c : Connection W) : Bool :=
  match c.sourceFilter, r.sourceId with
  | some srcFilter, some sid => srcFilter = sid
  | _, _ => true

def Broadcast.iterate (r : Broadcast W) (c : Connection W) : Broadcast W :=
  let passed := { r with index := r.index + 1 }
  if r.wants c then { passed with awaiting := some c.websocket, sends := r.sends ++ [c.websocket] }
  else passed

/-- The list objects, of which the first so many are allocated and one is `_connections`; the calls of
broadcast; and the history: all connections, the sockets of failed sends, and those that disconnected. -/
structure ConnectionManager (W B : Type) where
  lists : Nat → List (Connection W)
  allocated : Nat
  connections : Nat
  broadcasts : B → Option (Broadcast W)
  connected : List (Connection W)
  failed : List W
  departed : List W

namespace ConnectionManager

def init : ConnectionManager W B := ⟨fun _ => [], 1, 0, fun _ => none, [], [], []⟩

section
variable [DecidableEq W] [DecidableEq B] (m : ConnectionManager W B)

def current : List (Connection W) := m.lists m.connections

def connect (c : Connection W) : ConnectionManager W B :=
  { m with
    lists := Function.update m.lists m.connections (m.current ++ [c])
    connected := m.connected ++ [c] }

def disconnect (websocket : W) : ConnectionManager W B :=
  { m with
    lists := Function.update m.lists m.allocated (m.current.filter (fun c => c.websocket ≠ websocket))
    connections := m.allocated
    allocated := m.allocated + 1 }

def setBroadcast (b : B) (r : Broadcast W) : ConnectionManager W B :=
  { m with broadcasts := Function.update m.broadcasts b (some r) }

def startBroadcast (b : B) (sourceId : Option SourceId) : ConnectionManager W B :=
  m.setBroadcast b { sourceId := sourceId, walked := m.connections, listed := m.current }

def sendReturned (b : B) (r : Broadcast W) : ConnectionManager W B :=
  m.setBroadcast b { r with awaiting := none }

def sendFailed (b : B) (r : Broadcast W) (websocket : W) : ConnectionManager W B :=
  { m.setBroadcast b { r with awaiting := none, dead := r.dead ++ [websocket] } with
    failed := websocket :: m.failed }

def finish (b : B) (r : Broadcast W) : ConnectionManager W B :=
  (r.dead.foldl disconnect m).setBroadcast b { r with returned := true }

/-- What can happen between two awaits. Every iteration is a step of its own, which gives more
interleavings than there are. -/
inductive Step (m : ConnectionManager W B) : ConnectionManager W B → Prop
  | connect (c : Connection W) (new : c.websocket ∉ m.connected.map Connection.websocket) :
      Step m (m.connect c)
  | disconnect (websocket : W) :
      Step m { m.disconnect websocket with departed := websocket :: m.departed }
  | startBroadcast (b : B) (sourceId : Option SourceId) (new : m.broadcasts b = none) :
      Step m (m.startBroadcast b sourceId)
  | iterate (b : B) (r : Broadcast W) (c : Connection W) (isRunning : m.broadcasts b = some r)
      (idle : r.awaiting = none) (unreturned : r.returned = false)
      (next : (m.lists r.walked)[r.index]? = some c) : Step m (m.setBroadcast b (r.iterate c))
  | sendReturned (b : B) (r : Broadcast W) (websocket : W) (isRunning : m.broadcasts b = some r)
      (awaits : r.awaiting = some websocket) : Step m (m.sendReturned b r)
  | sendFailed (b : B) (r : Broadcast W) (websocket : W) (isRunning : m.broadcasts b = some r)
      (awaits : r.awaiting = some websocket) : Step m (m.sendFailed b r websocket)
  | finish (b : B) (r : Broadcast W) (isRunning : m.broadcasts b = some r) (idle : r.awaiting = none)
      (unreturned : r.returned = false) (exhausted : (m.lists r.walked)[r.index]? = none) :
      Step m (m.finish b r)

end

variable {m m' : ConnectionManager W B} {b : B} {r : Broadcast W} {c : Connection W} {websocket : W}

/-! ### The lists -/

/-- List objects are appended to and never changed otherwise, and a failed send is remembered. -/
structure Grows (m m' : ConnectionManager W B) : Prop where
  allocated : m.allocated ≤ m'.allocated
  lists : ∀ i < m.allocated, m.lists i <+: m'.lists i
  failed : m.failed ⊆ m'.failed

private theorem Grows.trans {m'' : ConnectionManager W B} (h : Grows m m') (h' : Grows m' m'') : Grows m m'' where
  allocated := h.allocated.trans h'.allocated
  lists i hi := (h.lists i hi).trans (h'.lists i (hi.trans_le h.allocated))
  failed _ hw := h'.failed (h.failed hw)

/-- Nothing happens to the lists. -/
private theorem Grows.of_lists (hlists : m'.lists = m.lists) (hallocated : m'.allocated = m.allocated)
    (hfailed : m.failed ⊆ m'.failed) : Grows m m' where
  allocated := hallocated.ge
  lists i _ := by rw [hlists]
  failed := hfailed

private theorem grows_connect (m : ConnectionManager W B) (c : Connection W) : Grows m (m.connect c) where
  allocated := Nat.le_refl _
  lists i _ := by
    by_cases hi : i = m.connections
    · simp [connect, current, hi]
    · simp [connect, hi]
  failed := List.Subset.refl _

private theorem grows_disconnect [DecidableEq W] (m : ConnectionManager W B) (websocket : W) :
    Grows m (m.disconnect websocket) where
  allocated := Nat.le_succ _
  lists i hi := by simp [disconnect, Nat.ne_of_lt hi]
  failed := List.Subset.refl _

/-- The sockets differ, every list is made of connections in their order, and whoever is missing from
the current one has failed or departed. -/
structure Listed (m : ConnectionManager W B) : Prop where
  distinct : (m.connected.map Connection.websocket).Nodup
  connections_lt : m.connections < m.allocated
  sublist : ∀ i < m.allocated, (m.lists i).Sublist m.connected
  present : ∀ c ∈ m.connected, c ∈ m.current ∨ c.websocket ∈ m.failed ∨ c.websocket ∈ m.departed

private theorem Listed.connect (inv : Listed m) (new : c.websocket ∉ m.connected.map Connection.websocket) :
    Listed (m.connect c) where
  distinct := by
    rw [ConnectionManager.connect, List.map_append, List.nodup_append]
    refine ⟨inv.distinct, List.nodup_singleton _, ?_⟩
    rintro _ ha b hb rfl
    exact new (List.mem_singleton.mp hb ▸ ha)
  connections_lt := inv.connections_lt
  sublist i hi := by
    by_cases heq : i = m.connections
    · simpa [ConnectionManager.connect, current, heq] using inv.sublist _ inv.connections_lt
    · simpa [ConnectionManager.connect, heq] using (inv.sublist i hi).trans (List.sublist_append_left _ _)
  present d hd := by
    rcases List.mem_append.mp hd with hd | hd
    · refine (inv.present d hd).imp_left (fun h => ?_)
      simpa [ConnectionManager.connect, current] using Or.inl h
    · left
      simp [ConnectionManager.connect, current, List.mem_singleton.mp hd]

/-- Disconnecting a socket that has failed or departed. -/
private theorem Listed.disconnect [DecidableEq W] (inv : Listed m)
    (h : websocket ∈ m.failed ∨ websocket ∈ m.departed) :
    Listed (m.disconnect websocket) where
  distinct := inv.distinct
  connections_lt := Nat.lt_succ_self _
  sublist i hi := by
    by_cases heq : i = m.allocated
    · simpa [ConnectionManager.disconnect, current, heq] using
        List.filter_sublist.trans (inv.sublist _ inv.connections_lt)
    · have hlt : i < m.allocated := Nat.lt_of_le_of_ne (Nat.le_of_lt_succ hi) heq
      simpa [ConnectionManager.disconnect, heq] using inv.sublist i hlt
  present d hd := by
    by_cases heq : d.websocket = websocket
    · exact Or.inr (heq ▸ h)
    · refine (inv.present d hd).imp_left (fun hcurrent => ?_)
      simpa [ConnectionManager.disconnect, current, heq] using hcurrent

/-- What is listed says nothing of the broadcasts, and more may fail or depart. -/
private theorem Listed.weaken (inv : Listed m) (hlists : m'.lists = m.lists)
    (hallocated : m'.allocated = m.allocated)
    (hconnections : m'.connections = m.connections) (hconnected : m'.connected = m.connected)
    (hfailed : m.failed ⊆ m'.failed) (hdeparted : m.departed ⊆ m'.departed) : Listed m' where
  distinct := hconnected ▸ inv.distinct
  connections_lt := by rw [hconnections, hallocated]; exact inv.connections_lt
  sublist i hi := by rw [hlists, hconnected]; exact inv.sublist i (hallocated ▸ hi)
  present c hc := by
    rw [current, hlists, hconnections]
    rcases inv.present c (hconnected ▸ hc) with h | h | h
    · exact Or.inl h
    · exact Or.inr (Or.inl (hfailed h))
    · exact Or.inr (Or.inr (hdeparted h))

/-- What the disconnects at the end of a broadcast leave alone. -/
theorem finish_spec [DecidableEq W] [DecidableEq B] (inv : Listed m) (hdead : ∀ w ∈ r.dead, w ∈ m.failed) :
    Listed (m.finish b r) ∧ Grows m (m.finish b r) ∧
      (m.finish b r).broadcasts = Function.update m.broadcasts b (some { r with returned := true }) := by
  have hall (dead : List W) (m : ConnectionManager W B) (inv : Listed m) (hdead : ∀ w ∈ dead, w ∈ m.failed) :
      Listed (dead.foldl disconnect m) ∧ Grows m (dead.foldl disconnect m) ∧
        (dead.foldl disconnect m).broadcasts = m.broadcasts := by
    induction dead generalizing m with
    | nil => exact ⟨inv, .of_lists rfl rfl (List.Subset.refl _), rfl⟩
    | cons w dead ih =>
      obtain ⟨hw, hrest⟩ := List.forall_mem_cons.mp hdead
      obtain ⟨hlisted, hgrows, hbroadcasts⟩ := ih (m.disconnect w) (inv.disconnect (Or.inl hw)) hrest
      exact ⟨hlisted, (grows_disconnect m w).trans hgrows, hbroadcasts⟩
  obtain ⟨hlisted, hgrows, hbroadcasts⟩ := hall r.dead m inv hdead
  have hset := List.Subset.refl (r.dead.foldl disconnect m).failed
  refine ⟨hlisted.weaken rfl rfl rfl rfl hset (List.Subset.refl _), hgrows.trans (.of_lists rfl rfl hset), ?_⟩
  rw [finish, setBroadcast, hbroadcasts]

/-! ### The broadcasts -/

/-- A broadcast has sent to whom it wants to among the entries that it has passed, and the entries from
its start come first. -/
structure Sound (m : ConnectionManager W B) (r : Broadcast W) : Prop where
  walked_lt : r.walked < m.allocated
  listed : r.listed <+: m.lists r.walked
  index_le : r.index ≤ (m.lists r.walked).length
  sends_eq : r.sends = (((m.lists r.walked).take r.index).filter r.wants).map Connection.websocket
  dead : ∀ w ∈ r.dead, w ∈ m.failed
  awaits : ∀ w, r.awaiting = some w → r.returned = false
  returned : r.returned = true → r.listed.length ≤ r.index

/-- A list that grows does not change what was passed. -/
private theorem Sound.grows (h : Sound m r) (hgrows : Grows m m') : Sound m' r where
  walked_lt := h.walked_lt.trans_le hgrows.allocated
  listed := h.listed.trans (hgrows.lists _ h.walked_lt)
  index_le := h.index_le.trans (hgrows.lists _ h.walked_lt).length_le
  sends_eq := by
    obtain ⟨more, hmore⟩ := hgrows.lists _ h.walked_lt
    rw [← hmore, List.take_append_of_le_length h.index_le]
    exact h.sends_eq
  dead w hw := hgrows.failed (h.dead w hw)
  awaits := h.awaits
  returned := h.returned

structure Inv (m : ConnectionManager W B) : Prop where
  lists : Listed m
  sound : ∀ b r, m.broadcasts b = some r → Sound m r

/-- A step that changes one broadcast keeps the others. -/
private theorem Inv.update [DecidableEq B] (inv : Inv m) (hlists : Listed m') (hgrows : Grows m m') {b : B}
    {r : Broadcast W}
    (hbroadcasts : m'.broadcasts = Function.update m.broadcasts b (some r)) (hsound : Sound m' r) :
    Inv m' := by
  refine ⟨hlists, fun d q hd => ?_⟩
  rw [hbroadcasts] at hd
  by_cases hdb : d = b
  · rw [hdb, Function.update_self] at hd
    cases hd
    exact hsound
  · rw [Function.update_of_ne hdb] at hd
    exact (inv.sound d q hd).grows hgrows

/-- An iteration passes one entry, and sends to it if it is wanted. -/
private theorem Sound.iterate (h : Sound m r) (unreturned : r.returned = false)
    (next : (m.lists r.walked)[r.index]? = some c) : Sound m (r.iterate c) := by
  obtain ⟨hlt, hget⟩ := List.getElem?_eq_some_iff.mp next
  have hpassed : (((m.lists r.walked).take (r.index + 1)).filter r.wants).map Connection.websocket =
      r.sends ++ ([c].filter r.wants).map Connection.websocket := by
    rw [List.take_succ_eq_append_getElem hlt, hget, List.filter_append, List.map_append, ← h.sends_eq]
  have hunreturned : ¬ r.returned = true := by simp [unreturned]
  unfold Broadcast.iterate
  split
  · next hwants =>
    refine ⟨h.walked_lt, h.listed, hlt, ?_, h.dead, fun _ _ => unreturned, fun hr => absurd hr hunreturned⟩
    rw [List.filter_cons_of_pos hwants] at hpassed
    exact hpassed.symm
  · next hwants =>
    refine ⟨h.walked_lt, h.listed, hlt, ?_, h.dead, h.awaits, fun hr => absurd hr hunreturned⟩
    rw [List.filter_cons_of_neg hwants, List.filter_nil, List.map_nil, List.append_nil] at hpassed
    exact hpassed.symm

/-- What a step that only touches a broadcast leaves alone. -/
private theorem Inv.setBroadcast [DecidableEq B] (inv : Inv m) (b : B) (hsound : Sound m r) :
    Inv (m.setBroadcast b r) := by
  have hset := List.Subset.refl m.failed
  have hgrows : Grows m (m.setBroadcast b r) := .of_lists rfl rfl hset
  exact inv.update (inv.lists.weaken rfl rfl rfl rfl hset (List.Subset.refl _)) hgrows rfl
    (hsound.grows hgrows)

/-- A step that touches no broadcast keeps them all. -/
private theorem Inv.keep (inv : Inv m) (hlists : Listed m') (hgrows : Grows m m')
    (hbroadcasts : m'.broadcasts = m.broadcasts) : Inv m' where
  lists := hlists
  sound b r hb := (inv.sound b r (hbroadcasts ▸ hb)).grows hgrows

/-! ### Who gets a message -/

/-- Nobody gets a message twice. -/
private theorem Sound.sends_nodup (h : Sound m r) (inv : Listed m) : r.sends.Nodup := by
  rw [h.sends_eq]
  refine inv.distinct.sublist (List.Sublist.map _ ?_)
  exact (List.filter_sublist.trans (List.take_sublist _ _)).trans (inv.sublist _ h.walked_lt)

/-- Connections with one socket are one connection. -/
private theorem Listed.unique (inv : Listed m) {d : Connection W} (hc : c ∈ m.connected) (hd : d ∈ m.connected)
    (h : c.websocket = d.websocket) : c = d := List.inj_on_of_nodup_map inv.distinct hc hd h

private theorem Sound.mem_sends (h : Sound m r) (inv : Listed m) (hc : c ∈ m.connected) :
    c.websocket ∈ r.sends ↔ c ∈ (m.lists r.walked).take r.index ∧ r.wants c = true := by
  rw [h.sends_eq, List.mem_map]
  constructor
  · rintro ⟨d, hd, hsame⟩
    obtain ⟨hd, hwants⟩ := List.mem_filter.mp hd
    have hconnected := (inv.sublist _ h.walked_lt).subset (List.mem_of_mem_take hd)
    exact inv.unique hconnected hc hsame ▸ ⟨hd, hwants⟩
  · exact fun hboth => ⟨c, List.mem_filter.mpr hboth, rfl⟩

/-- What was listed at the start is passed when the call returns. -/
private theorem Sound.passed (h : Sound m r) (hreturned : r.returned = true) (hc : c ∈ r.listed) :
    c ∈ (m.lists r.walked).take r.index := by
  have hprefix := (List.prefix_take_iff.mpr ⟨h.listed, h.returned hreturned⟩)
  exact hprefix.subset hc

/-! ### The steps -/

variable [DecidableEq W] [DecidableEq B]

private theorem Inv.step (inv : Inv m) (h : Step m m') : Inv m' := by
  cases h with
  | connect c new => exact inv.keep (inv.lists.connect new) (grows_connect m c) rfl
  | disconnect websocket =>
    let noted := { m with departed := websocket :: m.departed }
    have hnoted : Listed noted := inv.lists.weaken rfl rfl rfl rfl (List.Subset.refl _)
      (List.subset_cons_self _ _)
    have hgrows : Grows m noted := .of_lists rfl rfl (List.Subset.refl _)
    exact inv.keep (hnoted.disconnect (Or.inr List.mem_cons_self))
      (hgrows.trans (grows_disconnect noted websocket)) rfl
  | startBroadcast b sourceId new =>
    refine inv.setBroadcast b ⟨inv.lists.connections_lt, List.prefix_rfl, Nat.zero_le _, rfl, ?_, ?_, ?_⟩
    · exact fun w hw => by cases hw
    · exact fun w hw => by cases hw
    · exact fun hr => by cases hr
  | iterate b r c hr idle unreturned next =>
    exact inv.setBroadcast b ((inv.sound b r hr).iterate unreturned next)
  | sendReturned b r websocket hr awaits =>
    have h := inv.sound b r hr
    exact inv.setBroadcast b ⟨h.walked_lt, h.listed, h.index_le, h.sends_eq, h.dead, (by simp), h.returned⟩
  | sendFailed b r websocket hr awaits =>
    have h := inv.sound b r hr
    have hmore := List.subset_cons_self websocket m.failed
    refine inv.update (inv.lists.weaken rfl rfl rfl rfl hmore (List.Subset.refl _))
      (.of_lists rfl rfl hmore) rfl
      ⟨h.walked_lt, h.listed, h.index_le, h.sends_eq, fun w hw => ?_, by simp, h.returned⟩
    rcases List.mem_append.mp hw with hw | hw
    · exact hmore (h.dead w hw)
    · exact List.mem_singleton.mp hw ▸ List.mem_cons_self
  | finish b r hr idle unreturned exhausted =>
    have h := inv.sound b r hr
    obtain ⟨hlisted, hgrows, hbroadcasts⟩ := finish_spec (b := b) inv.lists h.dead
    have hend : (m.lists r.walked).length ≤ r.index := List.getElem?_eq_none_iff.mp exhausted
    refine inv.update hlisted hgrows hbroadcasts (Sound.grows ?_ hgrows)
    exact ⟨h.walked_lt, h.listed, h.index_le, h.sends_eq, h.dead, by simp [idle], fun _ =>
      h.listed.length_le.trans hend⟩

private theorem inv_of_run (run : Run Step (init : ConnectionManager W B) m) : Inv m := by
  refine run.invariant (fun _ _ inv h => inv.step h) ⟨⟨List.nodup_nil, Nat.zero_lt_one, ?_, ?_⟩, ?_⟩
  · exact fun i _ => List.Sublist.refl _
  · exact fun c hc => by cases hc
  · exact fun b r hr => by cases hr

def left (m : ConnectionManager W B) (r : Broadcast W) : Nat :=
  2 * ((m.lists r.walked).length - r.index) + if r.awaiting.isSome then 1 else 0

/-- A broadcast whose sends come back, and that nobody disturbs, returns. -/
private theorem Inv.exists_returned (inv : Inv m) (hb : m.broadcasts b = some r) : ∃ m' r', Run Step m m' ∧
    m'.broadcasts b = some r' ∧ r'.listed = r.listed ∧ r'.returned = true := by
  induction hn : left m r using Nat.strong_induction_on generalizing m r with
  | _ n ih =>
    by_cases hreturned : r.returned = true
    · exact ⟨m, r, .refl, hb, rfl, hreturned⟩
    have unreturned : r.returned = false := by simpa using hreturned
    have hself (r' : Broadcast W) : (m.setBroadcast b r').broadcasts b = some r' := by
      simp [ConnectionManager.setBroadcast]
    cases hawaiting : r.awaiting with
    | some websocket =>
      have hstep : Step m (m.sendReturned b r) := .sendReturned b r websocket hb hawaiting
      obtain ⟨m', r', hrun, hb', hlisted, hret⟩ := ih _
        (by rw [← hn]; simp [left, ConnectionManager.setBroadcast, sendReturned, hawaiting])
        (inv.step hstep) (hself _) rfl
      exact ⟨m', r', .head hstep hrun, hb', hlisted, hret⟩
    | none =>
      cases hnext : (m.lists r.walked)[r.index]? with
      | none =>
        obtain ⟨-, -, hbroadcasts⟩ := finish_spec (b := b) inv.lists (inv.sound b r hb).dead
        exact ⟨m.finish b r, { r with returned := true },
          .single (.finish b r hb hawaiting unreturned hnext),
          by rw [hbroadcasts, Function.update_self], rfl, rfl⟩
      | some c =>
        have hstep : Step m (m.setBroadcast b (r.iterate c)) := .iterate b r c hb hawaiting unreturned hnext
        have hlt : r.index < (m.lists r.walked).length := (List.getElem?_eq_some_iff.mp hnext).1
        have hless : left (m.setBroadcast b (r.iterate c)) (r.iterate c) < n := by
          rw [← hn]
          unfold left Broadcast.iterate
          split <;> simp [ConnectionManager.setBroadcast, hawaiting] <;> omega
        obtain ⟨m', r', hrun, hb', hlisted, hret⟩ := ih _ hless (inv.step hstep) (hself _) rfl
        refine ⟨m', r', .head hstep hrun, hb', hlisted.trans ?_, hret⟩
        unfold Broadcast.iterate
        split <;> rfl

end ConnectionManager

/-- A broadcast sends once to every socket that was listed when it started and whose filter, if it has
one, is the source of the message; it never sends twice to a socket nor to one with the filter of another
source, and it can always return. A socket that is not listed any more has disconnected or failed. -/
theorem broadcast_delivers_once {W B : Type} [DecidableEq W] [DecidableEq B] {m : ConnectionManager W B}
    (run : Run ConnectionManager.Step .init m) :
    (∀ b r, m.broadcasts b = some r →
      (r.returned = true → ∀ c ∈ r.listed, c.sourceFilter = none ∨ c.sourceFilter = r.sourceId →
        r.sends.count c.websocket = 1) ∧
      (∀ c ∈ m.connected, r.sends.count c.websocket ≤ 1) ∧
      (∀ c ∈ m.connected, ∀ srcFilter sid, c.sourceFilter = some srcFilter → r.sourceId = some sid →
        srcFilter ≠ sid → c.websocket ∉ r.sends) ∧
      ∃ m' r', Run ConnectionManager.Step m m' ∧ m'.broadcasts b = some r' ∧ r'.listed = r.listed ∧
        r'.returned = true) ∧
    ∀ c ∈ m.connected, c ∉ m.current → c.websocket ∈ m.failed ∨ c.websocket ∈ m.departed := by
  have inv := ConnectionManager.inv_of_run run
  refine ⟨fun b r hb => ⟨fun hreturned c hc hfilter => ?_, fun c _ => ?_,
      fun c hc srcFilter sid hf hs hne => ?_, inv.exists_returned hb⟩,
    fun c hc hout => (inv.lists.present c hc).resolve_left hout⟩
  · have hsound := inv.sound b r hb
    have hpassed := hsound.passed hreturned hc
    have hconnected := (inv.lists.sublist _ hsound.walked_lt).subset (List.mem_of_mem_take hpassed)
    have hwants : r.wants c = true := by
      unfold Broadcast.wants
      rcases hfilter with hnone | hsame
      · rw [hnone]
      · rw [hsame]
        split <;> simp_all
    exact List.count_eq_one_of_mem (hsound.sends_nodup inv.lists)
      ((hsound.mem_sends inv.lists hconnected).mpr ⟨hpassed, hwants⟩)
  · exact List.nodup_iff_count_le_one.mp ((inv.sound b r hb).sends_nodup inv.lists) _
  · intro hsent
    have hwants := (((inv.sound b r hb).mem_sends inv.lists hc).mp hsent).2
    simp only [Broadcast.wants, hf, hs, decide_eq_true_eq] at hwants
    exact hne hwants

/-! ### A socket of the source of the message, and one of another source -/

private def own : Connection Nat := ⟨1, some "s"⟩
private def foreign : Connection Nat := ⟨2, some "t"⟩

private def begun : ConnectionManager Nat Unit :=
  ((ConnectionManager.init.connect own).connect foreign).startBroadcast () (some "s")

private def beforeOwn : Broadcast Nat where
  sourceId := some "s"
  walked := 0
  listed := [own, foreign]

private def afterOwn : Broadcast Nat := { beforeOwn.iterate own with awaiting := none }

private def done : ConnectionManager Nat Unit :=
  (((begun.setBroadcast () (beforeOwn.iterate own)).sendReturned () (beforeOwn.iterate own)).setBroadcast ()
    (afterOwn.iterate foreign)).finish () (afterOwn.iterate foreign)

private theorem done_run : Run ConnectionManager.Step .init done :=
  .head (.connect own (by decide)) <| .head (.connect foreign (by decide)) <|
  .head (.startBroadcast () (some "s") rfl) <|
  .head (.iterate () beforeOwn own rfl rfl rfl rfl) <|
  .head (.sendReturned () (beforeOwn.iterate own) 1 rfl rfl) <|
  .head (.iterate () afterOwn foreign rfl rfl rfl rfl) <|
  .single (.finish () (afterOwn.iterate foreign) rfl rfl rfl rfl)

theorem broadcast_delivers_to_own : ∃ r, done.broadcasts () = some r ∧ r.sends.count own.websocket = 1 ∧
    foreign.websocket ∉ r.sends := by
  obtain ⟨hbroadcasts, -⟩ := broadcast_delivers_once done_run
  obtain ⟨honce, -, hforeign, -⟩ := hbroadcasts () { afterOwn.iterate foreign with returned := true } rfl
  exact ⟨_, rfl, honce rfl own (by decide) (Or.inr rfl),
    hforeign foreign (by decide) "t" "s" rfl rfl (by decide)⟩

end BackendProjects.Anomaly
