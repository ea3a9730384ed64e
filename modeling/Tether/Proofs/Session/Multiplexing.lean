import Tether.Proofs.Session.Fairness
import Tether.Proofs.Session.Lasting

/-!
# Many connections over one stream

The law of multiplexed delivery: whatever the users of the two sides do, and in whatever order their
messages move, the reads of a connection give a first part of what was written to it at the other
side, no side accuses the other, and the accepting side hands out only connections that were dialed,
each with its first payload.

The numbers of connections and of payloads have 64 bits, so the law is about runs in which they have
not come round.
-/

namespace Tether.Session

namespace Party

/-- One side is in order, by itself and against what it has heard of the other. -/
structure InOrder (p q : Party) : Prop where
  sound : p.Sound
  listed : p.state.Listed
  fair : p.Fair
  hears : p.Hears q
  leaves : ∀ id ∈ p.leaving, ∃ k, p.state.id? k = some id ∧ ¬p.state.Open k

/-- One side goes on without a new connection. -/
structure Grows (p p' : Party) : Prop where
  role : p'.state.role = p.state.role
  ids : ∀ k, p'.state.id? k = p.state.id? k
  arrived : ∀ k, p.arrived k <+: p'.arrived k
  sent : p.sent <+: p'.sent
  nextId : p'.state.nextId = p.state.nextId
  held : ∀ k, k ∈ p'.state.accepted ++ p'.handed → k ∈ p.state.accepted ++ p.handed

/-- One side goes on without a new connection, and stays in order. -/
structure Stays (p p' q : Party) : Prop where
  inOrder : p'.InOrder q
  grows : p.Grows p'

/-- A connection is dialed. -/
def dials (p : Party) : Party :=
  { p with state :=
    { p.state.enroll ⟨p.state.nextId⟩ [] 0 with nextId := p.state.nextId + 1 } }

/-- A connection is opened by its first payload, and waits to be accepted. -/
def opens (p : Party) (id : ConnId) (data : Bytes) : Party :=
  { p with
    heard := p.heard + 1
    state := { p.state.enroll id [.payload data] 1 with
      accepted := p.state.accepted ++ [p.state.conns.size] } }

/-- What a side that is in order can do with the next envelope. -/
inductive Heard (p : Party) (e : Envelope) : Party → Prop
  | ignored (unknown : ∀ a ∈ p.state.table, a.id ≠ e.conn) : Heard p e { p with heard := p.heard + 1 }
  | aborted {a : Entry} {reason : Reason} (mem : a ∈ p.state.table) (named : a.id = e.conn)
    (content : e.content = .abort reason) :
    Heard p e { p with
      heard := p.heard + 1
      state := p.state.retire a (State.aborting reason) }
  | delivered {a : Entry} {data : Bytes} (mem : a ∈ p.state.table) (named : a.id = e.conn)
    (content : e.content = .payload a.nextRead data) :
    Heard p e { p with heard := p.heard + 1, state := p.state.deliver a data }
  | refused {seq : UInt64} {data : Bytes} {reason : Reason} {accepting : Bool}
    (alive : p.state.ended = none) (unknown : ∀ a ∈ p.state.table, a.id ≠ e.conn)
    (content : e.content = .payload seq data) (gone : reason = .gone ∨ reason = .off) :
    Heard p e ({ p with heard := p.heard + 1, state := { p.state with accepting } }.send
      (.abort e.conn reason))
  | opened {data : Bytes} (alive : p.state.ended = none) (role : p.state.role = .accept)
    (unknown : ∀ a ∈ p.state.table, a.id ≠ e.conn) (content : e.content = .payload 0 data) :
    Heard p e (p.opens e.conn data)

variable {p p' p'' q : Party} {i : Nat} {o : Outgoing}

theorem Heard.heard {e : Envelope} (h : p.Heard e p') : p'.heard = p.heard + 1 := by
  cases h <;> rfl

theorem Heard.closes {e : Envelope} (h : p.Heard e p') : p'.closes = p.closes := by
  cases h <;> rfl

theorem id?_dials (k : ConnKey) : p.dials.state.id? k =
    if k = p.state.conns.size then some ⟨p.state.nextId⟩ else p.state.id? k :=
  @State.map_enroll p.state ⟨p.state.nextId⟩ [] 0 _ Conn.id k

theorem holds_dials {id : ConnId} :
    p.dials.state.Holds id ↔ id = ⟨p.state.nextId⟩ ∨ p.state.Holds id :=
  @State.holds_enroll p.state ⟨p.state.nextId⟩ [] 0 id

theorem id?_opens (id : ConnId) (data : Bytes) (k : ConnKey) : (p.opens id data).state.id? k =
    if k = p.state.conns.size then some id else p.state.id? k :=
  @State.map_enroll p.state id _ 1 _ Conn.id k

theorem holds_opens {id id' : ConnId} {data : Bytes} :
    (p.opens id data).state.Holds id' ↔ id' = id ∨ p.state.Holds id' :=
  @State.holds_enroll p.state id [.payload data] 1 id'

theorem Grows.trans (h : p.Grows p') (h' : p'.Grows p'') : p.Grows p'' :=
  ⟨h'.role.trans h.role, fun k => (h'.ids k).trans (h.ids k), fun k => (h.arrived k).trans (h'.arrived k),
    h.sent.trans h'.sent, h'.nextId.trans h.nextId, fun k mem => h.held k (h'.held k mem)⟩

theorem Stays.trans (h : p.Stays p' q) (h' : p'.Stays p'' q) : p.Stays p'' q :=
  ⟨h'.inOrder, h.grows.trans h'.grows⟩

namespace InOrder

/-- The other side goes on. -/
theorem of_sent {q' : Party} (h : p.InOrder q) (sent : q.sent <+: q'.sent) : p.InOrder q' :=
  ⟨h.sound, h.listed, h.fair,
    h.hears.congr (fun _ => rfl) (fun _ => rfl) rfl (fun _ mem => mem) sent, h.leaves⟩

/-- What leaves the table stays ended. -/
theorem leaves_congr (h : p.InOrder q) (leaving : p'.leaving ⊆ p.leaving)
    (ids : ∀ k, p'.state.id? k = p.state.id? k) (isOpen : ∀ k, p'.state.Open k → p.state.Open k) :
    ∀ id ∈ p'.leaving, ∃ k, p'.state.id? k = some id ∧ ¬p'.state.Open k := fun id mem => by
  obtain ⟨k, known, ended⟩ := h.leaves id (leaving mem)
  exact ⟨k, (ids k).trans known, mt (isOpen k) ended⟩

/-! ## Messages on their way -/

theorem stays_of_sameReading (h : p.InOrder q) (same : p.SameReading p') (sound : p'.Sound)
    (fair : p'.Fair) (sent : p.sent <+: p'.sent) : p.Stays p' q := by
  have arrived (k : ConnKey) : p'.arrived k = p.arrived k :=
    arrived_congr same.reads (same.state.conns.waiting k)
  have role := congrArg State.role same.state.rest
  have nextId := congrArg State.nextId same.state.rest
  have accepted := congrArg State.accepted same.state.rest
  have leaves := h.leaves_congr (by simp only [same.leaving, List.Subset.refl]) same.state.ids
    fun k => (same.state.isOpen k).mp
  refine ⟨⟨sound, same.state.listed h.listed, fair, h.hears.congr same.state.ids arrived same.heard
    (fun a mem => ?_) (List.prefix_refl _), leaves⟩,
    ⟨role, same.state.ids, fun k => ?_, sent, nextId, fun k mem => ?_⟩⟩
  · rwa [same.state.table] at mem
  · simp only [arrived, List.prefix_refl]
  · dsimp only at accepted
    rwa [accepted, same.handed] at mem

theorem stays (h : p.InOrder q) : p.Stays p q :=
  h.stays_of_sameReading ⟨.refl _, rfl, rfl, rfl, rfl, rfl, rfl⟩ h.sound h.fair (List.prefix_refl _)

theorem send (h : p.InOrder q) {m : Message}
    (polite : ∀ id reason, m = .abort id reason → reason.accuses = false) :
    p.Stays (p.send m) q :=
  h.stays_of_sameReading ⟨.refl _, rfl, rfl, rfl, rfl, rfl, rfl⟩ (h.sound.send m) (h.fair.send polite)
    (List.prefix_refl _)

theorem sent_prefix_settle {outcome : Outgoing.Outcome} (moved : o.Moved p.state p.stream outcome) :
    p.sent <+: (p.settle i o outcome).sent := by
  cases moved with
  | enqueued _ _ _ => exact List.prefix_refl _
  | acquired _ _ _ _ => exact List.prefix_refl _
  | taken _ _ _ => exact List.prefix_append _ _
  | failed _ => exact List.prefix_refl _

theorem move (h : p.InOrder q) (i : Nat) : p.Stays (p.move i) q := by
  obtain same | ⟨o, outcome, known, moved, stepped⟩ := p.move_cases i
  · rw [same]
    exact h.stays
  · rw [stepped]
    exact h.stays_of_sameReading (sameReading_settle i moved) (h.sound.settle known moved)
      (h.fair.settle h.sound known moved) (sent_prefix_settle moved)

theorem cancel (h : p.InOrder q) (i : Nat) : p.Stays (p.cancel i) q := by
  obtain same | ⟨o, known, -, given⟩ := p.cancel_cases i
  · rw [same]
    exact h.stays
  · rw [given]
    exact h.stays_of_sameReading (p.sameReading_giveUp i o) (h.sound.giveUp known)
      (h.fair.giveUp known) (List.prefix_refl _)

theorem flow (h : p.InOrder q) (stream : Stream.Endpoint) : p.Stays (p.flow stream) q := by
  obtain ⟨stream', same⟩ := p.flow_eq stream
  rw [same]
  exact h.stays_of_sameReading ⟨.refl _, rfl, rfl, rfl, rfl, rfl, rfl⟩ (h.sound.congr (.refl _) rfl rfl rfl)
    (h.fair.congr h.fair.conns rfl rfl rfl) (List.prefix_refl _)

/-- A step of the reading activity or of a reader. -/
theorem stays_of_sameSending (h : p.InOrder q) {state : State} {heard : Nat}
    (same : p.state.SameSending state) (listed : state.Listed)
    (isOpen : ∀ k, state.Open k → p.state.Open k) (conns : state.Fair)
    (role : state.role = p.state.role) (waiting : ∀ k, p.state.waiting k <+: state.waiting k)
    (nextId : state.nextId = p.state.nextId) (accepted : state.accepted = p.state.accepted)
    (hears : Party.Hears { p with state, heard } q) : p.Stays { p with state, heard } q := by
  have leaves := @leaves_congr p { p with state, heard } q h (List.Subset.refl _) same.ids isOpen
  refine ⟨⟨h.sound.congr same rfl rfl rfl, listed, h.fair.congr conns rfl rfl rfl, hears, leaves⟩,
    ⟨role, same.ids, fun k => ?_, List.prefix_refl _, nextId, fun k mem => ?_⟩⟩
  · exact (List.prefix_append_right_inj _).mpr (waiting k)
  · rwa [accepted] at mem

/-- Such a step that hears nothing, and brings nothing to any connection. -/
theorem stays_of_silent (h : p.InOrder q) {state : State} (same : p.state.SameSending state)
    (listed : state.Listed) (isOpen : ∀ k, state.Open k → p.state.Open k) (conns : state.Fair)
    (role : state.role = p.state.role) (waiting : ∀ k, state.waiting k = p.state.waiting k)
    (table : ∀ a ∈ state.table, a ∈ p.state.table) (nextId : state.nextId = p.state.nextId)
    (accepted : state.accepted = p.state.accepted) : p.Stays { p with state } q :=
  h.stays_of_sameSending same listed isOpen conns role (fun k => waiting k ▸ List.prefix_refl _) nextId
    accepted (h.hears.congr same.ids (fun k => arrived_congr rfl (waiting k)) rfl table
      (List.prefix_refl _))

/-! ## The user -/

theorem unlisten (h : p.InOrder q) :
    p.Stays { p with state := { p.state with listening := false } } q :=
  h.stays_of_silent ⟨fun _ => rfl, fun _ => rfl, rfl, rfl⟩
    (h.listed.congr (fun _ => rfl) (fun _ opened => opened) rfl rfl) (fun _ opened => opened)
    h.fair.conns rfl (fun _ => rfl) (fun _ mem => mem) rfl rfl

theorem accept (h : p.InOrder q) : p.Stays p.accept q := by
  obtain same | ⟨k, rest, line, same⟩ := p.accept_cases
  · rw [same]
    exact h.stays
  · rw [same]
    refine ⟨⟨h.sound.congr ⟨fun _ => rfl, fun _ => rfl, rfl, rfl⟩ rfl rfl rfl,
      h.listed.congr (fun _ => rfl) (fun _ opened => opened) rfl rfl,
      h.fair.congr h.fair.conns rfl rfl rfl,
      h.hears.congr (fun _ => rfl) (fun _ => rfl) rfl (fun _ mem => mem) (List.prefix_refl _),
      h.leaves⟩,
      ⟨rfl, fun _ => rfl, fun _ => List.prefix_refl _, List.prefix_refl _, rfl, fun l mem => ?_⟩⟩
    rw [line]
    simp only [List.mem_append, List.mem_cons, List.not_mem_nil, or_false] at mem ⊢
    obtain waits | out | rfl := mem
    · exact .inl (.inr waits)
    · exact .inr out
    · exact .inl (.inl rfl)

theorem read (h : p.InOrder q) (k : ConnKey) : p.Stays (p.read k) q := by
  unfold Party.read
  split
  · next state r read =>
    have same := State.sameSending_read read
    have arrived (l : ConnKey) :
        ({ p with state, reads := p.reads ++ [(k, r)] } : Party).arrived l = p.arrived l := by
      rw [Party.arrived, got_concat rfl, Party.arrived, State.waiting_read read, List.append_assoc]
    have listed := h.listed.read read
    obtain ⟨c, c', known, given, rfl⟩ := State.read?_eq_some read
    obtain ⟨fair, polite⟩ := (h.fair.conns k c known).read? given
    have isOpen := State.isOpen_replaceConn known (Conn.read?_same given).2.2
    refine ⟨⟨h.sound.congr same rfl rfl rfl, listed,
      ⟨h.fair.conns.modifyConn fun _ _ => fair, fun {l reason} mem => ?_, h.fair.jobs, h.fair.sent⟩,
      h.hears.congr same.ids arrived rfl (fun _ mem => mem) (List.prefix_refl _),
      h.leaves_congr (List.Subset.refl _) same.ids fun l => (isOpen l).mp⟩,
      ⟨rfl, same.ids, fun l => ?_, List.prefix_refl _, rfl, fun _ mem => mem⟩⟩
    · rcases List.mem_append.mp mem with mem | mem
      · exact h.fair.reads mem
      · cases List.mem_singleton.mp mem
        exact polite reason rfl
    · simp only [arrived, List.prefix_refl]
  · exact h.stays

theorem finish (h : p.InOrder q) (k : ConnKey) : p.Stays (p.finish k) q := by
  obtain ⟨-, same⟩ | ⟨opened, id, known, same⟩ := p.finish_cases k <;> rw [same]
  · exact h.stays
  have ends (c : Conn) : (c.finish .closed).terminal ≠ none := c.terminal_finish _
  have same := p.state.sameSending_finish k
  have isOpen := @State.isOpen_modifyConn_of_ends p.state _ k ends
  have ended : p.Stays { p with state := p.state.modifyConn k (·.finish .closed) } q :=
    h.stays_of_silent same (h.listed.congr same.ids (fun l opened => ((isOpen l).mp opened).1) rfl rfl)
      (fun l opened => ((isOpen l).mp opened).1) (h.fair.conns.modifyConn fun c fair => fair.finish nofun)
      rfl (State.waiting_modifyConn_of_keeps fun c => c.waiting_finish _) (fun _ mem => mem) rfl rfl
  obtain ⟨⟨sound, listed, fair, hears, leaves⟩, grows⟩ := ended
  refine ⟨⟨sound.congr (.refl _) rfl rfl rfl, listed, fair.congr fair.conns rfl rfl rfl,
    hears.congr (fun _ => rfl) (fun _ => rfl) rfl (fun _ mem => mem) (List.prefix_refl _),
    fun id' mem => ?_⟩,
    ⟨grows.role, grows.ids, grows.arrived, grows.sent, grows.nextId, grows.held⟩⟩
  rcases List.mem_append.mp mem with mem | mem
  · exact leaves id' mem
  · cases List.mem_singleton.mp mem
    exact ⟨k, (same.ids k).trans known, fun opened => ((isOpen k).mp opened).2 rfl⟩

theorem forget (h : p.InOrder q) (id : ConnId) : p.Stays (p.forget id) q := by
  obtain same | ⟨leaves, ⟨-, same⟩ | ⟨-, same⟩⟩ := p.forget_cases id <;> rw [same]
  · exact h.stays
  · obtain ⟨⟨sound, listed, fair, hears, leaves⟩, grows⟩ := h.stays
    exact ⟨⟨sound.congr (.refl _) rfl rfl rfl, listed, fair.congr fair.conns rfl rfl rfl,
      hears.congr (fun _ => rfl) (fun _ => rfl) rfl (fun _ mem => mem) (List.prefix_refl _),
      fun id' mem => leaves id' (List.mem_of_mem_erase mem)⟩,
      ⟨grows.role, grows.ids, grows.arrived, grows.sent, grows.nextId, grows.held⟩⟩
  · have ended (k : ConnKey) (known : p.state.id? k = some id) : ¬p.state.Open k := by
      obtain ⟨l, known', ended⟩ := h.leaves id leaves
      exact h.sound.logged.ids known' known ▸ ended
    have removed : p.Stays { p with state := p.state.remove id } q :=
      h.stays_of_silent ⟨fun _ => rfl, fun _ => rfl, rfl, rfl⟩ (h.listed.remove ended)
        (fun _ opened => opened) h.fair.conns rfl (fun _ => rfl)
        (fun _ mem => (State.mem_remove.mp mem).1) rfl rfl
    obtain ⟨⟨sound, listed, fair, hears, leaves⟩, grows⟩ := removed
    exact ⟨⟨sound.congr (.refl _) rfl rfl rfl, listed, fair.congr fair.conns rfl rfl rfl,
      hears.congr (fun _ => rfl) (fun _ => rfl) rfl (fun _ mem => mem) (List.prefix_refl _),
      fun id' mem => leaves id' (List.mem_of_mem_erase mem)⟩,
      ⟨grows.role, grows.ids, grows.arrived, grows.sent, grows.nextId, grows.held⟩⟩

theorem announce (h : p.InOrder q) (id : ConnId) : p.Stays (p.announce id) q := by
  obtain same | ⟨-, same⟩ := p.announce_cases id <;> rw [same]
  · exact h.stays
  · obtain ⟨⟨sound, listed, fair, hears, leaves⟩, grows⟩ := h.stays
    have erased : p.Stays { p with owing := p.owing.erase id } q :=
      ⟨⟨sound.congr (.refl _) rfl rfl rfl, listed, fair.congr fair.conns rfl rfl rfl,
        hears.congr (fun _ => rfl) (fun _ => rfl) rfl (fun _ mem => mem) (List.prefix_refl _), leaves⟩,
        ⟨grows.role, grows.ids, grows.arrived, grows.sent, grows.nextId, grows.held⟩⟩
    refine erased.trans (erased.inOrder.send fun id reason same => ?_)
    cases same
    rfl

theorem teardown (h : p.InOrder q) (cause : Codec.Error) :
    p.Stays { p with state := (p.state.teardown cause).1 } q := by
  have rest := State.teardown_rest cause p.state
  have role := congrArg State.role rest
  have nextId := congrArg State.nextId rest
  have accepted := congrArg State.accepted rest
  refine h.stays_of_silent (State.sameSending_teardown cause p.state) (h.listed.teardown cause)
    (fun k => State.isOpen_of_teardown cause) (h.fair.conns.teardown cause) role
    (State.waiting_teardown cause p.state) (fun a mem => ?_) nextId
    accepted
  rw [State.table_teardown cause h.listed] at mem
  cases mem

theorem lose (h : p.InOrder q) (cause : Option Stream.Error) :
    p.Stays (p.take (cause.elim (.ok none) .error)) q := by
  cases cause with
  | none => exact h.teardown _
  | some e => exact h.teardown _

/-! ## Envelopes -/

section Hear

variable {bytes : Bytes} {e : Envelope}

/-- An envelope is heard that brings no payload to any connection that stays open. -/
theorem pass (h : p.InOrder q) (found : q.sent[p.heard]? = some bytes)
    (read : Envelope.unpacked bytes = .ok e) {state : State} (same : p.state.SameSending state)
    (listed : state.Listed) (isOpen : ∀ k, state.Open k → p.state.Open k) (conns : state.Fair)
    (role : state.role = p.state.role) (waiting : ∀ k, state.waiting k = p.state.waiting k)
    (table : ∀ a ∈ state.table, a ∈ p.state.table ∧ e.payload? a.id = none)
    (nextId : state.nextId = p.state.nextId) (accepted : state.accepted = p.state.accepted) :
    p.Stays { p with state, heard := p.heard + 1 } q :=
  h.stays_of_sameSending same listed isOpen conns role (fun k => waiting k ▸ List.prefix_refl _)
    nextId accepted (h.hears.pass found read rfl same.ids (fun k => arrived_congr rfl (waiting k)) table)

/-- The next payload of an open connection has the number that is expected. -/
theorem next_of_mem (h : p.InOrder q) (peer : q.Sound) (found : q.sent[p.heard]? = some bytes)
    (read : Envelope.unpacked bytes = .ok e) {seq : UInt64} {data : Bytes}
    (content : e.content = .payload seq data) {a : Entry} (mem : a ∈ p.state.table)
    (named : a.id = e.conn) : seq = a.nextRead := by
  rw [(h.hears.current mem).2, named]
  exact (next_of_sound peer found read content).1

/-- What a side that is in order does with the next envelope: there are no faults. -/
theorem heard (h : p.InOrder q) (peer : q.Sound) (found : q.sent[p.heard]? = some bytes)
    (read : Envelope.unpacked bytes = .ok e) :
    p.Heard e ({ p with heard := p.heard + 1 }.take (.ok (some bytes))) := by
  have next {seq : UInt64} {data : Bytes} (content : e.content = .payload seq data) {a : Entry}
      (mem : a ∈ p.state.table) (named : a.id = e.conn) : seq = a.nextRead :=
    h.next_of_mem peer found read content mem named
  have given : Codec.ofRead Envelope.unpacked (.ok (some bytes)) = .ok (some e) := by
    simp only [Codec.ofRead, read]
  obtain ⟨state, reason, dispatched, taken⟩ :=
    @Party.take_cases { p with heard := p.heard + 1 } _ e h.listed given
  rw [taken]
  cases dispatched with
  | ignored old _ =>
    refine .ignored fun a mem named => ?_
    obtain ⟨seq, data, content, old⟩ := old a mem named
    rw [next content mem named] at old
    exact UInt64.lt_irrefl _ old
  | aborted mem named content => exact .aborted mem named content
  | delivered mem named content => exact .delivered mem named content
  | faulted mem named content gap =>
    rw [next content mem named] at gap
    exact absurd gap (UInt64.lt_irrefl _)
  | refused alive unknown content gone _ _ => exact .refused alive unknown content gone
  | opened alive welcome unknown content => exact .opened alive welcome.role unknown content

theorem payload?_of_ne {a : Entry} (other : a.id ≠ e.conn) : e.payload? a.id = none := by
  unfold Envelope.payload?
  split
  · exact if_neg (Ne.symm other)
  · rfl

/-- The next envelope is heard. It opens no connection, or the reading side accepts and it is the
first payload for a name that is not open. -/
theorem hear (h : p.InOrder q) (polite : q.Fair)
    (found : q.sent[p.heard]? = some bytes) (read : Envelope.unpacked bytes = .ok e)
    (heard : p.Heard e p') :
    p.Stays p' q ∨ ∃ data, e.content = .payload 0 data ∧ p.state.ended = none ∧
      p.state.role = .accept ∧ p' = p.opens e.conn data := by
  cases heard with
  | ignored unknown =>
    exact .inl (h.pass found read (.refl _) h.listed (fun _ opened => opened) h.fair.conns rfl (fun _ => rfl)
      (fun a mem => ⟨mem, payload?_of_ne (unknown a mem)⟩) rfl rfl)
  | @aborted a reason mem named content =>
    have said : e ∈ envelopes q.sent :=
      List.mem_filterMap.mpr ⟨bytes, List.mem_of_getElem? found, by rw [read]; rfl⟩
    refine .inl (h.pass found read (State.sameSending_retire (fun _ => rfl) fun _ => rfl)
      (h.listed.retire mem (fun _ => rfl) fun _ => nofun)
      (fun k opened => ((State.isOpen_retire (State.terminal_aborting reason) k).mp opened).1)
      (h.fair.conns.modifyConn fun c fair => fair.aborting (polite.sent said content)) rfl
      (State.waiting_retire (State.waiting_aborting reason))
      (fun b mem' => ⟨(State.mem_retire.mp mem').1, ?_⟩) rfl rfl)
    rw [Envelope.payload?, content]
  | @delivered a data mem named content =>
    have known := h.listed.named mem
    refine .inl (h.stays_of_sameSending ?_ (h.listed.deliver data)
      (fun k => (State.isOpen_deliver data k).mp) ?_ rfl (fun k => ?_) rfl rfl
      (h.hears.deliver found read rfl h.sound.logged.ids h.listed mem named content rfl rfl))
    · exact State.sameSending_deliver data
    · exact h.fair.conns.modifyConn fun c fair => fair.hand_payload data
    · rw [State.waiting_deliver known]
      exact List.prefix_append _ _
  | @refused seq data reason accepting alive unknown content gone =>
    have passed : p.Stays { p with state := { p.state with accepting }, heard := p.heard + 1 } q :=
      h.pass found read ⟨fun _ => rfl, fun _ => rfl, rfl, rfl⟩
        (h.listed.congr (fun _ => rfl) (fun _ opened => opened) rfl rfl) (fun _ opened => opened)
        h.fair.conns rfl (fun _ => rfl) (fun a mem => ⟨mem, payload?_of_ne (unknown a mem)⟩) rfl rfl
    refine .inl (passed.trans (passed.inOrder.send fun id reason' same => ?_))
    cases same
    obtain rfl | rfl := gone <;> rfl
  | opened alive role unknown content => exact .inr ⟨_, content, alive, role, rfl⟩

end Hear

/-- A connection is added under a name that is new, with the payloads that came for it. -/
theorem enroll (h : p.InOrder q) {id : ConnId} {data : List Bytes} {nextRead nextId : UInt64}
    {accepted : List ConnKey} {heard : Nat} (alive : p.state.ended = none)
    (new : ∀ k, p.state.id? k ≠ some id) (heard_le : heard ≤ q.sent.length)
    (others : ∀ id', id' ≠ id → payloads id' (q.sent.take heard) = p.came q id')
    (first : (payloads id (q.sent.take heard)).map Prod.snd = data)
    (next : nextRead = UInt64.ofNat (payloads id (q.sent.take heard)).length) :
    Party.InOrder { p with heard, state :=
      { p.state.enroll id (data.map .payload) nextRead with nextId, accepted } } q := by
  have payload (data : List Bytes) : (data.map Inbound.payload).filterMap Inbound.payload? = data := by
    simp [List.filterMap_map, Function.comp_def, Inbound.payload?]
  let added := p.state.enroll id (data.map .payload) nextRead
  have ids (k : ConnKey) : added.id? k = if k = p.state.conns.size then some id else p.state.id? k :=
    State.map_enroll _ k
  have next' (k : ConnKey) : added.next? k = if k = p.state.conns.size then some 0 else p.state.next? k :=
    State.map_enroll _ k
  have waiting (k : ConnKey) : added.waiting k = if k = p.state.conns.size then _ else _ :=
    State.waiting_enroll k
  have fair : added.Fair := h.fair.conns.enroll
  have listed : added.Listed := h.listed.enroll alive (h.listed.unknown new)
  refine ⟨h.sound.register State.id?_size new ids next' rfl rfl rfl rfl rfl,
    listed.congr (fun _ => rfl) (fun _ opened => opened) rfl rfl, h.fair.congr fair rfl rfl rfl,
    h.hears.enroll ids waiting rfl rfl heard_le others new h.listed
      (first.trans (payload data).symm) next, fun id' mem => ?_⟩
  obtain ⟨k, known, ended⟩ := h.leaves id' mem
  have older := State.ne_size known
  have isOpen := @State.isOpen_enroll p.state id (data.map .payload) nextRead k
  exact ⟨k, (ids k).trans ((if_neg older).trans known), fun opened =>
    (isOpen.mp opened).elim older ended⟩

theorem dials (h : p.InOrder q) (alive : p.state.ended = none)
    (new : ∀ k, p.state.id? k ≠ some ⟨p.state.nextId⟩) (silent : p.came q ⟨p.state.nextId⟩ = []) :
    p.dials.InOrder q :=
  @enroll _ _ h _ [] _ _ _ _ alive new h.hears.heard_le (fun _ _ => rfl) (congrArg _ silent)
    (congrArg (fun came => UInt64.ofNat came.length) silent.symm)

theorem opens (h : p.InOrder q) {bytes : Bytes} {e : Envelope} {data : Bytes}
    (found : q.sent[p.heard]? = some bytes) (read : Envelope.unpacked bytes = .ok e)
    (content : e.content = .payload 0 data) (alive : p.state.ended = none)
    (new : ∀ k, p.state.id? k ≠ some e.conn) (first : p.came q e.conn = []) :
    (p.opens e.conn data).InOrder q := by
  have came (id : ConnId) : payloads id (q.sent.take (p.heard + 1)) =
      p.came q id ++ (e.payload? id).toList :=
    @came_succ p (p.opens e.conn data) _ _ _ found read rfl id
  have alone : payloads e.conn (q.sent.take (p.heard + 1)) = [(0, data)] := by
    rw [came, first, Envelope.payload?, content]
    simp
  have others (id : ConnId) (other : id ≠ e.conn) :
      payloads id (q.sent.take (p.heard + 1)) = p.came q id := by
    rw [came, Envelope.payload?, content]
    simp [Ne.symm other]
  exact @enroll _ _ h e.conn [data] _ _ _ _ alive new (List.getElem?_eq_some_iff.mp found).1 others
    (congrArg _ alone) (by rw [alone]; rfl)

/-- The first payload is all that was handed to a connection that has just been opened. -/
theorem arrived_opens (h : p.InOrder q) (id : ConnId) (data : Bytes) (k : ConnKey) :
    (p.opens id data).arrived k = if k = p.state.conns.size then [data] else p.arrived k := by
  have waiting : (p.opens id data).state.waiting k =
      if k = p.state.conns.size then [data] else p.state.waiting k :=
    @State.waiting_enroll p.state id _ 1 k
  rw [Party.arrived, waiting]
  split
  · next last =>
    have nothing := h.hears.absent State.id?_size
    rw [last, show (p.opens id data).got p.state.conns.size = [] from
      (List.append_eq_nil_iff.mp nothing).1, List.nil_append]
  · rfl

end InOrder

end Party

/-! ## Both sides -/

namespace Joined

/-- The numbers of the connections dialed, and of the payloads written on one, have not come round. -/
structure Fits (w : Joined) : Prop where
  conns : w.dialing.state.conns.size ≤ UInt64.size
  payloads : ∀ k, (w.dialing.written k).length ≤ UInt64.size

/-- Both sides are in order, and the accepting side knows only connections that were dialed, each
since its first payload. -/
structure Kept (w : Joined) : Prop where
  role : ∀ side, (w.party side).state.role = side
  inOrder : ∀ side, (w.party side).InOrder (w.party side.peer)
  nextId : w.dialing.state.nextId = UInt64.ofNat w.dialing.state.conns.size
  dialed : ∀ {k id}, w.dialing.state.id? k = some id → id = ⟨UInt64.ofNat k⟩
  begun : ∀ {k id}, w.accepting.state.id? k = some id →
    w.accepting.arrived k ≠ [] ∧ ∃ l, w.dialing.state.id? l = some id
  held : ∀ {k}, k ∈ w.accepting.state.accepted ++ w.accepting.handed →
    ∃ id, w.accepting.state.id? k = some id

variable {w : Joined} {side : Role}

theorem forall_party_setParty {P : Role → Party → Party → Prop} {p : Party}
    (here : P side p (w.party side.peer)) (there : P side.peer (w.party side.peer) p) (s : Role) :
    P s ((w.setParty side p).party s) ((w.setParty side p).party s.peer) := by
  cases side <;> cases s <;> assumption

theorem Kept.setParty_inOrder (h : w.Kept) {p : Party} (inOrder : p.InOrder (w.party side.peer))
    (role : p.state.role = side) (sent : (w.party side).sent <+: p.sent) :
    (∀ s, ((w.setParty side p).party s).state.role = s) ∧
      ∀ s, ((w.setParty side p).party s).InOrder ((w.setParty side p).party s.peer) := by
  have peer := h.inOrder side.peer
  rw [Role.peer_peer] at peer
  refine ⟨fun s => ?_, fun s => ?_⟩
  · exact @forall_party_setParty w side (fun s p _ => p.state.role = s) p role (h.role side.peer) s
  · exact @forall_party_setParty w side (fun _ p q => p.InOrder q) p inOrder (peer.of_sent sent) s

/-- One side goes on without a new connection. -/
theorem Kept.stays (h : w.Kept) {p : Party} (stays : (w.party side).Stays p (w.party side.peer)) :
    (w.setParty side p).Kept := by
  obtain ⟨inOrder, grows⟩ := stays
  obtain ⟨role, inOrder⟩ := h.setParty_inOrder inOrder (grows.role.trans (h.role side)) grows.sent
  cases side with
  | dial =>
    have size : p.state.conns.size = w.dialing.state.conns.size := State.size_congr grows.ids
    refine ⟨role, inOrder, ?_, fun known => ?_, fun known => ?_, h.held⟩
    · exact grows.nextId.trans (h.nextId.trans (congrArg _ size.symm))
    · exact h.dialed ((grows.ids _).symm.trans known)
    · obtain ⟨some, l, known⟩ := h.begun known
      exact ⟨some, l, (grows.ids l).trans known⟩
  | accept =>
    refine ⟨role, inOrder, h.nextId, h.dialed, fun {k id} known => ?_, fun {k} mem => ?_⟩
    · obtain ⟨some, named⟩ := h.begun ((grows.ids k).symm.trans known)
      refine ⟨fun none => some ?_, named⟩
      have front := grows.arrived k
      rw [show p.arrived k = [] from none] at front
      exact List.prefix_nil.mp front
    · obtain ⟨id, known⟩ := h.held (grows.held k mem)
      exact ⟨id, (grows.ids k).trans known⟩

/-- The name of the next connection dialed is new. -/
theorem Kept.new_nextId (h : w.Kept) (fits : w.dialing.state.conns.size < UInt64.size) (k : ConnKey) :
    w.dialing.state.id? k ≠ some ⟨w.dialing.state.nextId⟩ :=
  State.new_nextId h.dialed h.nextId fits k

/-- The accepting side knows only names that were dialed. -/
theorem Kept.unknown_nextId (h : w.Kept) (fits : w.dialing.state.conns.size < UInt64.size)
    (k : ConnKey) : w.accepting.state.id? k ≠ some ⟨w.dialing.state.nextId⟩ := by
  intro known
  obtain ⟨-, l, dialed⟩ := h.begun known
  exact h.new_nextId fits l dialed

/-- A payload with the number zero is the first that is heard of its connection, since the numbers
have not come round. -/
theorem Kept.first_of_zero (h : w.Kept) (fits : w.Fits) {bytes : Bytes} {e : Envelope} {data : Bytes}
    (found : w.dialing.sent[w.accepting.heard]? = some bytes)
    (read : Envelope.unpacked bytes = .ok e) (content : e.content = .payload 0 data) :
    w.accepting.came w.dialing e.conn = [] ∧ (∀ k, w.accepting.state.id? k ≠ some e.conn) ∧
      ∃ l, w.dialing.state.id? l = some e.conn := by
  have sound : w.dialing.Sound := (h.inOrder .dial).sound
  have hears : w.accepting.Hears w.dialing := (h.inOrder .accept).hears
  obtain ⟨seq, l, dialed, below⟩ := Party.next_of_sound sound found read content
  have first : w.accepting.came w.dialing e.conn = [] := by
    have seq := congrArg UInt64.toNat seq
    rw [UInt64.toNat_ofNat_of_lt' (Nat.lt_of_lt_of_le below (fits.payloads l))] at seq
    exact List.length_eq_zero_iff.mp seq.symm
  refine ⟨first, fun k known => ?_, l, dialed⟩
  have front := hears.arrived known
  rw [first] at front
  exact (h.begun known).1 (List.prefix_nil.mp front)

/-- A dial adds a connection under a name that is new at both sides, unless the session has ended. -/
theorem Kept.dial_cases (h : w.Kept) (fits : (w.setParty .dial w.dialing.dial).Fits) :
    w.dialing.dial = w.dialing ∨ w.dialing.state.ended = none ∧ w.dialing.dial = w.dialing.dials ∧
      (∀ k, w.dialing.state.id? k ≠ some ⟨w.dialing.state.nextId⟩) ∧
      (∀ k, w.accepting.state.id? k ≠ some ⟨w.dialing.state.nextId⟩) ∧
      w.dialing.came w.accepting ⟨w.dialing.state.nextId⟩ = [] := by
  have dial : w.dialing.dial = { w.dialing with state := w.dialing.state.dial.1 } := by
    have role : w.dialing.state.role = .dial := h.role .dial
    unfold Party.dial
    rw [role]
  rw [dial] at fits ⊢
  by_cases alive : w.dialing.state.ended = none
  case neg => exact .inl (by rw [State.dial_of_ended alive])
  have listed : w.dialing.state.Listed := (h.inOrder .dial).listed
  have logged : w.accepting.Logged := (h.inOrder .accept).sound.logged
  have room : w.dialing.state.conns.size < UInt64.size := by
    have fits : w.dialing.state.dial.1.conns.size ≤ UInt64.size := fits.conns
    rwa [State.size_dial alive] at fits
  have new := h.new_nextId room
  have unknown := h.unknown_nextId room
  have silent : payloads ⟨w.dialing.state.nextId⟩ w.accepting.sent = [] := logged.unsaid unknown
  refine .inr ⟨alive, ?_, new, unknown,
    List.prefix_nil.mp (silent ▸ payloads_mono _ (List.take_prefix _ _))⟩
  rw [State.dial_of_alive alive (listed.unknown new)]
  rfl

theorem Kept.dial (h : w.Kept) (fits : (w.setParty .dial w.dialing.dial).Fits) :
    (w.setParty .dial w.dialing.dial).Kept := by
  obtain same | ⟨alive, same, new, -, silent⟩ := h.dial_cases fits
  · rw [same]
    exact h
  rw [same]
  have inOrder : w.dialing.InOrder w.accepting := h.inOrder .dial
  have ids := @Party.id?_dials w.dialing
  obtain ⟨role, inOrder'⟩ := @Kept.setParty_inOrder w .dial h _ (inOrder.dials alive new silent)
    (h.role .dial) (List.prefix_refl _)
  refine ⟨role, inOrder', ?_, fun {k id} known => ?_, fun {k id} known => ?_, h.held⟩
  · change w.dialing.state.nextId + 1 = UInt64.ofNat (w.dialing.state.conns.push _).size
    rw [Array.size_push, UInt64.ofNat_add, h.nextId]
    rfl
  · replace known := (ids k).symm.trans known
    split at known
    · next last =>
      cases known
      rw [last, h.nextId]
    · exact h.dialed known
  · obtain ⟨begun, l, known'⟩ := h.begun known
    exact ⟨begun, l, (ids l).trans ((if_neg (State.ne_size known')).trans known')⟩

theorem Kept.opens (h : w.Kept) (fits : w.Fits) {bytes : Bytes} {e : Envelope} {data : Bytes}
    (found : w.dialing.sent[w.accepting.heard]? = some bytes)
    (read : Envelope.unpacked bytes = .ok e) (content : e.content = .payload 0 data)
    (alive : w.accepting.state.ended = none) :
    (w.setParty .accept (w.accepting.opens e.conn data)).Kept := by
  have inOrder : w.accepting.InOrder w.dialing := h.inOrder .accept
  obtain ⟨first, new, l, dialed⟩ := h.first_of_zero fits found read content
  have ids := @Party.id?_opens w.accepting e.conn data
  obtain ⟨role, inOrder'⟩ := @Kept.setParty_inOrder w .accept h _
    (inOrder.opens found read content alive new first) (h.role .accept) (List.prefix_refl _)
  refine ⟨role, inOrder', h.nextId, h.dialed, fun {k id} known => ?_, fun {k} mem => ?_⟩
  · replace known := (ids k).symm.trans known
    change (w.accepting.opens e.conn data).arrived k ≠ [] ∧ _
    rw [inOrder.arrived_opens]
    split at known
    · next last =>
      cases known
      exact ⟨by simp [last], l, dialed⟩
    · next other =>
      rw [if_neg other]
      exact h.begun known
  · replace mem : k ∈ (w.accepting.state.accepted ++ [w.accepting.state.conns.size]) ++
      w.accepting.handed := mem
    by_cases last : k = w.accepting.state.conns.size
    · exact ⟨e.conn, (ids k).trans (if_pos last)⟩
    · have older : k ∈ w.accepting.state.accepted ++ w.accepting.handed := by
        simpa [last] using mem
      obtain ⟨id, known⟩ := h.held older
      exact ⟨id, (ids k).trans ((if_neg last).trans known)⟩

/-- The accepting side dials nothing. -/
theorem Kept.step_dial_accept (h : w.Kept) : w.step (.accept, .dial) = w := by
  have role : w.accepting.state.role = .accept := h.role .accept
  have nothing : w.accepting.dial = w.accepting := by
    unfold Party.dial
    rw [role]
  change { w with accepting := w.accepting.dial } = w
  rw [nothing]

/-- The next chunk of the peer, and what a side does with it. -/
theorem Kept.heard (h : w.Kept) {bytes : Bytes}
    (found : (w.party side.peer).sent[(w.party side).heard]? = some bytes) :
    ∃ e, Envelope.unpacked bytes = .ok e ∧
      (w.party side).Heard e ({ w.party side with heard := (w.party side).heard + 1 }.take
        (.ok (some bytes))) := by
  have peer := (h.inOrder side.peer).sound
  obtain ⟨e, read⟩ := peer.logged.readable bytes (List.mem_of_getElem? found)
  exact ⟨e, read, (h.inOrder side).heard peer found read⟩

theorem Kept.hear (h : w.Kept) (fits : w.Fits) (side : Role) : (w.hear side).Kept := by
  unfold Joined.hear
  dsimp only
  split
  · next bytes found =>
    have peer := h.inOrder side.peer
    obtain ⟨e, read, heard⟩ := h.heard found
    obtain stays | ⟨data, content, alive, role, opened⟩ :=
      (h.inOrder side).hear peer.fair found read heard
    · exact h.stays stays
    · rw [opened]
      cases (h.role side).symm.trans role
      exact h.opens fits found read content alive
  · exact h

theorem Kept.step (h : w.Kept) (event : Event) (fits : w.Fits) (fits' : (w.step event).Fits) :
    (w.step event).Kept := by
  obtain ⟨side, act⟩ := event
  have inOrder := h.inOrder side
  cases act with
  | dial =>
    cases side with
    | dial => exact h.dial fits'
    | accept =>
      rw [h.step_dial_accept]
      exact h
  | accept => exact h.stays inOrder.accept
  | write k data => exact h.stays (inOrder.send nofun)
  | read k => exact h.stays (inOrder.read k)
  | close k => exact h.stays (inOrder.finish k)
  | forget id => exact h.stays (inOrder.forget id)
  | announce id => exact h.stays (inOrder.announce id)
  | shut => exact h.stays (inOrder.teardown _)
  | unlisten => exact h.stays inOrder.unlisten
  | move i => exact h.stays (inOrder.move i)
  | cancel i => exact h.stays (inOrder.cancel i)
  | hear => exact h.hear fits side
  | lose cause =>
    cases cause with
    | none => exact h.stays (inOrder.lose none)
    | some e => exact h.stays (inOrder.lose (some e))
  | flow stream => exact h.stays (inOrder.flow stream)

/-- As few writes fit in all as may come round on one connection. -/
theorem Fits.of_few (conns : w.dialing.state.conns.size ≤ UInt64.size)
    (few : w.dialing.wrote.length ≤ UInt64.size) : w.Fits :=
  ⟨conns, fun _ => Nat.le_trans (List.length_filterMap_le _ _) few⟩

theorem Fits.of_step (event : Event) (h : (w.step event).Fits) : w.Fits := by
  have lasts : w.dialing.Lasts (w.step event).dialing := w.lasts_step event .dial
  exact ⟨Nat.le_trans lasts.state.size h.conns, fun k =>
    Nat.le_trans (Party.written_mono lasts.wrote k).length_le (h.payloads k)⟩

/-! ## The law -/

theorem inOrder_start (role : Role) (near far : Stream.Endpoint) :
    Party.InOrder { state := .new role, stream := near } { state := .new role.peer, stream := far } := by
  refine ⟨⟨⟨nofun, nofun, nofun, nofun, .nil, nofun⟩, ⟨nofun, nofun, fun _ => rfl, fun _ => rfl, nofun⟩,
    ⟨nofun, nofun, nofun⟩⟩, ⟨.nil, nofun, nofun, fun _ => rfl⟩, ⟨nofun, nofun, nofun, nofun⟩,
    ⟨Nat.le_refl _, fun _ => rfl, nofun, nofun⟩, nofun⟩

theorem kept_start (near far : Stream.Endpoint) : (start near far).Kept := by
  refine ⟨fun side => ?_, fun side => ?_, rfl, nofun, nofun, nofun⟩
  · cases side <;> rfl
  · cases side
    · exact inOrder_start .dial near far
    · exact inOrder_start .accept far near

theorem kept_run (near far : Stream.Endpoint) (events : List Event)
    (fits : ((start near far).run events).Fits) : ((start near far).run events).Kept := by
  have kept : ((start near far).run events).Fits → ((start near far).run events).Kept :=
    @run_induction (fun w => w.Fits → w.Kept) _ (fun _ => kept_start near far)
      (fun _ event before fits => (before fits.of_step).step event fits.of_step fits) events
  exact kept fits

/-- Two ends of one connection. -/
def Joins (w : Joined) (side : Role) (k l : ConnKey) : Prop :=
  ∃ id, (w.party side).state.id? k = some id ∧ (w.party side.peer).state.id? l = some id

theorem Kept.arrived_of_joins (h : w.Kept) {k l : ConnKey} (joins : w.Joins side k l) :
    (w.party side).arrived k <+: (w.party side.peer).written l := by
  obtain ⟨id, known, known'⟩ := joins
  have came : (w.party side).came (w.party side.peer) id <+: payloads id (w.party side.peer).sent :=
    payloads_mono id (List.take_prefix _ _)
  rw [(h.inOrder side.peer).sound.logged.said known'] at came
  have front := ((h.inOrder side).hears.arrived known).trans (came.map Prod.snd)
  rwa [map_snd_numbered] at front

theorem Kept.joins_of_arrived (h : w.Kept) {k : ConnKey} (some' : (w.party side).arrived k ≠ []) :
    ∃ l, w.Joins side k l := by
  cases known : (w.party side).state.id? k with
  | none => exact absurd ((h.inOrder side).hears.absent known) some'
  | some id =>
    by_cases named : ∃ l, (w.party side.peer).state.id? l = some id
    · obtain ⟨l, named⟩ := named
      exact ⟨l, id, known, named⟩
    · have silent : payloads id (w.party side.peer).sent = [] :=
        (h.inOrder side.peer).sound.logged.unsaid fun l known' => named ⟨l, known'⟩
      have front := (h.inOrder side).hears.arrived known
      have none' : (w.party side).came (w.party side.peer) id = [] :=
        List.prefix_nil.mp (silent ▸ payloads_mono id (List.take_prefix _ _))
      rw [none'] at front
      exact absurd (List.prefix_nil.mp front) some'

/-- The law of multiplexed delivery. After any run, in which the numbers of connections and payloads
have not come round: what the reads of a connection gave is a first part of the payloads whose writes
answered success at the other end of it; no connection was ended by an accusation, at either end; and
each connection that the accepter handed out was dialed by the peer, and its first payload is the
first that was written to it there. -/
theorem delivers_in_order (near far : Stream.Endpoint) (events : List Event)
    (fits : ((start near far).run events).Fits) :
    let w := (start near far).run events
    (∀ side k, (w.party side).got k ≠ [] → ∃ l, w.Joins side k l) ∧
      (∀ side k l, w.Joins side k l → (w.party side).got k <+: (w.party side.peer).written l) ∧
      (∀ side, (w.party side).Fair) ∧
      ∀ k ∈ w.accepting.handed, ∃ l payload, w.Joins .accept k l ∧
        (w.accepting.arrived k).head? = some payload ∧
        (w.dialing.written l).head? = some payload := by
  intro w
  have kept : w.Kept := kept_run near far events fits
  refine ⟨fun side k some' => ?_, fun side k l joins => ?_, fun side => (kept.inOrder side).fair,
    fun k mem => ?_⟩
  · exact kept.joins_of_arrived fun none' => some' (List.append_eq_nil_iff.mp none').1
  · exact (List.prefix_append _ _).trans (kept.arrived_of_joins joins)
  · obtain ⟨id, known⟩ := kept.held (List.mem_append_right _ mem)
    obtain ⟨begun, l, dialed⟩ := kept.begun known
    have joins : w.Joins .accept k l := ⟨id, known, dialed⟩
    obtain ⟨payload, rest, here⟩ := List.exists_cons_of_ne_nil begun
    obtain ⟨more, there⟩ := kept.arrived_of_joins joins
    change w.accepting.arrived k ++ more = w.dialing.written l at there
    rw [here] at there
    exact ⟨l, payload, joins, by rw [here]; rfl, by rw [← there]; rfl⟩

/-- A run over streams with default settings. The second connection's payload goes out first. A write
of the first connection is cancelled when it has its number, and the next one, in line behind it,
goes out with that number. -/
def crossing : Joined :=
  let sending (job : Nat) : List Event := List.replicate 3 (.dial, .move job)
  (start (.new 0 ⟨7⟩ {}) (.new 0 ⟨7⟩ {})).run <|
    [(.dial, .dial), (.dial, .dial), (.dial, .write 0 [1]), (.dial, .write 1 [2]),
      (.dial, .write 0 [3])] ++
    sending 1 ++
    [(.dial, .move 0), (.dial, .move 2), (.dial, .move 0), (.dial, .cancel 0)] ++
    sending 2 ++
    [(.accept, .hear), (.accept, .hear), (.accept, .accept), (.accept, .accept), (.accept, .read 1)]

/-- The accepting side's second connection is the peer's first. -/
theorem delivers_in_order_crossing :
    crossing.Fits ∧ crossing.accepting.got 1 = [[3]] ∧
      crossing.accepting.got 1 <+: crossing.dialing.written 0 := by
  have fits : crossing.Fits := .of_few (by decide +kernel) (by decide +kernel)
  exact ⟨fits, by decide +kernel,
    (delivers_in_order _ _ _ fits).2.1 .accept 1 0 ⟨⟨0⟩, by decide +kernel, by decide +kernel⟩⟩

end Joined

end Tether.Session
