import Tether.Proofs.Session.Numbering

/-!
# What comes in is filed under its connection

The table of a session names each connection that has not ended, once, and no other. Here is what
each step does to it and to what the connections hold, apart from the numbers of payloads that go
out, which only the sending of messages touches.
-/

namespace Tether.Session

/-! ## What a connection holds -/

/-- The payload that was handed over, if it is one. -/
def Inbound.payload? : Inbound → Option Bytes
  | .payload data => some data
  | .abort _ | .broken _ => none

/-- What a read answers when it takes this. -/
def Inbound.answer : Inbound → Except Error (Option Bytes)
  | .payload data => .ok (some data)
  | .abort .closed => .ok none
  | .abort reason => .error (.aborted reason)
  | .broken cause => .error (.session cause)

/-- The payload that a read gave, if it gave one. -/
def readPayload? : Except Error (Option Bytes) → Option Bytes
  | .ok data => data
  | .error _ => none

theorem Inbound.readPayload?_answer (i : Inbound) : readPayload? i.answer = i.payload? := by
  cases i with
  | payload data => rfl
  | abort reason => cases reason <;> rfl
  | broken cause => rfl

namespace Conn

/-- The payloads that were handed over and not read yet. -/
def waiting (c : Conn) : List Bytes :=
  c.inbox.filterMap Inbound.payload?

/-- A connection without what concerns writing. -/
def reading (c : Conn) : Conn :=
  { c with nextWrite := 0 }

theorem terminal_finish (c : Conn) (e : Error) : (c.finish e).terminal ≠ none :=
  nofun

@[simp]
theorem waiting_finish (c : Conn) (e : Error) : (c.finish e).waiting = c.waiting :=
  rfl

@[simp]
theorem waiting_hand (c : Conn) (i : Inbound) :
    (c.hand i).waiting = c.waiting ++ i.payload?.toList := by
  unfold waiting hand
  rw [List.filterMap_append]
  cases h : i.payload? <;> simp [h]

theorem waiting_congr {c c' : Conn} (inbox : c'.inbox = c.inbox) : c'.waiting = c.waiting :=
  congrArg (List.filterMap Inbound.payload?) inbox

/-- What a read can do: the end of the stream comes again, the oldest thing is taken, or there is
nothing and will never be. -/
theorem read?_cases {c c' : Conn} {fed : Bool} {r : Except Error (Option Bytes)}
    (h : c.read? fed = some (c', r)) :
    (c.ended = true ∧ c' = c ∧ r = .ok none) ∨
      c.ended = false ∧
        ((∃ i rest, c.inbox = i :: rest ∧
            c' = { c with inbox := rest, ended := i = .abort .closed } ∧ r = i.answer) ∨
          c.inbox = [] ∧ fed = false ∧ c' = c ∧ r = .error (c.terminal.getD .closed)) := by
  unfold read? at h
  split at h
  · next ended =>
    cases h
    exact .inl ⟨ended, rfl, rfl⟩
  · next goesOn =>
    have goesOn : c.ended = false := by simpa using goesOn
    refine .inr ⟨goesOn, ?_⟩
    split at h
    · next inbox =>
      cases h
      exact .inl ⟨_, _, inbox, by rw [goesOn]; rfl, rfl⟩
    · next inbox =>
      cases h
      exact .inl ⟨_, _, inbox, rfl, rfl⟩
    · next reason rest other inbox =>
      cases h
      have other : Inbound.abort reason ≠ .abort .closed := fun same => by
        cases same
        exact other rfl
      refine .inl ⟨_, _, inbox, by simp only [goesOn, other, decide_false], ?_⟩
      cases reason with
      | closed => exact absurd rfl other
      | gone | off | protocol => rfl
    · next inbox =>
      cases h
      exact .inl ⟨_, _, inbox, by rw [goesOn]; rfl, rfl⟩
    · next inbox =>
      split at h
      · cases h
      · next dry =>
        cases h
        exact .inr ⟨inbox, by simpa using dry, rfl, rfl⟩

/-- A read gives the oldest payload or leaves all that wait. -/
theorem waiting_read? {c c' : Conn} {fed : Bool} {r : Except Error (Option Bytes)}
    (h : c.read? fed = some (c', r)) : c.waiting = (readPayload? r).toList ++ c'.waiting := by
  obtain ⟨-, rfl, rfl⟩ | ⟨-, ⟨i, rest, inbox, rfl, rfl⟩ | ⟨-, -, rfl, rfl⟩⟩ := read?_cases h
  · rfl
  · rw [Inbound.readPayload?_answer, waiting, inbox, List.filterMap_cons]
    cases i.payload? <;> rfl
  · rfl

/-- A read does not touch what makes a connection. -/
theorem read?_same {c c' : Conn} {fed : Bool} {r : Except Error (Option Bytes)}
    (h : c.read? fed = some (c', r)) :
    c'.id = c.id ∧ c'.nextWrite = c.nextWrite ∧ c'.terminal = c.terminal := by
  obtain ⟨-, rfl, -⟩ | ⟨-, ⟨i, rest, -, rfl, -⟩ | ⟨-, -, rfl, -⟩⟩ := read?_cases h <;>
    exact ⟨rfl, rfl, rfl⟩

end Conn

namespace State

variable {s s' : State}

/-- The payloads that a connection holds for its reader. -/
def waiting (s : State) (k : ConnKey) : List Bytes :=
  (s.conns[k]?.map Conn.waiting).getD []

theorem waiting_of_getElem? {s : State} {k : ConnKey} {c : Conn} (known : s.conns[k]? = some c) :
    s.waiting k = c.waiting := by
  rw [waiting, known]
  rfl

/-- Whether a connection has not ended. -/
def Open (s : State) (k : ConnKey) : Prop :=
  ∃ c, s.conns[k]? = some c ∧ c.terminal = none

/-! ## Steps of sending -/

theorem isOpen_iff {k : ConnKey} : s.Open k ↔ s.conns[k]?.map Conn.terminal = some none :=
  Option.map_eq_some_iff.symm

/-- The connections are as they were, but for what concerns writing. -/
def SameConns (s s' : State) : Prop :=
  ∀ k : ConnKey, s'.conns[k]?.map Conn.reading = s.conns[k]?.map Conn.reading

namespace SameConns

/-- What depends on a connection but not on its writing is as it was. -/
theorem map (h : s.SameConns s') {α : Type} {f : Conn → α} (reads : ∀ c, f c.reading = f c)
    (k : ConnKey) : s'.conns[k]?.map f = s.conns[k]?.map f := by
  have same := congrArg (Option.map f) (h k)
  simpa only [Option.map_map, Function.comp_def, reads] using same

theorem ids (h : s.SameConns s') (k : ConnKey) : s'.id? k = s.id? k :=
  h.map (fun _ => rfl) k

theorem waiting (h : s.SameConns s') (k : ConnKey) : s'.waiting k = s.waiting k := by
  rw [State.waiting, h.map fun _ => rfl, State.waiting]

theorem isOpen (h : s.SameConns s') (k : ConnKey) : s'.Open k ↔ s.Open k := by
  rw [isOpen_iff, isOpen_iff, h.map fun _ => rfl]

theorem exists_conn (h : s.SameConns s') {k : ConnKey} {c' : Conn} (known : s'.conns[k]? = some c') :
    ∃ c, s.conns[k]? = some c ∧ c.reading = c'.reading := by
  have same := h k
  rw [known] at same
  exact Option.map_eq_some_iff.mp same.symm

end SameConns

/-- Nothing that concerns reading has changed. -/
structure SameReading (s s' : State) : Prop where
  conns : s.SameConns s'
  rest : { s' with conns := #[], turn := {}, nextTicket := 0 } =
    { s with conns := #[], turn := {}, nextTicket := 0 }

theorem SameReading.refl (s : State) : s.SameReading s :=
  ⟨fun _ => rfl, rfl⟩

theorem SameReading.table (h : s.SameReading s') : s'.table = s.table := by
  have same := congrArg State.table h.rest
  exact same

theorem SameReading.ended (h : s.SameReading s') : s'.ended = s.ended := by
  have same := congrArg State.ended h.rest
  exact same

theorem SameReading.listening (h : s.SameReading s') : s'.listening = s.listening := by
  have same := congrArg State.listening h.rest
  exact same

theorem SameReading.ids (h : s.SameReading s') (k : ConnKey) : s'.id? k = s.id? k :=
  h.conns.ids k

theorem SameReading.isOpen (h : s.SameReading s') (k : ConnKey) : s'.Open k ↔ s.Open k :=
  h.conns.isOpen k

/-- Only a connection that has not ended can be written to. -/
theorem isOpen_of_mayStart {k : ConnKey} {data : Bytes} (may : s.mayStart (.payload k data) = .ok ()) :
    s.Open k := by
  cases known : s.conns[k]? with
  | none =>
    simp only [mayStart, known] at may
    cases may
  | some c =>
    simp only [mayStart, known, Conn.check] at may
    cases ended : c.terminal with
    | none => exact ⟨c, known, ended⟩
    | some e =>
      rw [ended] at may
      cases may

theorem sameReading_modifyConn (s : State) (k : ConnKey) (f : Conn → UInt64) :
    s.SameReading (s.modifyConn k fun c => { c with nextWrite := f c }) := by
  refine ⟨fun l => ?_, rfl⟩
  unfold modifyConn
  rw [Array.getElem?_modify]
  split
  · rw [Option.map_map]
    rfl
  · rfl

theorem sameReading_giveBack (s : State) (m : Message) : s.SameReading (s.giveBack m) := by
  cases m with
  | payload k data => exact s.sameReading_modifyConn k _
  | abort id reason => exact .refl s

theorem sameReading_reserve (s : State) (m : Message) : s.SameReading (s.reserve m).1 := by
  cases m with
  | payload k data =>
    simp only [reserve]
    split
    · exact s.sameReading_modifyConn k _
    · exact .refl s
  | abort id reason => exact .refl s

theorem sameReading_cancel (s : State) (o : Outgoing) : s.SameReading (o.cancel s) := by
  unfold Outgoing.cancel
  split
  · exact .refl s
  · exact ⟨fun _ => rfl, rfl⟩
  · exact ⟨(s.sameReading_giveBack o.message).conns, (s.sameReading_giveBack o.message).rest⟩

end State

namespace Party

variable {p p' : Party}

/-- Nothing that concerns reading has changed at one side. -/
structure SameReading (p p' : Party) : Prop where
  state : p.state.SameReading p'.state
  heard : p'.heard = p.heard
  reads : p'.reads = p.reads
  handed : p'.handed = p.handed
  closes : p'.closes = p.closes
  leaving : p'.leaving = p.leaving
  owing : p'.owing = p.owing

theorem sameReading_giveUp (p : Party) (i : Nat) (o : Outgoing) : p.SameReading (p.giveUp i o) :=
  ⟨p.state.sameReading_cancel o, rfl, rfl, rfl, rfl, rfl, rfl⟩

theorem sameReading_settle (i : Nat) {o : Outgoing} {outcome : Outgoing.Outcome}
    (moved : o.Moved p.state p.stream outcome) : p.SameReading (p.settle i o outcome) := by
  cases moved with
  | enqueued _ _ _ => exact ⟨⟨fun _ => rfl, rfl⟩, rfl, rfl, rfl, rfl, rfl, rfl⟩
  | @acquired t turn _ _ _ _ =>
    have same := State.sameReading_reserve { p.state with turn } o.message
    exact ⟨⟨same.conns, same.rest⟩, rfl, rfl, rfl, rfl, rfl, rfl⟩
  | taken _ _ _ => exact ⟨⟨fun _ => rfl, rfl⟩, rfl, rfl, rfl, rfl, rfl, rfl⟩
  | failed _ => exact sameReading_giveUp p i o

theorem sameReading_move (p : Party) (i : Nat) : p.SameReading (p.move i) := by
  obtain same | ⟨o, outcome, -, moved, stepped⟩ := p.move_cases i
  · rw [same]
    exact ⟨.refl _, rfl, rfl, rfl, rfl, rfl, rfl⟩
  · rw [stepped]
    exact sameReading_settle i moved

theorem sameReading_cancel (p : Party) (i : Nat) : p.SameReading (p.cancel i) := by
  obtain same | ⟨o, -, -, given⟩ := p.cancel_cases i
  · rw [same]
    exact ⟨.refl _, rfl, rfl, rfl, rfl, rfl, rfl⟩
  · rw [given]
    exact p.sameReading_giveUp i o

end Party

/-! ## The table -/

namespace State

variable {s s' : State} {e : Entry} {id : ConnId}

/-- The table names the connections that have not ended, and none twice. It may still name one that a
close has just ended. -/
structure Listed (s : State) : Prop where
  unique : s.table.Pairwise fun a b => a.id ≠ b.id
  named : ∀ {e}, e ∈ s.table → s.id? e.conn = some e.id
  listed : ∀ {k}, s.Open k → ∃ e ∈ s.table, e.conn = k
  emptied : s.ended ≠ none → s.table = []

/-- The table names the connections that have not ended, and no others. -/
structure Filed (s : State) : Prop extends Listed s where
  opened : ∀ {e}, e ∈ s.table → s.Open e.conn

/-- Whether the table holds a number. -/
def Holds (s : State) (id : ConnId) : Prop :=
  ∃ e ∈ s.table, e.id = id

theorem Filed.entry (h : s.Filed) (mem : e ∈ s.table) : s.id? e.conn = some e.id ∧ s.Open e.conn :=
  ⟨h.named mem, h.opened mem⟩

theorem find?_of_mem {table : List Entry} (unique : table.Pairwise fun a b => a.id ≠ b.id)
    (mem : e ∈ table) : table.find? (·.id = e.id) = some e := by
  induction table with
  | nil => cases mem
  | cons a rest ih =>
    obtain ⟨others, unique⟩ := List.pairwise_cons.mp unique
    rw [List.find?_cons]
    rcases List.mem_cons.mp mem with rfl | mem
    · simp
    · simp [others e mem, ih unique mem]

theorem entry?_of_mem (h : s.Listed) (mem : e ∈ s.table) : s.entry? e.id = some e :=
  find?_of_mem h.unique mem

theorem Listed.eq_of_id (h : s.Listed) {a b : Entry} (mem : a ∈ s.table) (mem' : b ∈ s.table)
    (same : a.id = b.id) : a = b := by
  have found := entry?_of_mem h mem
  rw [same, entry?_of_mem h mem'] at found
  exact (Option.some.inj found).symm

theorem Listed.eq_of_conn (h : s.Listed) {a b : Entry} (mem : a ∈ s.table) (mem' : b ∈ s.table)
    (same : a.conn = b.conn) : a = b := by
  have name := h.named mem
  rw [same, h.named mem'] at name
  exact h.eq_of_id mem mem' (Option.some.inj name).symm

/-- A name that no connection ever had is not open. -/
theorem Listed.unknown (h : s.Listed) (new : ∀ k, s.id? k ≠ some id) : ∀ a ∈ s.table, a.id ≠ id :=
  fun a mem same => new a.conn (same ▸ h.named mem)

/-- The table holds the number of a connection that has not ended. -/
theorem Listed.holds (h : s.Listed) {k : ConnKey} (known : s.id? k = some id) (opened : s.Open k) :
    s.Holds id := by
  obtain ⟨a, mem, rfl⟩ := h.listed opened
  exact ⟨a, mem, Option.some.inj ((h.named mem).symm.trans known)⟩

theorem not_holds_iff : ¬s.Holds id ↔ ∀ a ∈ s.table, a.id ≠ id :=
  ⟨fun h a mem same => h ⟨a, mem, same⟩, fun unknown ⟨a, mem, same⟩ => unknown a mem same⟩

theorem mem_of_entry? (found : s.entry? id = some e) : e ∈ s.table ∧ e.id = id :=
  ⟨List.mem_of_find?_eq_some found, by simpa using List.find?_some found⟩

theorem ne_of_entry?_eq_none (unknown : s.entry? id = none) : ∀ e ∈ s.table, e.id ≠ id := by
  simpa [ entry?] using unknown

theorem Listed.congr (h : s.Listed) (ids : ∀ k, s'.id? k = s.id? k)
    (isOpen : ∀ k, s'.Open k → s.Open k) (table : s'.table = s.table) (ended : s'.ended = s.ended) :
    s'.Listed := by
  refine ⟨table ▸ h.unique, fun mem => ?_, fun {k} opened => ?_, fun ended' => ?_⟩
  · rw [ids]
    exact h.named (table ▸ mem)
  · exact table ▸ h.listed (isOpen k opened)
  · exact table ▸ h.emptied (ended ▸ ended')

theorem Filed.congr (h : s.Filed) (ids : ∀ k, s'.id? k = s.id? k)
    (isOpen : ∀ k, s'.Open k ↔ s.Open k) (table : s'.table = s.table) (ended : s'.ended = s.ended) :
    s'.Filed :=
  ⟨h.toListed.congr ids (fun k => (isOpen k).mp) table ended,
    fun mem => (isOpen _).mpr (h.opened (table ▸ mem))⟩

theorem SameReading.listed (same : s.SameReading s') (h : s.Listed) : s'.Listed :=
  h.congr same.ids (fun k => (same.isOpen k).mp) same.table same.ended

/-! ## Changing one connection -/

variable {f : Conn → Conn} {k : ConnKey}

theorem getElem?_modifyConn {c : Conn} (known : s.conns[k]? = some c) (l : ConnKey) :
    (s.modifyConn k f).conns[l]? = if k = l then some (f c) else s.conns[l]? := by
  unfold modifyConn
  rw [Array.getElem?_modify]
  split
  · next here => rw [← here, known, Option.map_some]
  · rfl

theorem map_modifyConn {α : Type} {g : Conn → α} (keeps : ∀ c, g (f c) = g c) (l : ConnKey) :
    (s.modifyConn k f).conns[l]?.map g = s.conns[l]?.map g := by
  unfold modifyConn
  rw [Array.getElem?_modify]
  split
  · simp [Function.comp_def, keeps]
  · rfl

theorem sameSending_modifyConn (ids : ∀ c, (f c).id = c.id)
    (next : ∀ c, (f c).nextWrite = c.nextWrite) : s.SameSending (s.modifyConn k f) :=
  ⟨fun l => map_modifyConn ids l, fun l => map_modifyConn next l, rfl, rfl⟩

theorem waiting_modifyConn {data : List Bytes} (known : s.id? k = some id)
    (adds : ∀ c, (f c).waiting = c.waiting ++ data) (l : ConnKey) :
    (s.modifyConn k f).waiting l = s.waiting l ++ if k = l then data else [] := by
  unfold waiting modifyConn
  rw [Array.getElem?_modify]
  split
  · next same =>
    obtain ⟨c, known, -⟩ := Option.map_eq_some_iff.mp known
    rw [← same, known]
    exact adds c
  · rw [List.append_nil]

theorem waiting_modifyConn_of_keeps (keeps : ∀ c, (f c).waiting = c.waiting) (l : ConnKey) :
    (s.modifyConn k f).waiting l = s.waiting l :=
  congrArg (·.getD []) (@map_modifyConn s f k _ _ keeps l)

theorem isOpen_modifyConn_of_keeps (keeps : ∀ c, (f c).terminal = c.terminal) (l : ConnKey) :
    (s.modifyConn k f).Open l ↔ s.Open l := by
  rw [isOpen_iff, isOpen_iff, map_modifyConn keeps]

theorem isOpen_modifyConn_of_ends (ends : ∀ c, (f c).terminal ≠ none) (l : ConnKey) :
    (s.modifyConn k f).Open l ↔ s.Open l ∧ k ≠ l := by
  unfold Open modifyConn
  simp only [Array.getElem?_modify]
  split
  · next same =>
    refine ⟨fun ⟨c, known, opened⟩ => ?_, fun ⟨_, other⟩ => absurd same other⟩
    obtain ⟨c, -, rfl⟩ := Option.map_eq_some_iff.mp known
    exact absurd opened (ends c)
  · next other => exact ⟨fun opened => ⟨opened, other⟩, fun opened => opened.1⟩

/-! ## Ending a connection -/

/-- A connection is ended and taken out of the table. -/
def retire (s : State) (e : Entry) (f : Conn → Conn) : State :=
  (s.modifyConn e.conn f).remove e.id

theorem mem_retire {a : Entry} : a ∈ (s.retire e f).table ↔ a ∈ s.table ∧ a.id ≠ e.id := by
  simp [retire, remove, modifyConn]

theorem isOpen_retire (ends : ∀ c, (f c).terminal ≠ none) (k : ConnKey) :
    (s.retire e f).Open k ↔ s.Open k ∧ e.conn ≠ k :=
  isOpen_modifyConn_of_ends ends k

theorem id?_retire (ids : ∀ c, (f c).id = c.id) (k : ConnKey) : (s.retire e f).id? k = s.id? k :=
  map_modifyConn ids k

theorem Listed.retire (h : s.Listed) (mem : e ∈ s.table) (ids : ∀ c, (f c).id = c.id)
    (ends : ∀ c, (f c).terminal ≠ none) : (s.retire e f).Listed := by
  refine ⟨h.unique.filter _, fun mem' => ?_, fun {k} opened => ?_, fun ended => ?_⟩
  · rw [id?_retire ids]
    exact h.named (mem_retire.mp mem').1
  · obtain ⟨opened, other⟩ := (isOpen_retire ends k).mp opened
    obtain ⟨a, mem', rfl⟩ := h.listed opened
    refine ⟨a, mem_retire.mpr ⟨mem', fun same => ?_⟩, rfl⟩
    exact other (congrArg Entry.conn (h.eq_of_id mem' mem same)).symm
  · have empty := h.emptied ended
    rw [empty] at mem
    cases mem

theorem Filed.retire (h : s.Filed) (mem : e ∈ s.table) (ids : ∀ c, (f c).id = c.id)
    (ends : ∀ c, (f c).terminal ≠ none) : (s.retire e f).Filed := by
  refine ⟨h.toListed.retire mem ids ends, fun {a} mem' => ?_⟩
  obtain ⟨mem', other⟩ := mem_retire.mp mem'
  refine (isOpen_retire ends a.conn).mpr ⟨h.opened mem', fun same => ?_⟩
  exact other (congrArg Entry.id (h.eq_of_conn mem mem' same)).symm

theorem sameSending_retire (ids : ∀ c, (f c).id = c.id)
    (next : ∀ c, (f c).nextWrite = c.nextWrite) : s.SameSending (s.retire e f) :=
  ⟨id?_retire ids, fun l => map_modifyConn next l, rfl, rfl⟩

theorem waiting_retire (keeps : ∀ c, (f c).waiting = c.waiting) (k : ConnKey) :
    (s.retire e f).waiting k = s.waiting k :=
  waiting_modifyConn_of_keeps keeps k

/-- What the abort of a connection does to it. -/
def aborting (reason : Reason) (c : Conn) : Conn :=
  (c.finish (.aborted reason)).hand (.abort reason)

theorem terminal_aborting (reason : Reason) (c : Conn) : (aborting reason c).terminal ≠ none :=
  nofun

theorem waiting_aborting (reason : Reason) (c : Conn) : (aborting reason c).waiting = c.waiting := by
  rw [aborting, Conn.waiting_hand, Conn.waiting_finish]
  exact List.append_nil _

theorem abort_of_mem (h : s.Listed) (mem : e ∈ s.table) (reason : Reason) :
    s.abort e.id reason = s.retire e (aborting reason) := by
  rw [abort, entry?_of_mem h mem]
  rfl

/-- The first act of a close ends a connection that has not ended, and nothing else. -/
theorem finish?_cases (s : State) (k : ConnKey) :
    ¬s.Open k ∧ s.finish? k = none ∨
      s.Open k ∧ ∃ id, s.id? k = some id ∧ s.finish? k = some (s.modifyConn k (·.finish .closed), id) := by
  unfold finish?
  cases known : s.conns[k]? with
  | none => exact .inl ⟨fun ⟨_, known', _⟩ => (nomatch known.symm.trans known'), rfl⟩
  | some c =>
    dsimp only
    split
    · next ended =>
      refine .inl ⟨fun ⟨d, known', opened⟩ => ?_, rfl⟩
      cases known.symm.trans known'
      rw [opened] at ended
      cases ended
    · next goesOn =>
      exact .inr ⟨⟨c, known, by simpa using goesOn⟩, c.id, id?_of_getElem? known, rfl⟩

theorem sameSending_finish (s : State) (k : ConnKey) :
    s.SameSending (s.modifyConn k (·.finish .closed)) :=
  sameSending_modifyConn (fun _ => rfl) fun _ => rfl

/-- The second act takes the number out of the table, if it is there. -/
theorem forget?_cases (s : State) (id : ConnId) :
    ¬s.Holds id ∧ s.forget? id = none ∨ s.Holds id ∧ s.forget? id = some (s.remove id) := by
  unfold forget?
  cases found : s.entry? id with
  | none => exact .inl ⟨not_holds_iff.mpr (ne_of_entry?_eq_none found), rfl⟩
  | some a => exact .inr ⟨⟨a, mem_of_entry? found⟩, rfl⟩

theorem mem_remove {a : Entry} : a ∈ (s.remove id).table ↔ a ∈ s.table ∧ a.id ≠ id := by
  simp [remove]

theorem holds_remove {id' : ConnId} : (s.remove id).Holds id' ↔ s.Holds id' ∧ id' ≠ id := by
  simp only [Holds, mem_remove]
  constructor
  · rintro ⟨a, ⟨mem, other⟩, rfl⟩
    exact ⟨⟨a, mem, rfl⟩, other⟩
  · rintro ⟨⟨a, mem, rfl⟩, other⟩
    exact ⟨a, ⟨mem, other⟩, rfl⟩

/-- A number goes whose connection has ended. -/
theorem Listed.remove (h : s.Listed) (ended : ∀ k, s.id? k = some id → ¬s.Open k) :
    (s.remove id).Listed := by
  refine ⟨h.unique.filter _, fun mem => h.named (mem_remove.mp mem).1, fun {k} opened => ?_,
    fun ended' => ?_⟩
  · obtain ⟨a, mem, rfl⟩ := h.listed opened
    exact ⟨a, mem_remove.mpr ⟨mem, fun same => ended a.conn (same ▸ h.named mem) opened⟩, rfl⟩
  · have empty : s.table = [] := h.emptied ended'
    simp [State.remove, empty]

/-- What a close leads to, whatever the table says. -/
theorem close_outcomes (s : State) (k : ConnKey) :
    ¬s.Open k ∧ s.close k = (s, none) ∨ s.Open k ∧ ∃ id, s.id? k = some id ∧
      (¬s.Holds id ∧ s.close k = (s.modifyConn k (·.finish .closed), none) ∨
        s.Holds id ∧ s.close k = ((s.modifyConn k (·.finish .closed)).remove id, some id)) := by
  unfold close
  obtain ⟨ended, nothing⟩ | ⟨opened, id, known, finished⟩ := s.finish?_cases k
  · rw [nothing]
    exact .inl ⟨ended, rfl⟩
  · rw [finished]
    refine .inr ⟨opened, id, known, ?_⟩
    dsimp only
    obtain ⟨gone, nothing⟩ | ⟨found, forgotten⟩ :=
      (s.modifyConn k (·.finish .closed)).forget?_cases id
    · rw [nothing]
      exact .inl ⟨gone, rfl⟩
    · rw [forgotten]
      exact .inr ⟨found, rfl⟩

theorem close_of_open (h : s.Listed) (opened : s.Open k) : ∃ e ∈ s.table, e.conn = k ∧
    s.close k = (s.retire e (·.finish .closed), some e.id) := by
  obtain ⟨e, mem, rfl⟩ := h.listed opened
  obtain ⟨ended, -⟩ | ⟨-, id, known, ⟨gone, -⟩ | ⟨-, closed⟩⟩ := s.close_outcomes e.conn
  · exact absurd opened ended
  · exact absurd ⟨e, mem, Option.some.inj ((h.named mem).symm.trans known)⟩ gone
  · cases (h.named mem).symm.trans known
    exact ⟨e, mem, rfl, closed⟩

/-- A close ends a connection that has not ended, and nothing else. -/
theorem close_cases (h : s.Listed) (k : ConnKey) :
    s.close k = (s, none) ∨ ∃ e ∈ s.table, e.conn = k ∧
      s.close k = (s.retire e (·.finish .closed), some e.id) := by
  obtain ⟨-, same⟩ | ⟨opened, -⟩ := s.close_outcomes k
  · exact .inl same
  · exact .inr (close_of_open h opened)

/-! ## Handing over -/

/-- An entry after a payload for another entry, or for itself, was handed over. -/
def advance (e a : Entry) : Entry :=
  if a.id = e.id then { a with nextRead := a.nextRead + 1 } else a

theorem advance_same (e a : Entry) : (advance e a).id = a.id ∧ (advance e a).conn = a.conn := by
  unfold advance
  split <;> exact ⟨rfl, rfl⟩

/-- The next payload of an open connection is handed over. -/
def deliver (s : State) (e : Entry) (data : Bytes) : State :=
  { s with table := s.table.map (advance e) }.modifyConn e.conn (·.hand (.payload data))

theorem mem_deliver {a : Entry} {data : Bytes} :
    a ∈ (s.deliver e data).table ↔ ∃ b ∈ s.table, advance e b = a :=
  List.mem_map

theorem sameSending_deliver (data : Bytes) : s.SameSending (s.deliver e data) := by
  have same : s.SameSending (s.modifyConn e.conn (·.hand (.payload data))) :=
    sameSending_modifyConn (fun _ => rfl) fun _ => rfl
  exact ⟨same.ids, same.next, same.turn, same.nextTicket⟩

theorem holds_deliver {data : Bytes} : (s.deliver e data).Holds id ↔ s.Holds id := by
  simp only [Holds, mem_deliver]
  constructor
  · rintro ⟨_, ⟨b, mem, rfl⟩, rfl⟩
    exact ⟨b, mem, ((advance_same e b).1).symm⟩
  · rintro ⟨b, mem, rfl⟩
    exact ⟨_, ⟨b, mem, rfl⟩, (advance_same e b).1⟩

theorem id?_deliver (data : Bytes) (k : ConnKey) : (s.deliver e data).id? k = s.id? k :=
  (sameSending_deliver data).ids k

theorem isOpen_deliver (data : Bytes) (k : ConnKey) : (s.deliver e data).Open k ↔ s.Open k := by
  unfold deliver
  rw [isOpen_modifyConn_of_keeps]
  · rfl
  · exact fun _ => rfl

theorem waiting_deliver {data : Bytes} (known : s.id? e.conn = some id) (k : ConnKey) :
    (s.deliver e data).waiting k = s.waiting k ++ if e.conn = k then [data] else [] := by
  have known' : ({ s with table := s.table.map (advance e) } : State).id? e.conn = some id := known
  unfold deliver
  rw [waiting_modifyConn known']
  · rfl
  · intro c
    rw [Conn.waiting_hand]
    rfl

theorem Listed.deliver (h : s.Listed) (data : Bytes) : (s.deliver e data).Listed := by
  refine ⟨?_, fun {a} mem => ?_, fun {k} opened => ?_, fun ended => ?_⟩
  · refine List.pairwise_map.mpr (h.unique.imp fun {a b} other => ?_)
    rw [(advance_same e a).1, (advance_same e b).1]
    exact other
  · obtain ⟨b, mem', rfl⟩ := mem_deliver.mp mem
    rw [(advance_same e b).1, (advance_same e b).2, id?_deliver]
    exact h.named mem'
  · obtain ⟨b, mem, rfl⟩ := h.listed ((isOpen_deliver data k).mp opened)
    exact ⟨_, mem_deliver.mpr ⟨b, mem, rfl⟩, (advance_same e b).2⟩
  · change s.table.map _ = []
    rw [h.emptied ended]
    rfl

theorem Filed.deliver (h : s.Filed) (data : Bytes) : (s.deliver e data).Filed := by
  refine ⟨h.toListed.deliver data, fun {a} mem => ?_⟩
  obtain ⟨b, mem', rfl⟩ := mem_deliver.mp mem
  rw [(advance_same e b).2, isOpen_deliver]
  exact h.opened mem'

/-! ## Opening a connection -/

/-- A connection is added, with what is handed over to it at once. -/
def enroll (s : State) (id : ConnId) (inbox : List Inbound) (nextRead : UInt64) : State :=
  { s with
    conns := s.conns.push { id, inbox }
    table := { id, conn := s.conns.size, nextRead } :: s.table }

section Enroll

variable {inbox : List Inbound} {nextRead : UInt64}

theorem map_enroll {α : Type} (g : Conn → α) (k : ConnKey) :
    (s.enroll id inbox nextRead).conns[k]?.map g =
      if k = s.conns.size then some (g { id, inbox }) else s.conns[k]?.map g := by
  unfold enroll
  rw [Array.getElem?_push]
  split <;> rfl

theorem id?_size : s.id? s.conns.size = none := by
  simp [id?]

theorem ne_size {k : ConnKey} (known : s.id? k = some id) : k ≠ s.conns.size := fun last => by
  rw [last, id?_size] at known
  cases known

theorem isOpen_enroll (k : ConnKey) :
    (s.enroll id inbox nextRead).Open k ↔ k = s.conns.size ∨ s.Open k := by
  rw [isOpen_iff, isOpen_iff, map_enroll]
  split
  · next last => exact ⟨fun _ => .inl last, fun _ => rfl⟩
  · next other => exact ⟨.inr, fun h => h.resolve_left other⟩

theorem waiting_enroll (k : ConnKey) : (s.enroll id inbox nextRead).waiting k =
    if k = s.conns.size then inbox.filterMap Inbound.payload? else s.waiting k := by
  unfold waiting
  rw [map_enroll]
  split <;> rfl

theorem holds_enroll {id' : ConnId} :
    (s.enroll id inbox nextRead).Holds id' ↔ id' = id ∨ s.Holds id' := by
  simp [Holds, enroll, eq_comm]

theorem Listed.enroll (h : s.Listed) (alive : s.ended = none) (unknown : ∀ a ∈ s.table, a.id ≠ id) :
    (s.enroll id inbox nextRead).Listed := by
  have named (k : ConnKey) : (s.enroll id inbox nextRead).id? k =
      if k = s.conns.size then some id else s.id? k := map_enroll _ k
  refine ⟨List.pairwise_cons.mpr ⟨fun a mem same => ?_, h.unique⟩, fun {a} mem => ?_,
    fun {k} opened => ?_, fun ended => absurd alive ended⟩
  · exact unknown a mem same.symm
  · rw [named]
    rcases List.mem_cons.mp mem with rfl | mem
    · exact if_pos rfl
    · exact (if_neg (ne_size (h.named mem))).trans (h.named mem)
  · obtain rfl | opened := (isOpen_enroll k).mp opened
    · exact ⟨_, List.mem_cons_self, rfl⟩
    · obtain ⟨a, mem, same⟩ := h.listed opened
      exact ⟨a, List.mem_cons_of_mem _ mem, same⟩

theorem Filed.enroll (h : s.Filed) (alive : s.ended = none) (unknown : ∀ a ∈ s.table, a.id ≠ id) :
    (s.enroll id inbox nextRead).Filed := by
  refine ⟨h.toListed.enroll alive unknown, fun {a} mem => (isOpen_enroll a.conn).mpr ?_⟩
  rcases List.mem_cons.mp mem with rfl | mem
  · exact .inl rfl
  · exact .inr (h.opened mem)

end Enroll

theorem filter_eq_self_of_ne (unknown : ∀ a ∈ s.table, a.id ≠ id) :
    s.table.filter (·.id ≠ id) = s.table :=
  List.filter_eq_self.mpr fun a mem => by simpa using unknown a mem

theorem register_eq_enroll (unknown : ∀ a ∈ s.table, a.id ≠ id) :
    s.register id = (s.enroll id [] 0, s.conns.size) := by
  simp only [register, filter_eq_self_of_ne unknown, enroll]

/-- A connection that is added and then handed its first payload. -/
theorem enroll_handed (unknown : ∀ a ∈ s.table, a.id ≠ id) (data : Bytes) :
    ({ s.enroll id [] 0 with
      table := (s.enroll id [] 0).table.map fun a : Entry =>
        if a.id = id then { a with nextRead := 1 } else a }).modifyConn s.conns.size
          (·.hand (.payload data)) = s.enroll id [.payload data] 1 := by
  have others :
      s.table.map (fun a : Entry => if a.id = id then { a with nextRead := 1 } else a) = s.table := by
    rw [List.map_congr_left fun a mem => if_neg (unknown a mem), List.map_id']
  have conns : (s.conns.push { id }).modify s.conns.size (·.hand (.payload data)) =
      s.conns.push { id, inbox := [.payload data] } := by
    refine Array.ext_getElem? fun k => ?_
    rw [Array.getElem?_modify, Array.getElem?_push, Array.getElem?_push]
    split
    · next last =>
      rw [if_pos last.symm, if_pos last.symm]
      rfl
    · next other => rw [if_neg (Ne.symm other), if_neg (Ne.symm other)]
  simp only [enroll, modifyConn, List.map_cons, if_true, others, conns]

/-- A dial opens a connection, unless the session has ended. -/
theorem dial_of_alive (alive : s.ended = none) (unknown : ∀ a ∈ s.table, a.id ≠ ⟨s.nextId⟩) :
    s.dial.1 = { s.enroll ⟨s.nextId⟩ [] 0 with nextId := s.nextId + 1 } := by
  have added : ({ s with nextId := s.nextId + 1 } : State).register ⟨s.nextId⟩ = _ :=
    register_eq_enroll unknown
  unfold dial
  split
  · next e ended => cases alive.symm.trans ended
  · rw [added]
    rfl

/-- Connections that are numbered upwards leave the next number free, until the numbers come round. -/
theorem new_nextId (dialed : ∀ {k id}, s.id? k = some id → id = ⟨UInt64.ofNat k⟩)
    (next : s.nextId = UInt64.ofNat s.conns.size) (fits : s.conns.size < UInt64.size) (k : ConnKey) :
    s.id? k ≠ some ⟨s.nextId⟩ := by
  intro known
  have inside : k < s.conns.size := Nat.not_le.mp fun outside => by
    rw [id?_eq_none_iff.mpr outside] at known
    cases known
  have same : s.nextId = UInt64.ofNat k := congrArg ConnId.val (dialed known)
  rw [next] at same
  have same := congrArg UInt64.toNat same
  rw [UInt64.toNat_ofNat_of_lt' fits, UInt64.toNat_ofNat_of_lt' (Nat.lt_trans inside fits)] at same
  exact Nat.lt_irrefl k (same ▸ inside)

theorem size_dial (alive : s.ended = none) : s.dial.1.conns.size = s.conns.size + 1 := by
  unfold dial
  split
  · next e ended => cases alive.symm.trans ended
  · exact Array.size_push _

theorem dial_of_ended (ended : s.ended ≠ none) : s.dial.1 = s := by
  unfold dial
  split
  · rfl
  · next alive => exact absurd alive ended

/-! ## Envelopes -/

/-- Why a connection is ended whose peer left out payloads. -/
def gap (seq expected : UInt64) : Reason :=
  .protocol s!"payload {seq.toNat} when {expected.toNat} was expected"

/-- Whether the first payload for a number that is not open opens a connection. -/
structure Welcomes (s : State) : Prop where
  role : s.role = .accept
  accepting : s.accepting = true
  listening : s.listening = true

/-- What an envelope can lead to: what changes at this end, and what the peer is told. -/
inductive Dispatched (s : State) (e : Envelope) : State × Option Reason → Prop
  | ignored (old : ∀ a ∈ s.table, a.id = e.conn →
      ∃ seq data, e.content = .payload seq data ∧ seq < a.nextRead)
    (known : ∀ seq data, e.content = .payload seq data → s.ended = none →
      ∃ a ∈ s.table, a.id = e.conn) : Dispatched s e (s, none)
  | aborted {a : Entry} {reason : Reason} (mem : a ∈ s.table) (named : a.id = e.conn)
    (content : e.content = .abort reason) : Dispatched s e (s.retire a (aborting reason), none)
  | delivered {a : Entry} {data : Bytes} (mem : a ∈ s.table) (named : a.id = e.conn)
    (content : e.content = .payload a.nextRead data) : Dispatched s e (s.deliver a data, none)
  | faulted {a : Entry} {seq : UInt64} {data : Bytes} (mem : a ∈ s.table) (named : a.id = e.conn)
    (content : e.content = .payload seq data) (beyond : a.nextRead < seq) :
    Dispatched s e (s.retire a (aborting (gap seq a.nextRead)), some (gap seq a.nextRead))
  | refused {seq : UInt64} {data : Bytes} {reason : Reason} {accepting : Bool} (alive : s.ended = none)
    (unknown : ∀ a ∈ s.table, a.id ≠ e.conn) (content : e.content = .payload seq data)
    (gone : reason = .gone ∨ reason = .off) (unwelcome : seq = 0 → ¬s.Welcomes)
    (deaf : s.listening = true → accepting = s.accepting) :
    Dispatched s e ({ s with accepting }, some reason)
  | opened {data : Bytes} (alive : s.ended = none) (welcome : s.Welcomes)
    (unknown : ∀ a ∈ s.table, a.id ≠ e.conn) (content : e.content = .payload 0 data) :
    Dispatched s e ({ s.enroll e.conn [.payload data] 1 with
      accepted := s.accepted ++ [s.conns.size] }, none)

theorem dispatched_unknown {e : Envelope} {seq : UInt64} {data : Bytes} (alive : s.ended = none)
    (unknown : ∀ a ∈ s.table, a.id ≠ e.conn) (content : e.content = .payload seq data) :
    Dispatched s e (s.dispatchUnknown e.conn seq data) := by
  have refused {reason : Reason} (gone : reason = .gone ∨ reason = .off)
      (unwelcome : seq = 0 → ¬s.Welcomes) : Dispatched s e (s, some reason) :=
    .refused alive unknown content gone unwelcome fun _ => rfl
  unfold dispatchUnknown
  split
  · next role =>
    have unwelcome (_ : seq = 0) (h : s.Welcomes) : False := nomatch role.symm.trans h.role
    split
    · exact refused (.inr rfl) unwelcome
    · exact refused (.inl rfl) unwelcome
  · next role =>
    split
    · next later => exact refused (.inl rfl) fun first => absurd first later
    · next first =>
      split
      · next shut => exact refused (.inr rfl) fun _ h => by simp [h.accepting] at shut
      · next accepting =>
        split
        · next deaf =>
          have deaf : s.listening = false := by simpa using deaf
          exact .refused alive unknown content (.inr rfl)
            (fun _ h => by rw [h.listening] at deaf; cases deaf)
            fun listening => by rw [listening] at deaf; cases deaf
        · next listening =>
          have first : seq = 0 := Decidable.not_not.mp first
          subst first
          rw [register_eq_enroll unknown]
          dsimp only
          rw [enroll_handed unknown]
          exact .opened alive ⟨role, by simpa using accepting, by simpa using listening⟩ unknown content

/-- The routing of envelopes has no other outcomes. -/
theorem dispatched_dispatch (h : s.Listed) (e : Envelope) : Dispatched s e (s.dispatch e) := by
  unfold dispatch
  split
  · next ended =>
    have ended := Option.isSome_iff_ne_none.mp ended
    refine .ignored (fun a mem => ?_) fun _ _ _ alive => absurd alive ended
    rw [h.emptied ended] at mem
    cases mem
  · next alive =>
    have alive : s.ended = none := by simpa using alive
    split
    · next reason content =>
      cases found : s.entry? e.conn with
      | none =>
        have unchanged : s.abort e.conn reason = s := by rw [abort, found]
        rw [unchanged]
        exact .ignored (fun a mem same => absurd same (ne_of_entry?_eq_none found a mem))
          fun _ _ payload => by cases content.symm.trans payload
      | some a =>
        obtain ⟨mem, named⟩ := mem_of_entry? found
        rw [← named, abort_of_mem h mem]
        exact .aborted mem named content
    · next seq data content =>
      split
      · next a found =>
        obtain ⟨mem, named⟩ := mem_of_entry? found
        unfold dispatchKnown
        split
        · next old =>
          refine .ignored (fun b mem' same => ⟨seq, data, content, ?_⟩) fun _ _ _ _ => ⟨a, mem, named⟩
          rw [h.eq_of_id mem' mem (same.trans named.symm)]
          exact old
        · next notOld =>
          split
          · next beyond =>
            dsimp only
            rw [abort_of_mem h mem]
            exact .faulted mem named content beyond
          · next notBeyond =>
            have next : seq = a.nextRead := UInt64.le_antisymm (UInt64.not_lt.mp notBeyond)
              (UInt64.not_lt.mp notOld)
            exact .delivered mem named (next ▸ content)
      · next found => exact dispatched_unknown alive (ne_of_entry?_eq_none found) content

/-! ## Reads and the end -/

theorem SameSending.refl (s : State) : s.SameSending s :=
  ⟨fun _ => rfl, fun _ => rfl, rfl, rfl⟩

theorem SameSending.trans {s'' : State} (h : s.SameSending s') (h' : s'.SameSending s'') :
    s.SameSending s'' :=
  ⟨fun k => (h'.ids k).trans (h.ids k), fun k => (h'.next k).trans (h.next k),
    h'.turn.trans h.turn, h'.nextTicket.trans h.nextTicket⟩

/-- What a read does to its connection. -/
theorem read?_eq_some {r : Except Error (Option Bytes)} (h : s.read? k = some (s', r)) :
    ∃ c c', s.conns[k]? = some c ∧ c.read? (s.table.any (·.conn = k)) = some (c', r) ∧
      s' = s.modifyConn k fun _ => c' := by
  unfold read? at h
  split at h
  · cases h
  · next c known =>
    obtain ⟨⟨c', r'⟩, read, same⟩ := Option.map_eq_some_iff.mp h
    cases same
    exact ⟨c, c', known, read, rfl⟩

/-- A connection put in the place of one keeps what the two agree in. -/
theorem map_replaceConn {α : Type} {g : Conn → α} {c c' : Conn} (known : s.conns[k]? = some c)
    (same : g c' = g c) (l : ConnKey) :
    (s.modifyConn k fun _ => c').conns[l]?.map g = s.conns[l]?.map g := by
  rw [getElem?_modifyConn known]
  split
  · next here =>
    rw [← here, known]
    exact congrArg some same
  · rfl

theorem isOpen_replaceConn {c c' : Conn} (known : s.conns[k]? = some c)
    (same : c'.terminal = c.terminal) (l : ConnKey) :
    (s.modifyConn k fun _ => c').Open l ↔ s.Open l := by
  rw [isOpen_iff, isOpen_iff, map_replaceConn known same]

theorem Listed.read (h : s.Listed) {r : Except Error (Option Bytes)}
    (read : s.read? k = some (s', r)) : s'.Listed := by
  obtain ⟨c, c', known, given, rfl⟩ := read?_eq_some read
  obtain ⟨id, -, terminal⟩ := Conn.read?_same given
  exact h.congr (map_replaceConn known id) (fun l => (isOpen_replaceConn known terminal l).mp) rfl rfl

theorem Filed.read (h : s.Filed) {r : Except Error (Option Bytes)} (read : s.read? k = some (s', r)) :
    s'.Filed := by
  obtain ⟨c, c', known, given, rfl⟩ := read?_eq_some read
  obtain ⟨id, -, terminal⟩ := Conn.read?_same given
  exact h.congr (map_replaceConn known id) (isOpen_replaceConn known terminal) rfl rfl

theorem sameSending_read {r : Except Error (Option Bytes)} (read : s.read? k = some (s', r)) :
    s.SameSending s' := by
  obtain ⟨c, c', known, given, rfl⟩ := read?_eq_some read
  obtain ⟨id, next, -⟩ := Conn.read?_same given
  exact ⟨map_replaceConn known id, map_replaceConn known next, rfl, rfl⟩

/-- What a read takes of the payloads that wait. -/
theorem waiting_read {r : Except Error (Option Bytes)} (read : s.read? k = some (s', r))
    (l : ConnKey) :
    s.waiting l = (if k = l then (readPayload? r).toList else []) ++ s'.waiting l := by
  obtain ⟨c, c', known, given, rfl⟩ := read?_eq_some read
  unfold waiting
  rw [getElem?_modifyConn known]
  split
  · next here =>
    subst here
    rw [known]
    exact Conn.waiting_read? given
  · rfl

theorem accept?_cases {r : Except Error ConnKey} (h : s.accept? = some (s', r)) :
    (∃ k rest, s.accepted = k :: rest ∧ s' = { s with accepted := rest } ∧ r = .ok k) ∨
      s' = s ∧ ∃ e, r = .error e := by
  unfold accept? at h
  split at h
  · next k rest line =>
    cases h
    exact .inl ⟨k, rest, line, rfl, rfl⟩
  · split at h <;> cases h
    exact .inr ⟨rfl, _, rfl⟩

variable (cause : Codec.Error)

theorem sameSending_breakConn (s : State) (table : List Entry) :
    s.SameSending (table.foldl (breakConn cause) s) := by
  induction table generalizing s with
  | nil => exact .refl s
  | cons a rest ih =>
    refine SameSending.trans ?_ (ih (s.breakConn cause a))
    unfold breakConn
    exact sameSending_modifyConn (fun _ => rfl) fun _ => rfl

theorem waiting_breakConn (s : State) (table : List Entry) (k : ConnKey) :
    (table.foldl (breakConn cause) s).waiting k = s.waiting k := by
  induction table generalizing s with
  | nil => rfl
  | cons a rest ih =>
    rw [List.foldl_cons, ih]
    unfold waiting breakConn
    rw [map_modifyConn]
    intro c
    rw [Conn.waiting_hand, Conn.waiting_finish]
    exact List.append_nil _

theorem isOpen_breakConn (s : State) (table : List Entry) (k : ConnKey) :
    (table.foldl (breakConn cause) s).Open k ↔ s.Open k ∧ ∀ a ∈ table, a.conn ≠ k := by
  induction table generalizing s with
  | nil => simp
  | cons a rest ih =>
    rw [List.foldl_cons, ih]
    unfold breakConn
    rw [isOpen_modifyConn_of_ends]
    · simp [and_assoc]
    · exact fun _ => nofun

/-- The end of a session leaves all but its connections, its table and whether it accepts. -/
theorem teardown_rest (s : State) :
    { (s.teardown cause).1 with conns := #[], table := [], accepting := false, ended := none } =
      { s with conns := #[], table := [], accepting := false, ended := none } := by
  have broken (table : List Entry) : ∀ s : State,
      { table.foldl (breakConn cause) s with conns := #[] } = { s with conns := #[] } := by
    induction table with
    | nil => exact fun _ => rfl
    | cons a rest ih => exact fun s => ih (s.breakConn cause a)
  unfold teardown
  split
  · rfl
  · have same := congrArg (fun s : State =>
      { s with table := [], accepting := false, ended := none }) (broken s.table s)
    exact same

theorem table_teardown (h : s.Listed) : (s.teardown cause).1.table = [] := by
  unfold teardown
  split
  · next ended => exact h.emptied (by rw [ended]; nofun)
  · rfl

theorem sameSending_teardown (s : State) : s.SameSending (s.teardown cause).1 := by
  unfold teardown
  split
  · exact .refl s
  · have same := s.sameSending_breakConn cause s.table
    exact ⟨same.ids, same.next, same.turn, same.nextTicket⟩

theorem waiting_teardown (s : State) (k : ConnKey) :
    (s.teardown cause).1.waiting k = s.waiting k := by
  unfold teardown
  split
  · rfl
  · exact s.waiting_breakConn cause s.table k

theorem isOpen_of_teardown (opened : (s.teardown cause).1.Open k) : s.Open k := by
  unfold State.teardown at opened
  split at opened
  · exact opened
  · exact ((s.isOpen_breakConn cause s.table k).mp opened).1

theorem Listed.teardown (h : s.Listed) : (s.teardown cause).1.Listed := by
  unfold State.teardown
  split
  · exact h
  · refine ⟨.nil, nofun, fun {k} opened => ?_, fun _ => rfl⟩
    obtain ⟨opened, others⟩ := (s.isOpen_breakConn cause s.table k).mp opened
    obtain ⟨a, mem, same⟩ := h.listed opened
    exact absurd same (others a mem)

theorem Filed.teardown (h : s.Filed) : (s.teardown cause).1.Filed := by
  refine ⟨h.toListed.teardown cause, fun mem => ?_⟩
  rw [table_teardown cause h.toListed] at mem
  cases mem

end State

theorem Party.heard_read (p : Party) (k : ConnKey) : (p.read k).heard = p.heard := by
  unfold Party.read
  split <;> rfl

/-- The first act of a close, on the whole side. -/
theorem Party.finish_cases (p : Party) (k : ConnKey) :
    ¬p.state.Open k ∧ p.finish k = p ∨ p.state.Open k ∧ ∃ id, p.state.id? k = some id ∧
      p.finish k =
        { p with
          state := p.state.modifyConn k (·.finish .closed)
          closes := p.closes ++ [k]
          leaving := p.leaving ++ [id] } := by
  unfold Party.finish
  obtain ⟨ended, nothing⟩ | ⟨opened, id, known, finished⟩ := p.state.finish?_cases k
  · rw [nothing]
    exact .inl ⟨ended, rfl⟩
  · rw [finished]
    exact .inr ⟨opened, id, known, rfl⟩

/-- The second act of a close, on the whole side. -/
theorem Party.forget_cases (p : Party) (id : ConnId) :
    p.forget id = p ∨ id ∈ p.leaving ∧
      (¬p.state.Holds id ∧ p.forget id = { p with leaving := p.leaving.erase id } ∨
        p.state.Holds id ∧ p.forget id =
          { p with
            state := p.state.remove id
            leaving := p.leaving.erase id
            owing := p.owing ++ [id] }) := by
  unfold Party.forget
  split
  · next leaves =>
    refine .inr ⟨leaves, ?_⟩
    obtain ⟨gone, nothing⟩ | ⟨found, forgotten⟩ := p.state.forget?_cases id
    · rw [nothing]
      exact .inl ⟨gone, rfl⟩
    · rw [forgotten]
      exact .inr ⟨found, rfl⟩
  · exact .inl rfl

/-- The third act of a close. -/
theorem Party.announce_cases (p : Party) (id : ConnId) :
    p.announce id = p ∨ id ∈ p.owing ∧
      p.announce id = { p with owing := p.owing.erase id }.send (.abort id .closed) := by
  unfold Party.announce
  split
  · next owes => exact .inr ⟨owes, rfl⟩
  · exact .inl rfl

theorem Party.heard_finish (p : Party) (k : ConnKey) : (p.finish k).heard = p.heard := by
  obtain ⟨-, same⟩ | ⟨-, id, -, same⟩ := p.finish_cases k <;> rw [same]

theorem Party.heard_forget (p : Party) (id : ConnId) : (p.forget id).heard = p.heard := by
  obtain same | ⟨-, ⟨-, same⟩ | ⟨-, same⟩⟩ := p.forget_cases id <;> rw [same]

theorem Party.heard_announce (p : Party) (id : ConnId) : (p.announce id).heard = p.heard := by
  obtain same | ⟨-, same⟩ := p.announce_cases id <;> rw [same]
  rfl

/-- What an envelope leads to is done, and the peer told of it. -/
theorem Party.take_cases {p : Party} {r : Except Stream.Error (Option Bytes)} {e : Envelope}
    (listed : p.state.Listed) (given : Codec.ofRead Envelope.unpacked r = .ok (some e)) :
    ∃ state reason, p.state.Dispatched e (state, reason) ∧ p.take r =
      reason.elim { p with state } fun reason => { p with state }.send (.abort e.conn reason) := by
  have dispatched := State.dispatched_dispatch listed e
  unfold Party.take State.intake
  rw [given]
  dsimp only
  generalize p.state.dispatch e = outcome at dispatched ⊢
  obtain ⟨state, reason⟩ := outcome
  refine ⟨state, reason, dispatched, ?_⟩
  cases reason <;> rfl

theorem Party.flow_eq (p : Party) (stream : Stream.Endpoint) :
    ∃ stream', p.flow stream = { p with stream := stream' } := by
  unfold Party.flow
  split
  · exact ⟨stream, rfl⟩
  · exact ⟨p.stream, rfl⟩

/-- The next connection that waits is handed out, if there is one. -/
theorem Party.accept_cases (p : Party) : p.accept = p ∨ ∃ k rest, p.state.accepted = k :: rest ∧
    p.accept = { p with state := { p.state with accepted := rest }, handed := p.handed ++ [k] } := by
  unfold Party.accept
  split
  · next taken =>
    obtain ⟨k, rest, line, rfl, same⟩ | ⟨-, e, same⟩ := State.accept?_cases taken
    · cases same
      exact .inr ⟨_, rest, line, rfl⟩
    · cases same
  · next taken =>
    obtain ⟨_, _, _, _, same⟩ | ⟨rfl, -⟩ := State.accept?_cases taken
    · cases same
    · exact .inl rfl
  · exact .inl rfl

end Tether.Session
