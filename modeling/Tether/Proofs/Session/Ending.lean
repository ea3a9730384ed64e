import Tether.Proofs.Session.Parting

/-!
# What the reads of a connection answer

As long as the peer has told nothing of the end of a connection, and its own user has not closed it,
the reads of it give the payloads that came. The first that the peer tells of the end decides what
comes then: the reads give the rest of the payloads and behind them that end, for good. What is told
later finds the connection gone from the table.
-/

namespace Tether.Session

/-- The answers of reads that give some payloads. -/
def gives (data : List Bytes) : List (Except Error (Option Bytes)) :=
  data.map fun payload => .ok (some payload)

theorem gives_append (data more : List Bytes) : gives (data ++ more) = gives data ++ gives more :=
  List.map_append

/-- What the reads of a connection answer that the peer has ended for a reason. -/
def Reason.surface : Reason → Except Error (Option Bytes)
  | .closed => .ok none
  | reason => .error (.aborted reason)

theorem Inbound.answer_abort (reason : Reason) : (Inbound.abort reason).answer = reason.surface := by
  cases reason <;> rfl

theorem Reason.surface_of_ne {reason : Reason} (other : reason ≠ .closed) :
    reason.surface = .error (.aborted reason) := by
  cases reason with
  | closed => exact absurd rfl other
  | gone | off | protocol => rfl

theorem Reason.readPayload?_surface (reason : Reason) : readPayload? reason.surface = none := by
  cases reason <;> rfl

/-- Answers can be compared, so that runs can be evaluated. -/
instance decidableEqAnswer (r r' : Except Error (Option Bytes)) : Decidable (r = r') :=
  match r, r' with
  | .ok data, .ok data' => decidable_of_iff (data = data') ⟨congrArg _, Except.ok.inj⟩
  | .error e, .error e' => decidable_of_iff (e = e') ⟨congrArg _, Except.error.inj⟩
  | .ok _, .error _ => isFalse (by simp)
  | .error _, .ok _ => isFalse (by simp)

namespace Party

/-- What the reads of a connection answered. -/
def answers (p : Party) (k : ConnKey) : List (Except Error (Option Bytes)) :=
  p.reads.filterMap fun (l, r) => if l = k then some r else none

/-- The aborts of a connection among what was heard of the peer. -/
def told (p q : Party) (id : ConnId) : List Reason :=
  aborts id (q.sent.take p.heard)

/-- A connection that holds nothing but payloads for its reader. -/
structure Live (p : Party) (k : ConnKey) (c : Conn) : Prop where
  inbox : c.inbox = c.waiting.map .payload
  ended : c.ended = false
  answers : p.answers k = gives (p.got k)

/-- A connection that holds behind the payloads the end of which the peer told. Once it was read it
comes again and again. -/
structure Over (p q : Party) (k : ConnKey) (c : Conn) (reason : Reason) : Prop where
  whole : p.got k ++ c.waiting = (p.came q c.id).map Prod.snd
  terminal : c.terminal = some (.aborted reason)
  rest : (c.inbox = c.waiting.map .payload ++ [.abort reason] ∧ c.ended = false ∧
      p.answers k = gives (p.got k)) ∨
    c.inbox = [] ∧ c.ended = decide (reason = .closed) ∧
      ∃ n, p.answers k = gives (p.got k) ++ List.replicate n reason.surface

/-- A connection has ended by the close of its user, or by what was heard of it, which tells what its
reader gets. -/
structure Ends (p q : Party) (k : ConnKey) (c : Conn) : Prop where
  cause : c.terminal = none ∨ k ∈ p.closes ∨ p.told q c.id ≠ []
  live : k ∉ p.closes → p.told q c.id = [] → p.Live k c
  ended : ∀ {reason}, k ∉ p.closes → (p.told q c.id).head? = some reason → p.Over q k c reason

/-- How the connections of a side end. -/
structure Ending (p q : Party) : Prop where
  unread : ∀ {k}, p.state.id? k = none → p.answers k = []
  gone : ∀ {id}, p.told q id ≠ [] → ¬p.state.Holds id
  conns : ∀ {k c}, p.state.conns[k]? = some c → p.Ends q k c

variable {p p' q q' : Party} {k : ConnKey} {id : ConnId} {c c' : Conn}
  {r : Except Error (Option Bytes)}

theorem got_eq (p : Party) (k : ConnKey) : p.got k = (p.answers k).filterMap readPayload? := by
  unfold got answers
  rw [List.filterMap_filterMap]
  congr 1
  funext ⟨l, r⟩
  by_cases same : l = k <;> simp [same]

theorem got_of_answers (answers : p'.answers k = p.answers k) : p'.got k = p.got k := by
  rw [got_eq, answers, ← got_eq]

theorem answers_congr (reads : p'.reads = p.reads) (k : ConnKey) : p'.answers k = p.answers k := by
  rw [answers, reads, answers]

theorem answers_concat {l : ConnKey} (reads : p'.reads = p.reads ++ [(l, r)]) (k : ConnKey) :
    p'.answers k = p.answers k ++ if l = k then [r] else [] := by
  unfold answers
  rw [reads, List.filterMap_append]
  by_cases same : l = k <;> simp [same]

theorem told_congr (heard : p'.heard = p.heard) (heard_le : p.heard ≤ q.sent.length)
    (sent : q.sent <+: q'.sent) (id : ConnId) : p'.told q' id = p.told q id := by
  obtain ⟨more, sent⟩ := sent
  rw [told, heard, ← sent, List.take_append_of_le_length heard_le, told]

theorem parts_of_told (said : p.told q id ≠ []) : q.Parts id :=
  .inr (.inr fun silent => said (List.prefix_nil.mp (silent ▸ aborts_mono _ (List.take_prefix _ _))))

/-! ## One connection -/

theorem Live.congr (h : p.Live k c) (agree : c'.reading = c.reading)
    (answers : p'.answers k = p.answers k) : p'.Live k c' := by
  have inbox : c'.inbox = c.inbox := congrArg (·.inbox) agree
  have ended : c'.ended = c.ended := congrArg (·.ended) agree
  refine ⟨?_, ended.trans h.ended, ?_⟩
  · rw [inbox, Conn.waiting_congr inbox]
    exact h.inbox
  · rw [answers, got_of_answers answers]
    exact h.answers

theorem Over.congr {reason : Reason} (h : p.Over q k c reason) (agree : c'.reading = c.reading)
    (answers : p'.answers k = p.answers k) (came : p'.came q' c.id = p.came q c.id) :
    p'.Over q' k c' reason := by
  have name : c'.id = c.id := congrArg (·.id) agree
  have inbox : c'.inbox = c.inbox := congrArg (·.inbox) agree
  have ended : c'.ended = c.ended := congrArg (·.ended) agree
  have terminal : c'.terminal = c.terminal := congrArg (·.terminal) agree
  have waiting := Conn.waiting_congr inbox
  have got := got_of_answers answers
  refine ⟨?_, terminal.trans h.terminal, ?_⟩
  · rw [got, waiting, name, came]
    exact h.whole
  · rw [inbox, ended, answers, got, waiting]
    exact h.rest

theorem Ends.congr (h : p.Ends q k c) (agree : c'.reading = c.reading)
    (answers : p'.answers k = p.answers k) (closes : k ∈ p'.closes ↔ k ∈ p.closes)
    (told : p'.told q' c.id = p.told q c.id)
    (came : p.told q c.id ≠ [] → p'.came q' c.id = p.came q c.id) : p'.Ends q' k c' := by
  have name : c'.id = c.id := congrArg (·.id) agree
  have terminal : c'.terminal = c.terminal := congrArg (·.terminal) agree
  refine ⟨?_, fun held silent => ?_, fun held first => ?_⟩
  · rw [terminal, closes, name, told]
    exact h.cause
  · rw [name, told] at silent
    exact (h.live (mt closes.mpr held) silent).congr agree answers
  · rw [name, told] at first
    refine (h.ended (mt closes.mpr held) first).congr agree answers (came fun silent => ?_)
    rw [silent] at first
    cases first

theorem Live.deliver (h : p.Live k c) (data : Bytes) (answers : p'.answers k = p.answers k) :
    p'.Live k (c.hand (.payload data)) := by
  refine ⟨?_, h.ended, ?_⟩
  · rw [Conn.waiting_hand, List.map_append, ← h.inbox]
    rfl
  · rw [answers, got_of_answers answers]
    exact h.answers

theorem Live.abort (h : p.Live k c) (opened : c.terminal = none) (reason : Reason)
    (answers : p'.answers k = p.answers k)
    (whole : p.got k ++ c.waiting = (p'.came q c.id).map Prod.snd) :
    p'.Over q k (State.aborting reason c) reason := by
  refine ⟨?_, ?_, .inl ⟨?_, h.ended, ?_⟩⟩
  · rw [got_of_answers answers, State.waiting_aborting]
    exact whole
  · simp only [State.aborting, Conn.hand, Conn.finish, opened, Option.getD_none]
  · rw [State.waiting_aborting, ← h.inbox]
    rfl
  · rw [answers, got_of_answers answers]
    exact h.answers

/-- A read that gives a payload. -/
theorem gives_got_concat {data : Bytes} (answers : p.answers k = gives (p.got k))
    (reads : p'.reads = p.reads ++ [(k, .ok (some data))]) : p'.answers k = gives (p'.got k) := by
  rw [answers_concat reads, got_concat reads, answers, if_pos rfl, if_pos rfl, gives_append]
  rfl

theorem Live.read (h : p.Live k c) (given : c.read? true = some (c', r))
    (reads : p'.reads = p.reads ++ [(k, r)]) : p'.Live k c' := by
  obtain ⟨ended, -⟩ | ⟨-, ⟨i, rest, inbox, rfl, rfl⟩ | ⟨-, dry, -⟩⟩ := Conn.read?_cases given
  · cases h.ended.symm.trans ended
  · obtain ⟨data, more, waiting, rfl, rest'⟩ := List.map_eq_cons_iff.mp (h.inbox.symm.trans inbox)
    refine ⟨?_, rfl, gives_got_concat h.answers reads⟩
    rw [← rest', Conn.waiting]
    simp [List.filterMap_map, Function.comp_def, Inbound.payload?]
  · cases dry

theorem Over.read {reason : Reason} {fed : Bool} (h : p.Over q k c reason)
    (given : c.read? fed = some (c', r)) (reads : p'.reads = p.reads ++ [(k, r)])
    (came : p'.came q c.id = p.came q c.id) : p'.Over q k c' reason := by
  have got : p'.got k = p.got k ++ (readPayload? r).toList :=
    (got_concat reads k).trans (by rw [if_pos rfl])
  have answers : p'.answers k = p.answers k ++ [r] :=
    (answers_concat reads k).trans (by rw [if_pos rfl])
  have again {n : Nat} (before : p.answers k = gives (p.got k) ++ List.replicate n reason.surface)
      (same : r = reason.surface) :
      p'.answers k = gives (p'.got k) ++ List.replicate (n + 1) reason.surface := by
    rw [answers, got, before, same, reason.readPayload?_surface, List.replicate_succ',
      List.append_assoc, Option.toList_none, List.append_nil]
  refine ⟨?_, (Conn.read?_same given).2.2.trans h.terminal, ?_⟩
  · rw [got, List.append_assoc, ← Conn.waiting_read? given, (Conn.read?_same given).1, came]
    exact h.whole
  obtain ⟨inbox, ended, before⟩ | ⟨inbox, ended, n, before⟩ := h.rest <;>
    obtain ⟨ended', rfl, same⟩ | ⟨ended', ⟨i, rest, inbox', rfl, same⟩ | ⟨inbox', -, rfl, same⟩⟩ :=
      Conn.read?_cases given
  · cases ended.symm.trans ended'
  · rw [inbox] at inbox'
    cases waiting : c.waiting with
    | nil =>
      rw [waiting] at inbox'
      cases inbox'
      refine .inr ⟨rfl, by simp, 1, again ?_ (same.trans (Inbound.answer_abort reason))⟩
      rw [before, List.replicate_zero, List.append_nil]
    | cons data more =>
      rw [waiting] at inbox'
      cases inbox'
      refine .inl ⟨?_, rfl, gives_got_concat before (same ▸ reads)⟩
      simp [Conn.waiting, List.filterMap_append, List.filterMap_map, Function.comp_def,
        Inbound.payload?]
  · rw [inbox] at inbox'
    simp at inbox'
  · have closed : reason = .closed := of_decide_eq_true (ended ▸ ended')
    exact .inr ⟨inbox, ended, n + 1, again before (same.trans (closed ▸ rfl))⟩
  · cases inbox.symm.trans inbox'
  · have other : reason ≠ .closed := of_decide_eq_false (ended ▸ ended')
    refine .inr ⟨inbox, ended, n + 1, again before ?_⟩
    rw [same, h.terminal, Option.getD_some, Reason.surface_of_ne other]

theorem Ends.of_closed (closed : k ∈ p.closes) : p.Ends q k c :=
  ⟨.inr (.inl closed), fun held => absurd closed held, fun held => absurd closed held⟩

namespace Ending

/-- The connections hold for their readers what they held, and nothing new was heard of any end. -/
theorem congr (h : p.Ending q) (conns : p.state.SameConns p'.state)
    (holds : ∀ id, p'.state.Holds id → p.state.Holds id) (reads : p'.reads = p.reads)
    (closes : p'.closes = p.closes) (told : ∀ id, p'.told q' id = p.told q id)
    (came : ∀ id, p.told q id ≠ [] → p'.came q' id = p.came q id) : p'.Ending q' := by
  have answers := answers_congr reads
  refine ⟨fun unknown => ?_, fun {id} said => ?_, fun {k c'} known => ?_⟩
  · rw [answers]
    exact h.unread ((conns.ids _).symm.trans unknown)
  · rw [told] at said
    exact mt (holds id) (h.gone said)
  · obtain ⟨c, known, agree⟩ := conns.exists_conn known
    exact (h.conns known).congr agree.symm (answers k) (by rw [closes]) (told _) (came _)

/-- Only one connection changes, and of no other is anything heard. -/
theorem of_one (h : p.Ending q) (logged : p.Logged) (known : p.state.conns[k]? = some c)
    (conns : ∀ l : ConnKey, p'.state.conns[l]? = if k = l then some c' else p.state.conns[l]?)
    (answers : ∀ l, k ≠ l → p'.answers l = p.answers l)
    (closes : ∀ l, k ≠ l → (l ∈ p'.closes ↔ l ∈ p.closes))
    (told : ∀ id, c.id ≠ id → p'.told q id = p.told q id)
    (came : ∀ id, c.id ≠ id → p'.came q id = p.came q id)
    (gone : ∀ {id}, p'.told q id ≠ [] → ¬p'.state.Holds id) (one : p'.Ends q k c') :
    p'.Ending q := by
  refine ⟨fun {l} unknown => ?_, gone, fun {l d} known' => ?_⟩
  · have conn := conns l
    split at conn
    · rw [State.id?, conn] at unknown
      cases unknown
    · next other =>
      rw [answers l other]
      exact h.unread (by rw [State.id?, ← conn]; exact unknown)
  · rw [conns] at known'
    split at known'
    · next here =>
      cases known'
      exact here ▸ one
    · next other =>
      have apart : c.id ≠ d.id := fun same => other (logged.ids (State.id?_of_getElem? known)
        (same ▸ State.id?_of_getElem? known'))
      exact (h.conns known').congr rfl (answers l other) (closes l other) (told _ apart)
        fun _ => came _ apart

theorem of_sameReading (h : p.Ending q) (same : p.SameReading p') : p'.Ending q :=
  h.congr same.state.conns (fun id => by rw [State.Holds, same.state.table]; exact fun held => held)
    same.reads same.closes (fun id => by rw [told, same.heard, told])
    fun id _ => by rw [came, same.heard, came]

/-- The other side goes on. -/
theorem of_sent (h : p.Ending q) (hears : p.Hears q) (sent : q.sent <+: q'.sent) : p.Ending q' :=
  h.congr (fun _ => rfl) (fun _ held => held) rfl rfl (told_congr rfl hears.heard_le sent)
    fun id _ => came_congr rfl hears.heard_le sent id

/-- A connection is added of which nothing was heard but the payloads it is handed at once. -/
theorem enroll (h : p.Ending q) {data : List Bytes} (conns : ∀ k : ConnKey, p'.state.conns[k]? =
      if k = p.state.conns.size then some { id, inbox := data.map .payload } else p.state.conns[k]?)
    (holds : ∀ id', p'.state.Holds id' → id' = id ∨ p.state.Holds id')
    (reads : p'.reads = p.reads) (closes : p'.closes = p.closes)
    (told : ∀ id', p'.told q id' = p.told q id') (silent : p.told q id = [])
    (came : ∀ id', id' ≠ id → p'.came q id' = p.came q id') (new : ∀ k, p.state.id? k ≠ some id) :
    p'.Ending q := by
  have answers := answers_congr reads
  refine ⟨fun {k} unknown => ?_, fun {id'} said held => ?_, fun {k c} known => ?_⟩
  · have conn := conns k
    split at conn
    · rw [State.id?, conn] at unknown
      cases unknown
    · rw [answers]
      exact h.unread (by rw [State.id?, ← conn]; exact unknown)
  · rw [told] at said
    obtain rfl | held := holds id' held
    · exact said silent
    · exact h.gone said held
  · rw [conns] at known
    split at known
    · next last =>
      cases known
      have nothing : p'.answers k = [] := (answers k).trans (h.unread (last ▸ State.id?_size))
      refine ⟨.inl rfl, fun _ _ => ⟨?_, rfl, ?_⟩, fun _ first => ?_⟩
      · simp [Conn.waiting, List.filterMap_map, Function.comp_def, Inbound.payload?]
      · rw [got_eq, nothing]
        rfl
      · dsimp only at first
        rw [told, silent] at first
        cases first
    · have other : c.id ≠ id := fun same => new k (same ▸ State.id?_of_getElem? known)
      exact (h.conns known).congr rfl (answers k) (by rw [closes]) (told _) fun _ => came _ other

/-! ## The user -/

theorem read (h : p.Ending q) (inOrder : p.InOrder q) (k : ConnKey) : (p.read k).Ending q := by
  unfold Party.read
  split
  · next state r read =>
    obtain ⟨c, c', known, given, rfl⟩ := State.read?_eq_some read
    obtain ⟨name, -, terminal⟩ := Conn.read?_same given
    have ends := h.conns known
    refine h.of_one inOrder.sound.logged known (State.getElem?_modifyConn known)
      (fun l other => (answers_concat rfl l).trans (by rw [if_neg other, List.append_nil]))
      (fun _ _ => Iff.rfl) (fun _ _ => rfl) (fun _ _ => rfl) h.gone
      ⟨?_, fun held silent => ?_, fun held first => ?_⟩
    · rw [terminal, name]
      exact ends.cause
    · rw [name] at silent
      -- The reader of an open connection waits until something is handed over.
      have opened : p.state.Open k :=
        ⟨c, known, ends.cause.resolve_right fun cause => cause.elim held fun said => said silent⟩
      obtain ⟨a, mem, here⟩ := inOrder.listed.listed opened
      have fed : p.state.table.any (·.conn = k) = true := List.any_eq_true.mpr ⟨a, mem, by simp [here]⟩
      rw [fed] at given
      exact (ends.live held silent).read given rfl
    · rw [name] at first
      exact (ends.ended held first).read given rfl rfl
  · exact h

theorem finish (h : p.Ending q) (logged : p.Logged) (k : ConnKey) : (p.finish k).Ending q := by
  obtain ⟨-, same⟩ | ⟨⟨c, known, -⟩, id, -, same⟩ := p.finish_cases k <;> rw [same]
  · exact h
  refine h.of_one logged known (State.getElem?_modifyConn known) (fun _ _ => rfl) (fun l other => ?_)
    (fun _ _ => rfl) (fun _ _ => rfl) h.gone
    (.of_closed (List.mem_append_right _ List.mem_cons_self))
  change l ∈ p.closes ++ [k] ↔ l ∈ p.closes
  simp [Ne.symm other]

theorem forget (h : p.Ending q) (id : ConnId) : (p.forget id).Ending q := by
  obtain same | ⟨-, ⟨-, same⟩ | ⟨-, same⟩⟩ := p.forget_cases id <;> rw [same]
  · exact h
  · exact h.congr (fun _ => rfl) (fun _ held => held) rfl rfl (fun _ => rfl) fun _ _ => rfl
  · exact h.congr (fun _ => rfl) (fun _ held => (State.holds_remove.mp held).1) rfl rfl (fun _ => rfl)
      fun _ _ => rfl

theorem announce (h : p.Ending q) (id : ConnId) : (p.announce id).Ending q := by
  obtain same | ⟨-, same⟩ := p.announce_cases id <;> rw [same]
  · exact h
  · exact h.congr (fun _ => rfl) (fun _ held => held) rfl rfl (fun _ => rfl) fun _ _ => rfl

/-- Nothing was told of a name that is new. -/
theorem dials (h : p.Ending q) (sound : p.Sound) (peer : q.Parting p)
    (new : ∀ k, p.state.id? k ≠ some ⟨p.state.nextId⟩)
    (unknown : ∀ k, q.state.id? k ≠ some ⟨p.state.nextId⟩) : p.dials.Ending q := by
  have silent : p.told q ⟨p.state.nextId⟩ = [] := by
    refine Decidable.not_not.mp fun said => ?_
    obtain some' | ⟨k, known⟩ := peer.spent (parts_of_told said)
    · refine some' (List.prefix_nil.mp ?_)
      rw [← sound.logged.unsaid new]
      exact payloads_mono _ (List.take_prefix _ _)
    · exact unknown k known
  exact @enroll _ _ _ _ h [] (fun k => Array.getElem?_push) (fun _ => holds_dials.mp) rfl rfl
    (fun _ => rfl) silent (fun _ _ => rfl) new

/-! ## Envelopes -/

end Ending

section Hear

variable {bytes : Bytes} {e : Envelope}

/-- One more chunk is heard. -/
theorem told_succ (found : q.sent[p.heard]? = some bytes) (read : Envelope.unpacked bytes = .ok e)
    (heard : p'.heard = p.heard + 1) (id : ConnId) :
    p'.told q id = p.told q id ++ (e.abort? id).toList := by
  rw [told, heard, List.take_add_one, found]
  exact aborts_concat id read

/-- Behind an abort no payload of its connection is heard. -/
theorem payload?_of_told (peer : q.Parting p) (found : q.sent[p.heard]? = some bytes)
    (read : Envelope.unpacked bytes = .ok e) (said : p.told q id ≠ []) : e.payload? id = none := by
  have front : payloads id (q.sent.take (p.heard + 1)) <+: payloads id q.sent :=
    payloads_mono id (List.take_prefix _ _)
  have added : payloads id (q.sent.take p.heard ++ [bytes]) = _ := payloads_concat id read
  rw [List.take_add_one, found, ← peer.order said, Option.toList_some, added] at front
  have short := front.length_le
  rw [List.length_append] at short
  cases one : e.payload? id with
  | none => rfl
  | some payload =>
    rw [one, Option.toList_some, List.length_singleton] at short
    exact absurd short (Nat.not_succ_le_self _)

namespace Ending

/-- An envelope is heard that names no connection in the table. -/
theorem pass (h : p.Ending q) (listed : p.state.Listed) (peer : q.Parting p)
    (found : q.sent[p.heard]? = some bytes) (read : Envelope.unpacked bytes = .ok e)
    (unknown : ∀ a ∈ p.state.table, a.id ≠ e.conn) (heard : p'.heard = p.heard + 1)
    (conns : p'.state.conns = p.state.conns) (table : p'.state.table = p.state.table)
    (reads : p'.reads = p.reads) (closes : p'.closes = p.closes) : p'.Ending q := by
  have answers := answers_congr reads
  have told := told_succ found read heard
  have came := came_succ found read heard
  have other {id : ConnId} (named : id ≠ e.conn) : p'.told q id = p.told q id := by
    rw [told, Envelope.abort?]
    split
    · exact List.append_nil _
    · rw [if_neg (Ne.symm named)]
      exact List.append_nil _
  refine ⟨fun {k} nowhere => ?_, fun {id} said held => ?_, fun {k c} known => ?_⟩
  · rw [answers]
    rw [State.id?, conns] at nowhere
    exact h.unread nowhere
  · rw [State.Holds, table] at held
    by_cases named : id = e.conn
    · obtain ⟨a, mem, same⟩ := held
      exact unknown a mem (same.trans named)
    · exact h.gone (other named ▸ said) held
  rw [conns] at known
  have ends := h.conns known
  have came (said : p.told q c.id ≠ []) : p'.came q c.id = p.came q c.id := by
    rw [came, payload?_of_told peer found read said]
    exact List.append_nil _
  by_cases named : c.id = e.conn
  case neg => exact ends.congr rfl (answers k) (by rw [closes]) (other named) came
  have terminal : c.terminal ≠ none := fun opened => by
    obtain ⟨a, mem, same⟩ := listed.holds (State.id?_of_getElem? known) ⟨c, known, opened⟩
    exact unknown a mem (same.trans named)
  obtain opened | held | said := ends.cause
  · exact absurd opened terminal
  · exact .of_closed (closes ▸ held)
  · obtain ⟨first, more, said'⟩ := List.exists_cons_of_ne_nil said
    have now : p'.told q c.id = first :: (more ++ (e.abort? c.id).toList) := by rw [told, said']; rfl
    refine ⟨.inr (.inr (now ▸ List.cons_ne_nil _ _)), fun _ silent => ?_, fun {reason} held first' => ?_⟩
    · rw [now] at silent
      cases silent
    · rw [now] at first'
      have before : (p.told q c.id).head? = some reason := by rw [said']; exact first'
      exact (ends.ended (closes ▸ held) before).congr rfl (answers k) (came said)

/-- The next envelope aborts an open connection. -/
theorem abort (h : p.Ending q) (inOrder : p.InOrder q) (found : q.sent[p.heard]? = some bytes)
    (read : Envelope.unpacked bytes = .ok e) {a : Entry} {reason : Reason}
    (mem : a ∈ p.state.table) (named : a.id = e.conn) (content : e.content = .abort reason)
    (heard : p'.heard = p.heard + 1) (state : p'.state = p.state.retire a (State.aborting reason))
    (reads : p'.reads = p.reads) (closes : p'.closes = p.closes) : p'.Ending q := by
  obtain ⟨c, known, name⟩ := Option.map_eq_some_iff.mp (inOrder.listed.named mem)
  have told (id : ConnId) : p'.told q id = p.told q id ++ if c.id = id then [reason] else [] := by
    rw [told_succ found read heard, Envelope.abort?, content, name, named]
    dsimp only
    split <;> rfl
  have came (id : ConnId) : p'.came q id = p.came q id := by
    rw [came_succ found read heard, Envelope.payload?, content]
    exact List.append_nil _
  have answers := answers_congr reads
  have ends := h.conns known
  have silent : p.told q c.id = [] := Decidable.not_not.mp fun said =>
    h.gone said ⟨a, mem, name.symm⟩
  have one : p'.told q (State.aborting reason c).id = [reason] := by
    rw [show (State.aborting reason c).id = c.id from rfl, told, silent, if_pos rfl, List.nil_append]
  have conns (l : ConnKey) : p'.state.conns[l]? =
      if a.conn = l then some (State.aborting reason c) else p.state.conns[l]? := by
    rw [state]
    exact State.getElem?_modifyConn known l
  refine h.of_one inOrder.sound.logged known conns
    (fun l _ => answers l) (fun l _ => by rw [closes]) (fun id other => ?_) (fun id _ => came id)
    (fun {id} said held => ?_)
    ⟨.inr (.inr (one ▸ List.cons_ne_nil _ _)), fun _ silent' => ?_, fun held first => ?_⟩
  · rw [told, if_neg other, List.append_nil]
  · rw [state] at held
    obtain ⟨held, other⟩ := State.holds_remove.mp held
    rw [told, if_neg (name ▸ Ne.symm other), List.append_nil] at said
    exact h.gone said held
  · cases one.symm.trans silent'
  · rw [one] at first
    cases first
    have held : a.conn ∉ p.closes := closes ▸ held
    have opened : c.terminal = none :=
      ends.cause.resolve_right fun cause => cause.elim held fun said => said silent
    refine (ends.live held silent).abort opened reason (answers a.conn) ?_
    have whole := (inOrder.hears.current mem).1
    rw [arrived, State.waiting_of_getElem? known] at whole
    rw [whole, came, name]

/-- The next envelope is a payload of an open connection. -/
theorem deliver (h : p.Ending q) (inOrder : p.InOrder q) (found : q.sent[p.heard]? = some bytes)
    (read : Envelope.unpacked bytes = .ok e) {a : Entry} {seq : UInt64} {data : Bytes}
    (mem : a ∈ p.state.table) (named : a.id = e.conn) (content : e.content = .payload seq data)
    (heard : p'.heard = p.heard + 1) (state : p'.state = p.state.deliver a data)
    (reads : p'.reads = p.reads) (closes : p'.closes = p.closes) : p'.Ending q := by
  obtain ⟨c, known, name⟩ := Option.map_eq_some_iff.mp (inOrder.listed.named mem)
  have told (id : ConnId) : p'.told q id = p.told q id := by
    rw [told_succ found read heard, Envelope.abort?, content]
    exact List.append_nil _
  have answers := answers_congr reads
  have ends := h.conns known
  have silent : p'.told q c.id = [] :=
    (told c.id).trans (Decidable.not_not.mp fun said => h.gone said ⟨a, mem, name.symm⟩)
  have conns (l : ConnKey) : p'.state.conns[l]? =
      if a.conn = l then some (c.hand (.payload data)) else p.state.conns[l]? := by
    rw [state]
    exact State.getElem?_modifyConn known l
  refine h.of_one inOrder.sound.logged known conns
    (fun l _ => answers l) (fun l _ => by rw [closes]) (fun id _ => told id) (fun id other => ?_)
    (fun {id} said held => ?_) ⟨?_, fun held _ => ?_, fun _ first => ?_⟩
  · rw [came_succ found read heard, Envelope.payload?, content]
    dsimp only
    rw [if_neg (named ▸ name ▸ other), Option.toList_none, List.append_nil]
  · rw [told] at said
    rw [state] at held
    exact h.gone said (State.holds_deliver.mp held)
  · rw [closes, show (c.hand (.payload data)).id = c.id from rfl, told]
    exact ends.cause
  · exact (ends.live (closes ▸ held) ((told c.id).symm.trans silent)).deliver data (answers a.conn)
  · cases (silent ▸ first : ([] : List Reason).head? = _)

theorem hear (h : p.Ending q) (inOrder : p.InOrder q) (peer : q.Parting p)
    (found : q.sent[p.heard]? = some bytes) (read : Envelope.unpacked bytes = .ok e)
    (heard : p.Heard e p')
    (first : ∀ data, e.content = .payload 0 data → p.state.role = .accept →
      ∀ k, p.state.id? k ≠ some e.conn) : p'.Ending q := by
  cases heard with
  | ignored unknown => exact h.pass inOrder.listed peer found read unknown rfl rfl rfl rfl rfl
  | aborted mem named content => exact h.abort inOrder found read mem named content rfl rfl rfl rfl
  | delivered mem named content => exact h.deliver inOrder found read mem named content rfl rfl rfl rfl
  | refused alive unknown content gone =>
    exact h.pass inOrder.listed peer found read unknown rfl rfl rfl rfl rfl
  | @opened data alive role unknown content =>
    have told (id : ConnId) : (p.opens e.conn data).told q id = p.told q id := by
      rw [told_succ found read rfl, Envelope.abort?, content]
      exact List.append_nil _
    have silent : p.told q e.conn = [] := Decidable.not_not.mp fun said => by
      have none' := payload?_of_told peer found read said
      rw [Envelope.payload?, content] at none'
      simp at none'
    refine @enroll _ _ _ _ h [data] (fun k => Array.getElem?_push) (fun _ => holds_opens.mp) rfl rfl
      told silent
      (fun id other => ?_) (first data content role)
    rw [came_succ found read rfl, Envelope.payload?, content]
    dsimp only
    rw [if_neg (Ne.symm other), Option.toList_none, List.append_nil]

end Ending

end Hear

end Party

end Tether.Session
