import Tether.Proofs.Session.Posting
import Tether.Proofs.Session.Precedence
import Tether.Proofs.Stream.Refusal

/-!
# Writes that fail

A write fails because its connection or the session has ended, because the stream takes no more chunks,
or because no chunk holds its payload, and its error says which. What a connection ended with is one of
these errors too, so an invariant says what that can be: a connection ends with its session only if the
session has ended, and for the same cause.

A write that fails leaves the session as if it had never asked for anything: it is given up where it is,
just as by a cancellation. The number that it had is the next one again.

There are two ways to be too long. An envelope may be longer than a chunk of the stream, or than a length
field can tell. The stream never sees the second kind, and its error is not that of the first.
-/

namespace Tether.Session

/-! ## How connections end -/

namespace State

/-- What a connection has ended with. -/
def terminal? (s : State) (k : ConnKey) : Option Error :=
  s.conns[k]?.bind Conn.terminal

/-- Whether a connection may end like this. -/
def Due (s : State) : Error → Prop
  | .closed | .aborted _ => True
  | .session cause => s.ended = some cause
  | .value _ => False

/-- Every connection that has ended ended as it may. -/
def Truthful (s : State) : Prop :=
  ∀ k e, s.terminal? k = some e → s.Due e

variable {s s' : State} {k : ConnKey} {f : Conn → Conn} {e : Error} {cause : Codec.Error}

theorem due_congr (ended : s'.ended = s.ended) : s'.Due e = s.Due e := by
  cases e <;> simp only [Due, ended]

namespace Truthful

theorem congr (h : s.Truthful) (conns : s'.conns = s.conns) (ended : s'.ended = s.ended) :
    s'.Truthful := by
  intro k e terminal
  rw [terminal?, conns] at terminal
  rw [due_congr ended]
  exact h k e terminal

theorem modifyConn (h : s.Truthful)
    (ends : ∀ c e, (f c).terminal = some e → c.terminal = some e ∨ s.Due e) :
    (s.modifyConn k f).Truthful := by
  intro l e terminal
  unfold terminal? State.modifyConn at terminal
  rw [Array.getElem?_modify] at terminal
  split at terminal
  · obtain ⟨c', changed, terminal⟩ := Option.bind_eq_some_iff.mp terminal
    obtain ⟨c, known, rfl⟩ := Option.map_eq_some_iff.mp changed
    obtain before | due := ends c e terminal
    · exact h l e (Option.bind_eq_some_iff.mpr ⟨c, known, before⟩)
    · exact due
  · exact h l e terminal

theorem hand (h : s.Truthful) (k : ConnKey) (i : Inbound) : (s.modifyConn k (·.hand i)).Truthful :=
  h.modifyConn fun _ _ terminal => .inl terminal

/-- The first end stays. -/
theorem finish (h : s.Truthful) {g : Conn → Conn} (due : s.Due e)
    (keeps : ∀ c, (g c).terminal = c.terminal) :
    (s.modifyConn k fun c => g (c.finish e)).Truthful := by
  refine h.modifyConn fun c e' terminal => ?_
  rw [keeps] at terminal
  cases before : c.terminal with
  | none =>
    simp only [Conn.finish, before, Option.getD_none, Option.some.injEq] at terminal
    exact .inr (terminal ▸ due)
  | some first =>
    simp only [Conn.finish, before, Option.getD_some] at terminal
    exact .inl terminal

theorem abort (h : s.Truthful) (id : ConnId) (reason : Reason) : (s.abort id reason).Truthful := by
  unfold State.abort
  split
  · exact h
  · next a _ =>
    have ended : (s.modifyConn a.conn (aborting reason)).Truthful :=
      h.finish (e := .aborted reason) (g := (·.hand (.abort reason))) trivial fun _ => rfl
    exact ended.congr rfl rfl

theorem close (h : s.Truthful) (k : ConnKey) : (s.close k).1.Truthful := by
  have ended : (s.modifyConn k (·.finish .closed)).Truthful :=
    h.finish (e := .closed) (g := id) trivial fun _ => rfl
  obtain ⟨-, same⟩ | ⟨-, id, -, ⟨-, same⟩ | ⟨-, same⟩⟩ := s.close_outcomes k <;> rw [same]
  · exact h
  · exact ended
  · exact ended.congr rfl rfl

theorem register (h : s.Truthful) (id : ConnId) : (s.register id).1.Truthful := by
  intro k e terminal
  have pushed : (s.register id).1.conns[k]? = if k = s.conns.size then some { id } else s.conns[k]? :=
    Array.getElem?_push
  rw [terminal?, pushed] at terminal
  split at terminal
  · cases terminal
  · exact h k e terminal

theorem dial (h : s.Truthful) : s.dial.1.Truthful := by
  unfold State.dial
  split
  · exact h
  · have numbered : Truthful { s with nextId := s.nextId + 1 } := h.congr rfl rfl
    exact numbered.register _

theorem routed (h : s.Truthful) (routed : s.Routed s') : s'.Truthful := by
  cases routed with
  | kept => exact h
  | aborted id reason => exact h.abort id reason
  | counted a data => exact (h.hand a.conn (.payload data)).congr rfl rfl
  | deafened => exact h.congr rfl rfl
  | welcomed id data accepted =>
    exact ((h.register id).hand s.conns.size (.payload data)).congr rfl rfl

/-- Every open connection gets the end of the session. -/
theorem teardown (h : s.Truthful) (cause : Codec.Error) : (s.teardown cause).1.Truthful := by
  unfold State.teardown
  split
  · exact h
  · next alive =>
    have marked : Truthful { s with ended := some cause } := by
      intro k e terminal
      have due := h k e terminal
      cases e with
      | closed | aborted => trivial
      | session cause => cases alive.symm.trans due
      | value => exact due
    -- The mark of the session's end is set last, which comes to the same as setting it first.
    have broken (table : List Entry) : ∀ s : State, Truthful { s with ended := some cause } →
        Truthful { table.foldl (breakConn cause) s with ended := some cause } := by
      induction table with
      | nil => exact fun _ h => h
      | cons a rest ih =>
        intro s h
        have first : Truthful { s.breakConn cause a with ended := some cause } :=
          h.finish (k := a.conn) (g := (·.hand (.broken cause))) rfl fun _ => rfl
        exact ih _ first
    exact (broken s.table s marked).congr rfl rfl

theorem read (h : s.Truthful) {r : Except Error (Option Bytes)} (read : s.read? k = some (s', r)) :
    s'.Truthful := by
  obtain ⟨c, c', known, given, rfl⟩ := read?_eq_some read
  intro l e terminal
  unfold terminal? at terminal
  rw [getElem?_modifyConn known] at terminal
  split at terminal
  · next here =>
    refine h l e ?_
    rw [terminal?, ← here, known]
    exact (Conn.read?_same given).2.2.symm.trans terminal
  · exact h l e terminal

theorem sameReading (h : s.Truthful) (same : s.SameReading s') : s'.Truthful := by
  intro k e terminal
  obtain ⟨c', known', terminal⟩ := Option.bind_eq_some_iff.mp terminal
  obtain ⟨c, known, reading⟩ := same.conns.exists_conn known'
  have before : c.reading.terminal = c'.reading.terminal := congrArg Conn.terminal reading
  rw [due_congr same.ended]
  exact h k e (Option.bind_eq_some_iff.mpr ⟨c, known, before.trans terminal⟩)

end Truthful

end State

namespace Party

variable {p : Party}

theorem truthful_step (h : p.state.Truthful) (act : Act) : (p.step act).state.Truthful := by
  have changed := p.changed_step act
  generalize (p.step act).state = s at changed ⊢
  cases changed with
  | sent _ same => exact h.sameReading same
  | dialed => exact h.dial
  | accepted | unlistened => exact h.congr rfl rfl
  | read given => exact h.read given
  | closed k => exact h.close k
  | routed _ routed => exact h.routed routed
  | finished _ => exact h.teardown _

theorem truthful_run (h : p.state.Truthful) (acts : List Act) : (p.run acts).state.Truthful := by
  induction acts generalizing p with
  | nil => exact h
  | cons act acts ih => exact ih (truthful_step h act)

end Party

/-! ## Why a message fails -/

namespace Outgoing

/-- Why a message fails, by the error. -/
inductive Fails (s : State) (stream : Stream.Endpoint) (o : Outgoing) : Error → Prop
  | barred {e : Error} (early : ∀ t packed, o.stage ≠ .sending t packed)
    (may : s.mayStart o.message = .error e) : Fails s stream o e
  | finished {cause : Codec.Error} (ended : s.ended = some cause) : Fails s stream o (.session cause)
  | unpackable {t : Nat} {e : Wire.Error} (sends : o.stage = .sending t (.error e))
    (alive : s.ended = none) : Fails s stream o (sendError (.pack e))
  | refused {t : Nat} {bytes : Bytes} {stream' : Stream.Endpoint} {e : Stream.Error}
    (sends : o.stage = .sending t (.ok bytes)) (alive : s.ended = none)
    (refused : stream.write? bytes = some (stream', .error e)) :
    Fails s stream o (sendError (.stream e))

variable {s s' : State} {stream stream' : Stream.Endpoint} {o : Outgoing} {e : Error}

theorem fails_of_ended (ended : s.ended.isSome = true) : o.Fails s stream s.sessionError := by
  obtain ⟨cause, ended⟩ := Option.isSome_iff_exists.mp ended
  have same : s.sessionError = .session cause := by rw [State.sessionError, ended, Option.getD_some]
  exact same ▸ .finished ended

/-- A message does not fail for any other reason. -/
theorem fails_of_step? (h : o.step? s stream = some (s', stream', .settled (.error e))) :
    o.Fails s stream e := by
  obtain ⟨m, stage⟩ := o
  cases stage with
  | fresh =>
    replace h : start s stream m = _ := Option.some.inj h
    unfold start at h
    split at h
    · next may =>
      cases h
      exact .barred nofun may
    · split at h
      · next ended =>
        cases h
        exact fails_of_ended ended
      · cases h
  | waiting t =>
    replace h : takeTurn? s stream m t = _ := h
    unfold takeTurn? at h
    split at h
    · next ended =>
      cases h
      exact fails_of_ended ended
    · obtain ⟨turn, -, h⟩ := Option.map_eq_some_iff.mp h
      dsimp only at h
      split at h
      · next may =>
        cases h
        exact .barred nofun (mayStart_turn s turn m ▸ may)
      · cases h
  | sending t packed =>
    replace h : send? s stream m t packed = _ := h
    unfold send? at h
    split at h
    · next ended =>
      cases h
      exact fails_of_ended ended
    · next alive =>
      split at h
      · cases h
        exact .unpackable rfl (by simpa using alive)
      · obtain ⟨⟨_, r⟩, written, h⟩ := Option.map_eq_some_iff.mp h
        cases r with
        | ok u => cases h
        | error e =>
          cases h
          exact .refused rfl (by simpa using alive) written

end Outgoing

namespace Party

variable {p : Party} {i : Nat} {o : Outgoing} {id : ConnId} {k : ConnKey} {data bytes : Bytes}
  {ds : List Deed} {t : Nat} {packed : Except Wire.Error Bytes} {r : Except Error Unit} {e : Error}
  {stage : Outgoing.Stage}

/-! ## What an answer tells -/

/-- What the answer of a write tells of the session, if the envelope of its payload is that long. -/
inductive Tells (p : Party) (k : ConnKey) (length : Nat) : Except Error Unit → Prop
  | taken (alive : p.state.ended = none) (up : down p.stream = false)
    (short : length ≤ p.stream.maxChunkLength) : Tells p k length (.ok ())
  | closed (ended : p.state.terminal? k = some .closed) : Tells p k length (.error .closed)
  | aborted {reason : Reason} (ended : p.state.terminal? k = some (.aborted reason)) :
    Tells p k length (.error (.aborted reason))
  | finished {cause : Codec.Error} (ended : p.state.ended = some cause) :
    Tells p k length (.error (.session cause))
  /-- The write side of the stream was closed. -/
  | shut (closed : p.stream.buffer.closed = true) :
    Tells p k length (.error (.session (.stream .closed)))
  /-- The stream has ended. -/
  | lost {e : Stream.Error} (ended : p.stream.buffer.aborted = some e) :
    Tells p k length (.error (sendError (.stream e)))
  | tooLong (alive : p.state.ended = none) (long : p.stream.maxChunkLength < length) :
    Tells p k length (.error (.value (.stream (.chunkTooLarge length p.stream.maxChunkLength))))
  /-- A length in the envelope is more than its field can tell. -/
  | overfull {n : Nat} (alive : p.state.ended = none) (overflow : Bytes.maxLength < n)
    (long : 5 + Bytes.maxLength < length) :
    Tells p k length (.error (.session (.pack (.blobTooLarge n))))

theorem terminal?_of_mayStart {s : State} (named : s.id? k = some id)
    (may : s.mayStart (.payload k data) = .error e) : s.terminal? k = some e := by
  obtain ⟨c, known, -⟩ := Option.map_eq_some_iff.mp named
  simp only [State.mayStart, known, Conn.check] at may
  rw [State.terminal?, known, Option.bind_some]
  split at may
  · next ended =>
    cases may
    exact ended
  · cases may

/-- Why a stream does not take a chunk. -/
theorem write?_error {s s' : Stream.Endpoint} {e : Stream.Error}
    (refused : s.write? bytes = some (s', .error e)) (some' : bytes ≠ []) :
    s.maxChunkLength < bytes.length ∧ e = .chunkTooLarge bytes.length s.maxChunkLength ∨
      s.buffer.aborted = some e ∨ s.buffer.closed = true ∧ e = .closed := by
  unfold Stream.Endpoint.write? at refused
  split at refused
  · next long =>
    cases refused
    exact .inl ⟨long, rfl⟩
  · obtain ⟨⟨buffer, answer⟩, answered, same⟩ := Option.map_eq_some_iff.mp refused
    cases answer with
    | ok n => cases same
    | error e' =>
      cases same
      obtain ⟨-, why⟩ := (Stream.Buffer.write?_eq_error_iff bytes).mp answered
      rw [Stream.Buffer.refusal?, if_neg some'] at why
      cases aborted : s.buffer.aborted with
      | some e =>
        rw [aborted] at why
        exact .inr (.inl why)
      | none =>
        rw [aborted] at why
        obtain ⟨closed, same⟩ := Option.ite_none_right_eq_some.mp why
        exact .inr (.inr ⟨closed, (Option.some.inj same).symm⟩)

/-- The step of a message that a deed records. -/
theorem step?_of_answer (known : p.job? i = some o)
    (answer : (p.deed? (.move i)).bind Deed.answer = some r) :
    ∃ s stream, o.step? p.state p.stream = some (s, stream, .settled r) := by
  rw [deed?, known, Option.bind_some] at answer
  obtain ⟨d, made, answered⟩ := Option.bind_eq_some_iff.mp answer
  obtain ⟨⟨s, stream, progress⟩, stepped, rfl⟩ := Option.map_eq_some_iff.mp made
  cases progress with
  | goOn o' => cases answered
  | settled r' =>
    cases answered
    exact ⟨s, stream, stepped⟩

/-- A write is not settled before it has the turn, but by the end of its connection or its session. -/
theorem error_of_early (known : p.job? i = some ⟨.payload k data, stage⟩)
    (named : p.state.id? k = some id) (early : ∀ t packed, stage ≠ .sending t packed)
    (answer : (p.deed? (.move i)).bind Deed.answer = some r) : ∃ e, r = .error e ∧
      (p.state.terminal? k = some e ∨ ∃ cause, p.state.ended = some cause ∧ e = .session cause) := by
  obtain ⟨s, stream, stepped⟩ := step?_of_answer known answer
  cases r with
  | ok u =>
    cases Outgoing.moved_of_step? stepped with
    | taken sends _ _ => exact absurd sends (early _ _)
  | error e =>
    refine ⟨e, rfl, ?_⟩
    cases Outgoing.fails_of_step? stepped with
    | barred _ may => exact .inl (terminal?_of_mayStart named may)
    | finished ended => exact .inr ⟨_, ended, rfl⟩
    | unpackable sends => exact absurd sends (early _ _)
    | refused sends _ _ => exact absurd sends (early _ _)

/-- The envelope of the next payload of a connection, if it holds these bytes. -/
def upcoming (ds : List Deed) (k : ConnKey) (id : ConnId) (data : Bytes) : Envelope :=
  ⟨id, .payload (.ofNat (succeeded k ds).length) data⟩

section Written

variable (posts : Posts ds p) (known : p.job? i = some ⟨.payload k data, stage⟩)
  (named : p.state.id? k = some id)

include posts known named

/-- A payload that has the turn holds its envelope under the next number. -/
theorem packed_of_sending (sends : stage = .sending t packed) :
    packed = (upcoming ds k id data).packed := by
  subst sends
  obtain ⟨envelope, next, same⟩ := posts.numbered.carries known
  obtain ⟨id', named', rfl⟩ := Option.map_eq_some_iff.mp next
  cases named.symm.trans named'
  rw [same, upcoming, posts.answered]

/-- The answer of a write tells why it is given. -/
theorem tells_of_answer (truthful : p.state.Truthful)
    (answer : (p.deed? (.move i)).bind Deed.answer = some r) :
    p.Tells k (upcoming ds k id data).value.encoding.length r := by
  obtain ⟨s, stream, stepped⟩ := step?_of_answer known answer
  cases r with
  | ok u =>
    cases Outgoing.moved_of_step? stepped with
    | @taken t bytes' _ sends alive room =>
      obtain ⟨-, rfl⟩ := Envelope.packed_eq_ok.mp (packed_of_sending posts known named sends).symm
      obtain ⟨up, -⟩ := down_eq_false_of_write? room
      exact .taken alive up (Stream.Endpoint.length_le_of_write? room)
  | error e =>
    cases Outgoing.fails_of_step? stepped with
    | barred early may =>
      have terminal := terminal?_of_mayStart named may
      have due := truthful k e terminal
      cases e with
      | closed => exact .closed terminal
      | aborted reason => exact .aborted terminal
      | session cause => exact .finished due
      | value cause => exact due.elim
    | finished ended => exact .finished ended
    | unpackable sends alive =>
      have packed := packed_of_sending posts known named sends
      have long : 5 + Bytes.maxLength < (upcoming ds k id data).value.encoding.length := by
        refine Nat.not_le.mp fun short => ?_
        have packs := Envelope.packed_eq_ok.mpr ⟨Envelope.fits_iff.mpr short, rfl⟩
        cases packed.trans packs
      obtain ⟨n, overflow, refused⟩ := Envelope.exists_packed_eq_error long
      cases packed.trans refused
      exact .overfull alive overflow long
    | @refused t bytes' _ e sends alive refused =>
      obtain ⟨-, rfl⟩ := Envelope.packed_eq_ok.mp (packed_of_sending posts known named sends).symm
      obtain ⟨long, rfl⟩ | lost | ⟨closed, rfl⟩ := write?_error refused nofun
      · exact .tooLong alive long
      · exact .lost lost
      · exact .shut closed

/-- What a payload with the turn is answered, if its envelope cannot be packed. -/
theorem answer_of_overfull (sends : stage = .sending t packed) (alive : p.state.ended = none)
    (long : 5 + Bytes.maxLength < (upcoming ds k id data).value.encoding.length) :
    ∃ n, Bytes.maxLength < n ∧ (p.deed? (.move i)).bind Deed.answer =
      some (.error (.session (.pack (.blobTooLarge n)))) := by
  obtain ⟨n, overflow, refused⟩ := Envelope.exists_packed_eq_error long
  cases (packed_of_sending posts known named sends).trans refused
  subst sends
  have going : ¬p.state.ended.isSome = true := by simp [alive]
  refine ⟨n, overflow, ?_⟩
  rw [deed?, known, Option.bind_some, Outgoing.step?]
  dsimp only
  rw [Outgoing.send?, if_neg going]
  rfl

/-- A payload that no chunk holds is refused as soon as it has the turn. -/
theorem answer_of_long (sends : stage = .sending t packed) (alive : p.state.ended = none)
    (fits : (upcoming ds k id data).value.encoding.length ≤ 5 + Bytes.maxLength)
    (long : p.stream.maxChunkLength < (upcoming ds k id data).value.encoding.length) :
    (p.deed? (.move i)).bind Deed.answer = some (.error (.value (.stream
      (.chunkTooLarge (upcoming ds k id data).value.encoding.length p.stream.maxChunkLength)))) := by
  have packs := Envelope.packed_eq_ok.mpr ⟨Envelope.fits_iff.mpr fits, rfl⟩
  cases (packed_of_sending posts known named sends).trans packs
  subst sends
  have refused : p.stream.write? (upcoming ds k id data).value.encoding = some (p.stream, .error
      (.chunkTooLarge (upcoming ds k id data).value.encoding.length p.stream.maxChunkLength)) :=
    if_pos long
  have going : ¬p.state.ended.isSome = true := by simp [alive]
  rw [deed?, known, Option.bind_some, Outgoing.step?]
  dsimp only
  rw [Outgoing.send?, if_neg going]
  dsimp only
  rw [refused]
  rfl

end Written

/-! ## What a failed write leaves -/

/-- The message that is first in line gets the free turn, and a payload its number. -/
theorem job?_move_of_first (posts : Posts ds p) (alive : p.state.ended = none)
    (free : p.state.turn.holder = none) (known : p.job? i = some ⟨.payload k data, .waiting t⟩)
    (first : p.state.turn.waiting.head? = some t) (opened : p.state.Open k)
    (named : p.state.id? k = some id) : (p.move i).job? i = some ⟨.payload k data,
      .sending t (⟨id, .payload (.ofNat (succeeded k ds).length) data⟩ : Envelope).packed⟩ := by
  obtain ⟨c, conn, going⟩ := opened
  obtain ⟨rest, line⟩ := List.head?_eq_some_iff.mp first
  have idle : ¬p.Sends k := fun ⟨_, _, _, _, sends⟩ => posts.queued.not_sending free sends
  have next : p.state.next? k = some (.ofNat (succeeded k ds).length) := by
    rw [posts.answered, State.next?, conn]
    exact congrArg some (posts.numbered.idle (by rw [State.next?, conn]; rfl) idle)
  have may : p.state.mayStart (.payload k data) = .ok () := by
    simp only [State.mayStart, conn, Conn.check, going]
  have turn : p.state.turn.acquire? t = some ⟨some t, rest⟩ := by
    simp only [Turn.acquire?, free, line, if_true]
  have taken : Outgoing.step? p.state p.stream ⟨.payload k data, .waiting t⟩ = some
      (({ p.state with turn := ⟨some t, rest⟩ }.reserve (.payload k data)).1, p.stream,
        .goOn ⟨.payload k data, .sending t (p.state.reserve (.payload k data)).2.packed⟩) := by
    have going : ¬p.state.ended.isSome = true := by simp [alive]
    rw [Outgoing.step?]
    dsimp only
    rw [Outgoing.takeTurn?, if_neg going, turn, Option.map_some]
    dsimp only
    rw [Outgoing.mayStart_turn, may, Outgoing.reserve_turn]
  rw [move_of_step? known taken, job?_settle known, if_pos rfl, State.reserve_payload named next]
  rfl

/-- A write has failed, and left everything to the others. -/
structure Withdrew (i : Nat) (ds : List Deed) (p p' : Party) : Prop where
  stream : p'.stream = p.stream
  reading : p.SameReading p'
  others : ∀ j, p'.job? j = if i = j then none else p.job? j
  /-- The turn is free again. -/
  turn : ∀ {m t packed}, p.job? i = some ⟨m, .sending t packed⟩ → p'.state.turn.holder = none
  /-- No number was taken. -/
  number : ∀ {k n}, p'.state.next? k = some n → ¬p'.Sends k → n = .ofNat (succeeded k ds).length
  /-- The next payload gets the turn, and the next number. -/
  next : p'.state.ended = none → p'.state.turn.holder = none → ∀ {j k data t id},
    p'.job? j = some ⟨.payload k data, .waiting t⟩ → p'.state.turn.waiting.head? = some t →
      p'.state.Open k → p'.state.id? k = some id → (p'.move j).job? j = some ⟨.payload k data,
        .sending t (⟨id, .payload (.ofNat (succeeded k ds).length) data⟩ : Envelope).packed⟩

/-- A message that fails is given up. -/
theorem move_of_error (known : p.job? i = some o)
    (answer : (p.deed? (.move i)).bind Deed.answer = some (.error e)) : p.move i = p.giveUp i o := by
  obtain ⟨s, stream, stepped⟩ := step?_of_answer known answer
  rw [move_of_step? known stepped]
  cases Outgoing.moved_of_step? stepped with
  | failed _ => rfl

theorem withdrew_of_answer (posts : Posts ds p) (known : p.job? i = some o)
    (answer : (p.deed? (.move i)).bind Deed.answer = some (.error e)) :
    Withdrew i ds p (p.move i) := by
  have left : Posts ds (p.giveUp i o) := posts.giveUp known
  rw [move_of_error known answer]
  refine ⟨rfl, sameReading_giveUp p i o, job?_setJob known none, fun {m t packed} sends => ?_,
    fun next idle => posts.answered _ ▸ left.numbered.idle next idle,
    fun alive free {j k data t id} => job?_move_of_first left alive free⟩
  cases known.symm.trans sends
  change ((p.state.giveBack m).turn.leave t).holder = none
  rw [turn_giveBack, Turn.leave, posts.queued.holder sends]
  exact if_pos rfl

/-! ## The law -/

/-- The law of failed writes. Take any run of a session, over any stream, and a write of any payload on
its way. If the write is settled by its next step:

* the answer tells why it is given. It is success only if the envelope fits one chunk. It is an error of
  the session only if the session has ended, or the stream under it has or was closed, or if a length in
  the envelope is more than its field can tell, while the session goes on;
* if the envelope fits no chunk, the write has the turn, and the session goes on, the answer is the
  error of a value that says so, unless a length in the envelope is more than its field can tell, and then
  it is the error of a session. Before a write has the turn, the answer is what its connection or the
  session has ended with;
* an error leaves everything to the others: no number is taken, and the next payload gets its turn. -/
theorem write_errors_mean_what_they_say (side : Role) (stream : Stream.Endpoint) (acts : List Act)
    (known : ((start side stream).run acts).job? i = some ⟨.payload k data, stage⟩)
    (named : ((start side stream).run acts).state.id? k = some id) :
    let ds := (start side stream).deeds acts
    let p := (start side stream).run acts
    let answer := (p.deed? (.move i)).bind Deed.answer
    let length := (upcoming ds k id data).value.encoding.length
    let max := p.stream.maxChunkLength
    (∀ r, answer = some r → p.Tells k length r) ∧
      (∀ cause, answer = some (.error (.session cause)) →
        p.state.ended = some cause ∨ down p.stream = true ∨
          5 + Bytes.maxLength < length ∧ ∃ n, cause = .pack (.blobTooLarge n)) ∧
      (∀ {t packed}, stage = .sending t packed → p.state.ended = none →
        (max < length → length ≤ 5 + Bytes.maxLength →
          answer = some (.error (.value (.stream (.chunkTooLarge length max))))) ∧
        (5 + Bytes.maxLength < length → ∃ n, Bytes.maxLength < n ∧
          answer = some (.error (.session (.pack (.blobTooLarge n)))))) ∧
      ((∀ t packed, stage ≠ .sending t packed) → ∀ r, answer = some r → ∃ e, r = .error e ∧
        (p.state.terminal? k = some e ∨ ∃ cause, p.state.ended = some cause ∧ e = .session cause)) ∧
      ∀ e, answer = some (.error e) → Withdrew i ds p (p.step (.move i)) := by
  intro ds p answer length max
  have posts : Posts ds p := (Posts.start side stream).run acts
  have truthful : p.state.Truthful := truthful_run (fun k e terminal => by cases terminal) acts
  have tells (r : Except Error Unit) (given : answer = some r) : p.Tells k length r :=
    tells_of_answer posts known named truthful given
  refine ⟨tells, fun cause given => ?_, fun sends alive =>
    ⟨fun long fits => answer_of_long posts known named sends alive fits long,
      answer_of_overfull posts known named sends alive⟩,
    fun early r => error_of_early known named early, fun e => withdrew_of_answer posts known⟩
  generalize session : Except.error (Error.session cause) = r at given
  cases tells r given with
  | finished ended =>
    cases session
    exact .inl ended
  | shut closed => exact .inr (.inl (by rw [down, closed, Bool.true_or]))
  | lost ended => exact .inr (.inl (by rw [down, ended, Option.isSome_some, Bool.or_true]))
  | overfull alive overflow long =>
    cases session
    exact .inr (.inr ⟨long, _, rfl⟩)
  | taken _ _ _ | closed _ | aborted _ | tooLong _ _ => cases session

/-- A stream whose chunks hold 53 bytes. -/
def narrow : Stream.Endpoint :=
  .new 0 ⟨7⟩ { maxFrameLen := 64 }

/-- The run in which a payload gets the turn, and another one asks for it. -/
def twoWrites (data : Bytes) : Party :=
  (start .dial narrow).run [.dial, .write 0 data, .write 0 [1], .move 0, .move 1, .move 0]

/-- Of two payloads that are too long to be carried, the one of 40 bytes is refused as a value, and the one
of four gibibytes with the error of a session, which goes on. Both leave everything to the others. -/
theorem write_errors_mean_what_they_say_overfull :
    let short := List.replicate 40 0
    let long := List.replicate 4294967296 0
    let answer (data : Bytes) := ((twoWrites data).deed? (.move 0)).bind Deed.answer
    answer short = some (.error (.value (.stream (.chunkTooLarge 70 53)))) ∧
      (∃ n, answer long = some (.error (.session (.pack (.blobTooLarge n))))) ∧
      (twoWrites long).state.ended = none ∧ down (twoWrites long).stream = false ∧
      ∀ data ∈ [short, long], ∃ ds, Withdrew 0 ds (twoWrites data) ((twoWrites data).step (.move 0)) := by
  intro short long answer
  have known (data : Bytes) : (twoWrites data).job? 0 =
      some ⟨.payload 0 data, .sending 0 (⟨⟨0⟩, .payload 0 data⟩ : Envelope).packed⟩ := rfl
  have alive (data : Bytes) : (twoWrites data).state.ended = none := rfl
  have named (data : Bytes) : (twoWrites data).state.id? 0 = some ⟨0⟩ := rfl
  have law (data : Bytes) := write_errors_mean_what_they_say .dial narrow
    [.dial, .write 0 data, .write 0 [1], .move 0, .move 1, .move 0] (known data) (named data)
  have length (data : Bytes) : (upcoming [] 0 ⟨0⟩ data).value.encoding.length =
      29 + (Wire.Varint.encode data.length).length + data.length := by
    have zero : (Wire.Varint.encode 0).length = 1 := by decide +kernel
    refine (Envelope.length_payload ⟨0⟩ 0 data).trans ?_
    change 27 + (Wire.Varint.encode 0).length + (Wire.Varint.encode 0).length + _ + _ = _
    rw [zero]
  have refused : answer short = some (.error (.value (.stream (.chunkTooLarge 70 53)))) := by
    have one : (Wire.Varint.encode 40).length = 1 := by decide +kernel
    have seventy : (upcoming [] 0 ⟨0⟩ short).value.encoding.length = 70 := by
      rw [length short, List.length_replicate, one]
    have given : 53 < (upcoming [] 0 ⟨0⟩ short).value.encoding.length →
        (upcoming [] 0 ⟨0⟩ short).value.encoding.length ≤ 5 + Bytes.maxLength →
        answer short = some (.error (.value (.stream
          (.chunkTooLarge (upcoming [] 0 ⟨0⟩ short).value.encoding.length 53)))) :=
      ((law short).2.2.1 rfl (alive short)).1
    rw [seventy] at given
    exact given (by decide) (by decide)
  obtain ⟨n, -, broken⟩ := ((law long).2.2.1 rfl (alive long)).2 (by
    refine Nat.lt_of_lt_of_eq ?_ (length long).symm
    rw [List.length_replicate]
    unfold Bytes.maxLength
    omega)
  refine ⟨refused, ⟨n, broken⟩, alive long, rfl, fun data mem => ?_⟩
  obtain rfl | rfl : data = short ∨ data = long := by simpa using mem
  · exact ⟨_, (law short).2.2.2.2 _ refused⟩
  · exact ⟨_, (law long).2.2.2.2 _ broken⟩

end Party

end Tether.Session
