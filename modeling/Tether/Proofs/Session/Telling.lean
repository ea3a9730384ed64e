import Tether.Proofs.Session.Lone

/-!
# What the peer is told

A session tells its peer of each connection that it ends or does not know. The reasons that are words
alone fit one chunk under every limit on frames that settings may have. The reason of a gap spells out
two numbers and does not: how long it is decides under which limits it goes out, and the least of the
limits lets none through.
-/

namespace Tether

namespace Session

/-! ## How long a gap is -/

/-- How many digits a number has. -/
def decimals (n : UInt64) : Nat :=
  (Nat.toDigits 10 n.toNat).length

/-- How long the abort for a gap is. -/
def gapLength (id : ConnId) (seq expected : UInt64) : Nat :=
  62 + (Wire.Varint.encode id.val.toNat).length + decimals seq + decimals expected

theorem decimals_pos (n : UInt64) : 0 < decimals n :=
  Nat.length_toDigits_pos

theorem decimals_le (n : UInt64) : decimals n ≤ 20 :=
  (Nat.length_toDigits_le_iff (by decide) (by decide)).mpr (Nat.lt_trans n.toNat_lt (by decide))

theorem gapLength_bounds (id : ConnId) (seq expected : UInt64) :
    65 ≤ gapLength id seq expected ∧ gapLength id seq expected ≤ 112 := by
  have number := Wire.Varint.length_encode_pos id.val.toNat
  have number' := Wire.Varint.length_encode_toNat_le id.val
  have digits := And.intro (decimals_pos seq) (decimals_le seq)
  have digits' := And.intro (decimals_pos expected) (decimals_le expected)
  unfold Wire.Varint.maxLength at number'
  unfold gapLength
  omega

theorem utf8Size_digitChar : ∀ d < 10, (Nat.digitChar d).utf8Size = 1 := by
  decide

/-- The text of a number has one byte to a digit. -/
theorem utf8ByteSize_repr (n : Nat) : n.repr.utf8ByteSize = (Nat.toDigits 10 n).length := by
  induction n using Nat.strongRecOn with
  | ind n ih =>
    rw [Nat.toDigits_eq_if (by decide)]
    split
    · next low =>
      rw [Nat.repr_of_lt low, String.utf8ByteSize_singleton]
      exact utf8Size_digitChar n low
    · next high =>
      have last := utf8Size_digitChar (n % 10) (Nat.mod_lt n (by decide))
      rw [Nat.repr_of_ge (Nat.not_lt.mp high), String.utf8ByteSize_append,
        String.utf8ByteSize_singleton, last, ih (n / 10) (by omega), List.length_append]
      rfl

/-- The abort for a gap can be packed, and is as long as its numbers make it. -/
theorem exists_packed_gap (id : ConnId) (seq expected : UInt64) :
    ∃ bytes, (⟨id, .abort (State.gap seq expected)⟩ : Envelope).packed = .ok bytes ∧
      bytes.length = gapLength id seq expected := by
  have text : (s!"payload {seq.toNat} when {expected.toNat} was expected").utf8ByteSize =
      27 + decimals seq + decimals expected := by
    have words : "payload ".utf8ByteSize = 8 ∧ " when ".utf8ByteSize = 6 ∧
      " was expected".utf8ByteSize = 13 := by decide
    simp only [String.utf8ByteSize_append, toString, utf8ByteSize_repr, decimals]
    omega
  have digits := decimals_le seq
  have digits' := decimals_le expected
  have length := Reason.length_protocol (Nat.lt_of_le_of_lt (Nat.le_of_eq text) (by omega))
  change (State.gap seq expected).value.encoding.length = _ at length
  rw [text] at length
  refine ⟨_, Envelope.packed_abort id (by omega), ?_⟩
  rw [Envelope.length_abort, length, gapLength]
  omega

/-! ## What a session says -/

/-- The reasons that a session gives its peer. -/
inductive Reason.Given : Reason → Prop
  | bare {reason : Reason} (bare : reason = .closed ∨ reason = .gone ∨ reason = .off) : Given reason
  | gap {seq expected : UInt64} (beyond : expected < seq) : Given (State.gap seq expected)

namespace State

variable {s s' : State} {id : ConnId} {seq : UInt64} {data : Bytes} {reason : Reason}

theorem given_dispatchKnown {a : Entry} (answer : (s.dispatchKnown a seq data).2 = some reason) :
    reason.Given := by
  unfold dispatchKnown at answer
  split at answer
  · cases answer
  · split at answer
    · next beyond =>
      cases answer
      exact .gap beyond
    · cases answer

theorem given_dispatchUnknown (answer : (s.dispatchUnknown id seq data).2 = some reason) :
    reason.Given := by
  have gone : Reason.gone.Given := .bare (.inr (.inl rfl))
  have off : Reason.off.Given := .bare (.inr (.inr rfl))
  unfold dispatchUnknown at answer
  split at answer
  · split at answer <;> cases answer
    · exact off
    · exact gone
  · split at answer
    · cases answer
      exact gone
    · split at answer
      · cases answer
        exact off
      · split at answer <;> cases answer
        exact off

/-- The answer to an envelope is such a reason. -/
theorem given_dispatch {e : Envelope} (answer : (s.dispatch e).2 = some reason) : reason.Given := by
  unfold dispatch at answer
  split at answer
  · cases answer
  · split at answer
    · cases answer
    · split at answer
      · exact given_dispatchKnown answer
      · exact given_dispatchUnknown answer

theorem given_intake {r : Except Stream.Error (Option Bytes)}
    (answer : s.intake r = .goOn s' (some (id, reason))) : reason.Given := by
  unfold intake at answer
  split at answer
  · next e _ =>
    injection answer with _ answer
    obtain ⟨given, answer, same⟩ := Option.map_eq_some_iff.mp answer
    cases same
    exact given_dispatch answer
  · cases answer
  · cases answer

end State

namespace Party

/-- What a session has said and will say, over a stream with the given settings. -/
structure Telling (config : Config) (p : Party) : Prop where
  settings : p.stream.config = config
  given : ∀ {i id reason stage}, p.job? i = some ⟨.abort id reason, stage⟩ → reason.Given
  short : ∀ chunk ∈ p.sent, chunk.length ≤ config.maxFrameLen - Stream.Frame.maxHeaderLength

variable {p p' : Party} {config : Config} {i : Nat} {o : Outgoing}

namespace Telling

/-- Nothing sets out and nothing is taken. -/
theorem congr (h : p.Telling config) (stream : p'.stream.config = p.stream.config)
    (jobs : ∀ {j x}, p'.job? j = some x → ∃ i y, p.job? i = some y ∧ y.message = x.message)
    (sent : p'.sent = p.sent) : p'.Telling config := by
  refine ⟨stream.trans h.settings, fun {j id reason stage} known => ?_, sent ▸ h.short⟩
  obtain ⟨i, ⟨m, stage'⟩, known', message⟩ := jobs known
  cases message
  exact h.given known'

theorem quiet (h : p.Telling config) (stream : p'.stream.config = p.stream.config)
    (jobs : p'.jobs = p.jobs) (sent : p'.sent = p.sent) : p'.Telling config := by
  refine h.congr stream (fun {j x} known => ⟨j, x, ?_, rfl⟩) sent
  rwa [job?, jobs] at known

theorem send (h : p.Telling config) {m : Message}
    (given : ∀ id reason, m = .abort id reason → reason.Given) : (p.send m).Telling config := by
  refine ⟨h.settings, fun {j id reason stage} known => ?_, h.short⟩
  rw [job?_send] at known
  split at known
  · cases known
    exact given id reason rfl
  · exact h.given known

theorem settle (h : p.Telling config) (known : p.job? i = some o) {outcome : Outgoing.Outcome}
    (moved : o.Moved p.state p.stream outcome) : (p.settle i o outcome).Telling config := by
  cases moved with
  | enqueued _ _ _ =>
    exact h.congr rfl (message_of_set known (fun _ same => by cases same; rfl) (job?_setJob known _)) rfl
  | acquired _ _ _ _ =>
    exact h.congr rfl (message_of_set known (fun _ same => by cases same; rfl) (job?_setJob known _)) rfl
  | @taken t bytes stream' sends alive room =>
    have jobs : ∀ j, (p.settle i o (p.state.leave t, stream', .settled (.ok ()))).job? j =
        if i = j then none else p.job? j := job?_setJob known none
    refine ⟨?_, fun {j id reason stage} known' => ?_, fun chunk mem => ?_⟩
    · obtain ⟨-, e, same⟩ | ⟨-, buffer, n, -, rfl⟩ := Stream.Endpoint.write?_cases room
      · cases same
      · exact h.settings
    · obtain ⟨j', ⟨m, stage'⟩, known'', message⟩ := message_of_set known (by nofun) jobs known'
      cases message
      exact h.given known''
    · have chunks : o.chunk? = some bytes := by rw [Outgoing.chunk?, sends]
      change chunk ∈ p.sent ++ o.chunk?.toList at mem
      rw [chunks] at mem
      obtain mem | mem := List.mem_append.mp mem
      · exact h.short chunk mem
      · cases List.mem_singleton.mp mem
        rw [← h.settings]
        exact Stream.Endpoint.length_le_of_write? room
  | failed _ =>
    exact h.congr rfl (message_of_set known (by nofun) (job?_setJob known _)) rfl

theorem move (h : p.Telling config) (i : Nat) : (p.move i).Telling config := by
  obtain same | ⟨o, outcome, known, moved, stepped⟩ := p.move_cases i
  · rwa [same]
  · rw [stepped]
    exact h.settle known moved

theorem cancel (h : p.Telling config) (i : Nat) : (p.cancel i).Telling config := by
  obtain same | ⟨o, known, -, given⟩ := p.cancel_cases i
  · rwa [same]
  · rw [given]
    exact h.congr rfl (message_of_set known (by nofun) (job?_setJob known none)) rfl

theorem dial (h : p.Telling config) : p.dial.Telling config := by
  unfold Party.dial
  split <;> exact h.quiet rfl rfl rfl

theorem accept (h : p.Telling config) : p.accept.Telling config := by
  unfold Party.accept
  split <;> exact h.quiet rfl rfl rfl

theorem read (h : p.Telling config) (k : ConnKey) : (p.read k).Telling config := by
  unfold Party.read
  split <;> exact h.quiet rfl rfl rfl

theorem close (h : p.Telling config) (k : ConnKey) : (p.close k).Telling config := by
  unfold Party.close
  split
  · exact h.quiet rfl rfl rfl
  · next state id _ =>
    have closed : Telling config { p with state, closes := p.closes ++ [k] } := h.quiet rfl rfl rfl
    refine closed.send fun _ _ same => ?_
    cases same
    exact .bare (.inl rfl)

theorem take (h : p.Telling config) (r : Except Stream.Error (Option Bytes)) :
    (p.take r).Telling config := by
  unfold Party.take
  split
  · exact h.quiet rfl rfl rfl
  · next state id reason answer =>
    have taken : Telling config { p with state } := h.quiet rfl rfl rfl
    refine taken.send fun _ _ same => ?_
    cases same
    exact State.given_intake answer
  · exact h.quiet rfl rfl rfl

theorem flow (h : p.Telling config) (stream : Stream.Endpoint) : (p.flow stream).Telling config := by
  unfold Party.flow
  split
  · next may =>
    refine h.quiet ?_ rfl rfl
    simp only [mayBecome, Bool.and_eq_true, decide_eq_true_eq] at may
    exact may.1
  · exact h

/-- Every act keeps to it. -/
theorem step (h : p.Telling config) (act : Act) : (p.step act).Telling config := by
  cases act with
  | dial => exact h.dial
  | accept => exact h.accept
  | write k data => exact h.send nofun
  | read k => exact h.read k
  | close k => exact h.close k
  | shut => exact h.quiet rfl rfl rfl
  | unlisten => exact h.quiet rfl rfl rfl
  | move i => exact h.move i
  | cancel i => exact h.cancel i
  | take r => exact h.take r
  | flow stream => exact h.flow stream

end Telling

theorem telling_run (side : Role) (stream : Stream.Endpoint) (acts : List Act) :
    ((start side stream).run acts).Telling stream.config :=
  List.foldlRecOn acts step ⟨rfl, nofun, nofun⟩ fun _ telling act _ => telling.step act

/-- The law of telling, for a session over a stream with valid settings. After any run, each abort that
the session sends to its peer can be packed. If its reason is a close, or that the connection is gone or
not taken, it fits one chunk. Else its reason is a gap, which goes out just when the limit on frames
leaves room for it: it is 65 to 112 bytes long, with its numbers, and the header of the chunk comes on
top. The stream takes nothing that does not fit. -/
theorem told_unless_gap {side : Role} {stream : Stream.Endpoint} (valid : stream.config.invalid? = none)
    (acts : List Act) :
    let p := (start side stream).run acts
    (∀ {i id reason stage}, p.job? i = some ⟨.abort id reason, stage⟩ →
      ∃ bytes, (⟨id, .abort reason⟩ : Envelope).packed = .ok bytes ∧
        ((reason = .closed ∨ reason = .gone ∨ reason = .off) ∧
            bytes.length ≤ p.stream.maxChunkLength ∨
          ∃ seq expected, expected < seq ∧ reason = State.gap seq expected ∧
            (bytes.length ≤ p.stream.maxChunkLength ↔
              gapLength id seq expected + Stream.Frame.maxHeaderLength ≤ stream.config.maxFrameLen) ∧
            65 ≤ gapLength id seq expected ∧ gapLength id seq expected ≤ 112)) ∧
      ∀ chunk ∈ p.sent, chunk.length ≤ p.stream.maxChunkLength := by
  intro p
  have telling : p.Telling stream.config := telling_run side stream acts
  have room : p.stream.maxChunkLength = stream.config.maxFrameLen - Stream.Frame.maxHeaderLength := by
    rw [Stream.Endpoint.maxChunkLength, telling.settings]
  have least : 64 ≤ stream.config.maxFrameLen := Config.roomy_of_valid valid
  have header : Stream.Frame.maxHeaderLength = 11 := rfl
  refine ⟨fun {i id reason stage} known => ?_, room ▸ telling.short⟩
  cases telling.given known with
  | bare bare =>
    obtain ⟨bytes, packed, -, short⟩ := Envelope.exists_packed_bare id bare
    exact ⟨bytes, packed, .inl ⟨bare, by omega⟩⟩
  | @gap seq expected beyond =>
    obtain ⟨bytes, packed, length⟩ := exists_packed_gap id seq expected
    have bounds := gapLength_bounds id seq expected
    refine ⟨bytes, packed, .inr ⟨seq, expected, beyond, rfl, ?_, bounds⟩⟩
    rw [room, length]
    omega

/-- A session that accepts, over a stream with the least limit on frames. -/
def tight : Party :=
  start .accept (.new 0 ⟨7⟩ { maxFrameLen := Config.minFrameLength })

/-- A run in which the peer leaves out payloads. -/
def gapHeard : List Act :=
  [.hear ⟨⟨0⟩, .payload 0 [0x30]⟩, .accept, .read 0, .hear ⟨⟨0⟩, .payload 5 [0x31]⟩, .read 0]

/-- The abort for the gap sets out, does not fit, and is gone after three steps with nothing sent. -/
theorem told_unless_gap_tight :
    tight.stream.config.invalid? = none ∧
      ((tight.run gapHeard).job? 0).map Outgoing.message = some (.abort ⟨0⟩ (State.gap 5 1)) ∧
      (∃ bytes, (⟨⟨0⟩, .abort (State.gap 5 1)⟩ : Envelope).packed = .ok bytes ∧
        (tight.run gapHeard).stream.maxChunkLength < bytes.length) ∧
      ((tight.run gapHeard).run (List.replicate 3 (.move 0))).sent = [] ∧
      (((tight.run gapHeard).run (List.replicate 3 (.move 0))).job? 0).isNone := by
  have valid : tight.stream.config.invalid? = none := by decide
  have message : ((tight.run gapHeard).job? 0).map Outgoing.message =
      some (.abort ⟨0⟩ (State.gap 5 1)) := by decide +kernel
  refine ⟨valid, message, ?_, by decide +kernel, by decide +kernel⟩
  obtain ⟨⟨m, stage⟩, known, same⟩ := Option.map_eq_some_iff.mp message
  cases same
  obtain ⟨fits, -⟩ := @told_unless_gap .accept tight.stream valid gapHeard
  obtain ⟨bytes, packed, ⟨bare, -⟩ | ⟨seq, expected, -, -, carried, least, -⟩⟩ := fits known
  · exact absurd bare (by decide)
  · have limit : tight.stream.config.maxFrameLen = 64 := rfl
    have tooLong := mt carried.mp (by omega)
    exact ⟨bytes, packed, Nat.not_le.mp tooLong⟩

end Party

end Session

end Tether
