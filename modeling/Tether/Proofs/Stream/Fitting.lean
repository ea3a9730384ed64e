import Tether.Chain.Handshake
import Tether.Proofs.Stream.Intake

/-!
# Every message fits its link

A link carries messages up to a limit, and a frame that is too long would be refused again on every link
that replaces it. How long the frame of a chunk is depends on its number, so a write allows for the longest
number there is. That is just enough: a chunk that is one byte longer does not fit under every number.

What an end hands to its links is told by two things that every act keeps: the units in its buffer are
no longer than a write allows, and what is queued are counts. `Supplies` says what an act can do to the
units, and to what the sending activity has in its hand.
-/

namespace Tether

/-! ## How long messages are -/

/-- The number behind the last one of 64 bits takes no more digits than that one. -/
theorem Wire.Varint.length_encode_le_maxLength {n : Nat} (fits : n ≤ UInt64.size) :
    (encode n).length ≤ maxLength := by
  obtain below | rfl := Nat.lt_or_eq_of_le fits
  · exact (denotes_encode below).short
  · simp [encode, UInt64.size, maxLength]

theorem Wire.Varint.length_encode_last : (encode (UInt64.size - 1)).length = maxLength := by
  simp [encode, UInt64.size, maxLength]

theorem Stream.Frame.length_encode (f : Frame) :
    f.encode.length = 1 + (Wire.Varint.encode f.number).length + f.tail.length := by
  rw [f.encode_eq, List.length_cons, List.length_append]
  omega

theorem Stream.Frame.length_encode_le {f : Frame} (fits : f.number ≤ UInt64.size) :
    f.encode.length ≤ maxHeaderLength + f.tail.length := by
  have := Wire.Varint.length_encode_le_maxLength fits
  rw [f.length_encode, maxHeaderLength]
  omega

/-- The longest chunks that fit under every number are those that fit behind the longest number. -/
theorem Stream.Frame.fits_iff {limit : Nat} (roomy : maxHeaderLength ≤ limit) (chunk : Bytes) :
    (∀ seq < UInt64.size, (Frame.chunk seq chunk).encode.length ≤ limit) ↔
      chunk.length ≤ limit - maxHeaderLength := by
  constructor
  · intro every
    have last := every (UInt64.size - 1) (by decide)
    rw [length_encode, number, Wire.Varint.length_encode_last, tail] at last
    unfold maxHeaderLength
    omega
  · intro short seq fits
    have := length_encode_le (f := .chunk seq chunk) (Nat.le_of_lt fits)
    rw [tail] at this
    omega

theorem Chain.Dial.length_encode_le (d : Chain.Dial) (fits : d.seq < UInt64.size) :
    d.encode.length ≤ 2 * Wire.Varint.maxLength := by
  have id := Wire.Varint.length_encode_toNat_le d.id.val
  have seq := Wire.Varint.length_encode_le_maxLength (Nat.le_of_lt fits)
  rw [encode, List.length_append]
  omega

/-! ## What a write takes -/

namespace Stream

namespace Endpoint

variable {s s' : Endpoint} {chunk : Bytes}

/-- On an open stream a write is refused only if its chunk is too long, and waits for room and for nothing
else. -/
theorem write?_of_open (filled : chunk ≠ []) (going : s.buffer.aborted = none)
    (opened : s.buffer.closed = false) :
    (s.write? chunk).map Prod.snd =
      if s.maxChunkLength < chunk.length then
        some (.error (.chunkTooLarge chunk.length s.maxChunkLength))
      else if s.buffer.hasRoom then some (.ok ()) else none := by
  unfold write? Buffer.write?
  simp only [filled, going, opened, if_false, Bool.false_eq_true]
  split
  · rfl
  · split <;> rfl

end Endpoint

/-! ## What an act does to the units -/

/-- A buffer after an act: no unit is numbered lower than before, and those that are new are no longer
than the limit. -/
structure Buffer.Stocks (limit : Nat) (b b' : Buffer) : Prop where
  total : b.total ≤ b'.total
  units : ∀ u ∈ b'.units, u ∈ b.units ∨ u.length ≤ limit

namespace Buffer

variable {limit : Nat} {b b' : Buffer}

theorem Stocks.refl (limit : Nat) (b : Buffer) : Stocks limit b b :=
  ⟨Nat.le_refl _, fun _ => .inl⟩

theorem Stocks.congr (h : Stocks limit b b') {b'' : Buffer} (acked : b''.acked = b'.acked)
    (units : b''.units = b'.units) : Stocks limit b b'' :=
  ⟨by unfold Buffer.total; rw [acked, units]; exact h.total, units ▸ h.units⟩

theorem stocks_abort (limit : Nat) (b : Buffer) (e : Error) : Stocks limit b (b.abort e) :=
  (Stocks.refl limit b).congr (b.abort_acked e) (b.abort_units e)

theorem stocks_append {unit : Bytes} (short : unit.length ≤ limit) (closed : Bool) :
    Stocks limit b { b with closed, units := b.units ++ [unit] } := by
  refine ⟨?_, fun u mem => (List.mem_append.mp mem).imp_right fun new => ?_⟩
  · simp only [total, List.length_append]
    omega
  · exact List.mem_singleton.mp new ▸ short

theorem stocks_close (limit : Nat) (b : Buffer) : Stocks limit b b.close.1 := by
  obtain ⟨same, -⟩ | ⟨-, -, same⟩ := b.close_cases <;> rw [same]
  · exact .refl limit b
  · exact stocks_append (Nat.zero_le limit) true

/-- A count releases units, and no unit gets another number by that. -/
theorem stocks_take (limit : Nat) (b : Buffer) (count cursor : Nat) :
    Stocks limit b (b.take count cursor).1 := by
  obtain ⟨e, -, taken⟩ | ⟨-, lower, upper, taken⟩ | ⟨-, -, detail, taken⟩ :=
    b.take_cases count cursor <;> rw [taken]
  · exact .refl limit b
  · have kept := total_of_releaseBelow (releaseBelow_eq_ok.mpr ⟨lower, upper, rfl⟩)
    exact ⟨Nat.le_of_eq kept.symm, fun u mem => .inl (List.mem_of_mem_drop mem)⟩
  · exact .refl limit b

/-- What is handed out is a unit that is held, under a number that was given out. -/
theorem held_of_next? {seq : Nat} {unit : Bytes} (handed : b.next? = some (b', .ok (seq, unit))) :
    unit ∈ b.units ∧ seq < b.total := by
  obtain ⟨-, rfl, found, -⟩ := next?_eq_ok.mp handed
  obtain ⟨bound, -⟩ := List.getElem?_eq_some_iff.mp found
  refine ⟨List.mem_of_getElem? found, ?_⟩
  unfold total
  omega

end Buffer

/-- The peer's frames release units, and add none. -/
theorem Endpoint.stocks_deliver (limit : Nat) (s : Endpoint) (d : Chain.Delivery) :
    Buffer.Stocks limit s.buffer (s.deliver d).1.buffer := by
  have applied (f : Frame) : Buffer.Stocks limit s.buffer (s.apply f).1.buffer := by
    cases f with
    | chunk seq payload =>
      simp only [apply]
      split <;> exact .refl limit _
    | sync count => exact Buffer.stocks_take limit s.buffer count _
    | ack count => exact Buffer.stocks_take limit s.buffer count _
  cases d with
  | stitch seq link => exact .refl limit _
  | chunk data =>
    simp only [deliver]
    split
    · exact .refl limit _
    · next f read =>
      have stocks := applied f
      split
      · next same =>
        rw [same] at stocks
        exact stocks
      · next same =>
        rw [same] at stocks
        split <;> exact stocks

/-! ## What is queued -/

theorem Frame.eq_of_count? {f : Frame} {n : Nat} (count : f.count? = some n) :
    f.number = n ∧ f.tail = [] := by
  cases f with
  | chunk => cases count
  | sync | ack =>
    cases count
    exact ⟨rfl, rfl⟩

/-- Units are accepted under numbers that frames have, so they are no more than there are numbers. -/
theorem Intake.Took.expected_le {ackFrequency : Nat} {r r' : Receiver} {l : Intake}
    (took : Took ackFrequency r l r') (le : r.expected ≤ UInt64.size) : r'.expected ≤ UInt64.size := by
  cases took with
  | stitched | gap _ _ | idle _ => exact le
  | @accepted data payload unit opened =>
    rw [Receiver.accept_expected]
    unfold numbered? at unit
    dsimp only at unit
    split at unit
    · next read =>
      cases unit
      obtain ⟨digits, denotes, -⟩ := Frame.decode_eq_ok_iff.mp read
      exact denotes.fits
    all_goals cases unit

namespace Party

variable {p p' : Party} {limit : Nat} {act : Act} {data : Bytes}

theorem stocks_deliver (limit : Nat) (p : Party) (d : Chain.Delivery) :
    Buffer.Stocks limit p.stream.buffer (p.deliver d).stream.buffer := by
  have stocks := p.stream.stocks_deliver limit d
  unfold deliver
  generalize p.stream.deliver d = outcome at stocks ⊢
  obtain ⟨s, effect⟩ := outcome
  cases effect with
  | goOn | linger => exact stocks
  | fail e => exact stocks.congr (s.buffer.abort_acked e) (s.buffer.abort_units e)

/-- A frame that may be the next to be sent: one that is queued, or a unit of the buffer. -/
inductive Due (p : Party) : Frame → Prop where
  | queued {f : Frame} (mem : .frame f ∈ p.stream.control) : Due p f
  | unit {seq : Nat} {unit : Bytes} (mem : unit ∈ p.stream.buffer.units)
    (numbered : seq < p.stream.buffer.total) : Due p (.chunk seq unit)

/-- What an act does to the units, and to what is in hand: what gets in hand was due. -/
structure Supplies (p p' : Party) : Prop where
  stocks : Buffer.Stocks p.stream.maxChunkLength p.stream.buffer p'.stream.buffer
  hand : ∀ data, p'.hand = some data → p.hand = some data ∨ ∃ f, p.Due f ∧ f.encode = data

/-- Of what gets in the buffer by an act, nothing is too long. -/
theorem supplies_step (p : Party) (act : Act) : p.Supplies (p.step act) := by
  have same := Buffer.Stocks.refl p.stream.maxChunkLength p.stream.buffer
  have closes := p.stream.buffer.stocks_close p.stream.maxChunkLength
  have aborts := p.stream.buffer.stocks_abort p.stream.maxChunkLength
  cases act with
  | write chunk =>
    rw [step]
    obtain ⟨buffer, n, room, short, taken⟩ | waits := p.write_cases chunk
    · obtain ⟨-, -, -, -, -, rfl⟩ := Buffer.write?_eq_ok.mp room
      rw [taken]
      exact ⟨Buffer.stocks_append short _, fun _ => .inl⟩
    · rw [waits]
      exact ⟨same, fun _ => .inl⟩
  | close => exact ⟨closes, fun _ => .inl⟩
  | read =>
    obtain ⟨inbox, ended, got, sawEnd, rest⟩ := p.read_rest
    rw [step, rest]
    exact ⟨same, fun _ => .inl⟩
  | share =>
    simp only [step, share]
    split <;> exact ⟨same, fun _ => .inl⟩
  | letGo =>
    simp only [step, letGo]
    split
    · exact ⟨closes, fun _ => .inl⟩
    · exact ⟨same, fun _ => .inl⟩
  | kill => exact ⟨aborts _, fun _ => .inl⟩
  | expire =>
    simp only [step, expire]
    split
    · exact ⟨same, fun _ => .inl⟩
    · exact ⟨aborts _, fun _ => .inl⟩
  | deliver d =>
    simp only [step]
    split
    · refine ⟨p.stocks_deliver _ d, fun _ held => .inl ?_⟩
      unfold deliver at held
      split at held <;> exact held
    · exact ⟨same, fun _ => .inl⟩
  | lose e =>
    simp only [step]
    split
    · exact ⟨aborts _, fun _ => .inl⟩
    · exact ⟨same, fun _ => .inl⟩
  | take =>
    simp only [step, take]
    split
    · exact ⟨same, fun _ => .inl⟩
    · obtain next | next | ⟨k, rest, queue, next⟩ | ⟨f, rest, queue, next⟩ |
        ⟨k, buffer, seq, unit, -, -, handed, next⟩ := nextAction?_cases p.stream <;> rw [next]
      · exact ⟨same, fun _ => .inl⟩
      · exact ⟨same, fun _ => .inl⟩
      · exact ⟨same, fun _ => .inl⟩
      · have due : p.Due f := .queued (queue ▸ List.mem_cons_self)
        exact ⟨same, fun _ held => .inr ⟨f, due, Option.some.inj held⟩⟩
      · obtain ⟨mem, numbered⟩ := Buffer.held_of_next? handed
        obtain ⟨-, -, -, rfl⟩ := Buffer.next?_eq_ok.mp handed
        exact ⟨⟨same.total, same.units⟩,
          fun _ held => .inr ⟨_, .unit mem numbered, Option.some.inj held⟩⟩
  | pass answer =>
    have lost {data : Bytes} (held : none = some data) : p.hand = some data ∨
        ∃ f, p.Due f ∧ f.encode = data := by
      cases held
    simp only [step, pass]
    split
    · exact ⟨same, fun _ => .inl⟩
    · exact ⟨same, fun _ => lost⟩
    · unfold sent
      split
      · exact ⟨same, fun _ => lost⟩
      · exact ⟨same, fun _ => lost⟩
      · exact ⟨aborts _, fun _ => lost⟩

/-- What is due at an end is short, whatever its number. -/
structure Fits (config : Config) (p : Party) : Prop where
  settings : p.stream.config = config
  units : ∀ u ∈ p.stream.buffer.units, u.length ≤ p.stream.maxChunkLength
  expected : p.stream.receiver.expected ≤ UInt64.size
  queued : ∀ f, .frame f ∈ p.stream.control → ∃ n ≤ UInt64.size, f.count? = some n
  hand : ∀ data, p.hand = some data → ∃ f : Frame, f.encode = data ∧
    f.number ≤ max UInt64.size p.stream.buffer.total ∧ f.tail.length ≤ p.stream.maxChunkLength

namespace Fits

variable {config : Config}

theorem start (chain : Chain.ChainId) (id : Chain.Id) (config : Config) :
    Fits config (start chain id config) :=
  ⟨rfl, nofun, Nat.zero_le _, nofun, nofun⟩

theorem due (h : Fits config p) {f : Frame} (due : p.Due f) :
    f.number ≤ max UInt64.size p.stream.buffer.total ∧ f.tail.length ≤ p.stream.maxChunkLength := by
  cases due with
  | queued mem =>
    obtain ⟨n, le, count⟩ := h.queued f mem
    obtain ⟨number, tail⟩ := Frame.eq_of_count? count
    rw [number, tail]
    exact ⟨Nat.le_trans le (Nat.le_max_left _ _), Nat.zero_le _⟩
  | unit mem numbered =>
    exact ⟨Nat.le_trans (Nat.le_of_lt numbered) (Nat.le_max_right _ _), h.units _ mem⟩

/-- What counts reach and what is queued is all that an act may still spoil. -/
theorem of_step (h : Fits config p) (settings : (p.step act).stream.config = p.stream.config)
    (expected : (p.step act).stream.receiver.expected ≤ UInt64.size)
    (queued : ∀ f, .frame f ∈ (p.step act).stream.control → .frame f ∈ p.stream.control ∨
      f.count? = some (p.step act).stream.receiver.expected) :
    Fits config (p.step act) := by
  obtain ⟨stocks, hand⟩ := p.supplies_step act
  have limit : (p.step act).stream.maxChunkLength = p.stream.maxChunkLength := by
    unfold Endpoint.maxChunkLength
    rw [settings]
  refine ⟨settings.trans h.settings, fun u mem => ?_, expected, fun f mem => ?_, fun data held => ?_⟩
  · rw [limit]
    exact (stocks.units u mem).elim (h.units u) id
  · exact (queued f mem).elim (h.queued f) fun count => ⟨_, expected, count⟩
  · obtain ⟨f, same, numbered, short⟩ : ∃ f : Frame, f.encode = data ∧
        f.number ≤ max UInt64.size p.stream.buffer.total ∧ f.tail.length ≤ p.stream.maxChunkLength := by
      obtain before | ⟨f, due, same⟩ := hand data held
      · exact h.hand data before
      · exact ⟨f, same, h.due due⟩
    refine ⟨f, same, Nat.le_trans numbered ?_, limit ▸ short⟩
    have := stocks.total
    omega

theorem step (h : Fits config p) (act : Act) : Fits config (p.step act) := by
  have aside (other : act.reads = false) : Fits config (p.step act) := by
    have aside := p.aside_step other
    refine h.of_step aside.config (aside.receiver ▸ h.expected) fun f mem => .inl ?_
    exact aside.control.subset mem
  cases act with
  | deliver d =>
    cases reading : p.stream.reading with
    | false => simpa [Party.step, reading] using h
    | true =>
      have same : p.step (.deliver d) = p.deliver d := by simp [Party.step, reading]
      have judgment := p.deliver_judged d
      cases judged : p.stream.judged d with
      | ok r =>
        rw [judged, ← same] at judgment
        have took := Endpoint.took_of_ok judged
        refine h.of_step judgment.config (judgment.receiver ▸ took.expected_le h.expected) fun f mem => ?_
        rw [judgment.control, List.mem_append, List.mem_append] at mem
        obtain before | new | new := mem
        · exact .inl before
        · cases d <;> simp [writers] at new
        · refine .inr ?_
          rw [judgment.receiver]
          exact took.count?_of_queued (by simpa using new)
      | error e =>
        rw [judged, ← same] at judgment
        refine h.of_step ?_ ?_ fun f mem => .inl ?_
        · rw [judgment]
          rfl
        · rw [judgment]
          exact h.expected
        · rw [judgment] at mem
          exact mem
  | lose e =>
    refine h.of_step ?_ ?_ fun f mem => .inl ?_
    · simp only [Party.step]
      split <;> rfl
    · simp only [Party.step]
      split <;> exact h.expected
    · simp only [Party.step] at mem
      split at mem <;> exact mem
  | write | close | read | share | letGo | kill | expire | take | pass => exact aside rfl

theorem run (h : Fits config p) (acts : List Act) : Fits config (p.run acts) := by
  induction acts generalizing p with
  | nil => exact h
  | cons act acts ih => exact ih (h.step act)

end Fits

/-- Under any settings that are valid, every message fits the links:

* a dial, whatever its chain and its number, each answer to it, and each count;
* a chunk under every number, just if a write allows its length, and so the end marker. While the stream
  goes on and its write side is open, a write of such a chunk waits for room and for nothing else, and one
  of a longer chunk is refused;
* and whatever an end has taken to hand to its links, in any run and with any peer, as long as it has
  not run out of numbers. -/
theorem every_message_fits {config : Config} (valid : config.invalid? = none) :
    ((∀ d : Chain.Dial, d.seq < UInt64.size → d.encode.length ≤ config.maxFrameLen) ∧
      (∀ w : Chain.Welcome, w.encode.length ≤ config.maxFrameLen) ∧
      ∀ count < UInt64.size, (Frame.sync count).encode.length ≤ config.maxFrameLen ∧
        (Frame.ack count).encode.length ≤ config.maxFrameLen) ∧
    (∀ chunk : Bytes,
      ((∀ seq < UInt64.size, (Frame.chunk seq chunk).encode.length ≤ config.maxFrameLen) ↔
        chunk.length ≤ config.maxFrameLen - 11) ∧
      ∀ s : Endpoint, s.config = config → chunk ≠ [] → s.buffer.aborted = none →
        s.buffer.closed = false → (s.write? chunk).map Prod.snd =
          if config.maxFrameLen - 11 < chunk.length then
            some (.error (.chunkTooLarge chunk.length (config.maxFrameLen - 11)))
          else if s.buffer.hasRoom then some (.ok ()) else none) ∧
    ∀ chain id acts, let p := (start chain id config).run acts
      p.stream.buffer.total ≤ UInt64.size →
        ∀ data, p.hand = some data → data.length ≤ config.maxFrameLen := by
  have least : 64 ≤ config.maxFrameLen := Config.roomy_of_valid valid
  have header : Frame.maxHeaderLength = 11 := rfl
  have places : Wire.Varint.maxLength = 10 := rfl
  refine ⟨⟨fun d fits => ?_, fun w => ?_, fun count fits => ⟨?_, ?_⟩⟩, fun chunk => ⟨?_, ?_⟩, ?_⟩
  · have := d.length_encode_le fits
    omega
  · exact Nat.le_trans (by decide : 1 ≤ 64) least
  · have short := Frame.length_encode_le (f := .sync count) (Nat.le_of_lt fits)
    simp only [Frame.tail, List.length_nil] at short
    omega
  · have short := Frame.length_encode_le (f := .ack count) (Nat.le_of_lt fits)
    simp only [Frame.tail, List.length_nil] at short
    omega
  · exact Frame.fits_iff (by omega) chunk
  · rintro s rfl filled going opened
    exact Endpoint.write?_of_open filled going opened
  · intro chain id acts p numbers data held
    have fits : Fits config p := (Fits.start chain id config).run acts
    obtain ⟨f, rfl, numbered, short⟩ := fits.hand data held
    rw [Endpoint.maxChunkLength, fits.settings] at short
    have length := Frame.length_encode_le (f := f) (by omega)
    omega

/-- Under the least limit there is, the longest chunk that a write takes fills the link under the last
number, and is what goes out. -/
theorem every_message_fits_least :
    let config : Config := { maxFrameLen := Config.minFrameLength }
    let chunk : Bytes := List.replicate 53 7
    let p := (start 0 ⟨7⟩ config).run
      [.write chunk, .deliver (.stitch 1 1), .take, .take, .pass (.ok ()), .take]
    config.invalid? = none ∧ (Frame.chunk (UInt64.size - 1) chunk).encode.length ≤ 64 ∧
      ((Endpoint.new 0 ⟨7⟩ config).write? chunk).map Prod.snd = some (.ok ()) ∧
      p.hand = some (Frame.chunk 0 chunk).encode ∧ (Frame.chunk 0 chunk).encode.length ≤ 64 := by
  intro config chunk p
  have valid : config.invalid? = none := rfl
  obtain ⟨-, chunks, runs⟩ := every_message_fits valid
  obtain ⟨lengths, writes⟩ := chunks chunk
  have held : p.hand = some (Frame.chunk 0 chunk).encode := by decide +kernel
  refine ⟨valid, lengths.mpr (by decide) _ (by decide), ?_, held, ?_⟩
  · exact writes (.new 0 ⟨7⟩ config) rfl (by decide) rfl rfl
  · exact runs 0 ⟨7⟩ _ (by decide +kernel) _ held

end Party

end Stream

end Tether
