import Tether.Proofs.Stream.Log
import Tether.Proofs.Stream.View

/-!
# What an event does to the views

Every event of a run is an exchange between the views of the two ends. This is the only module that
looks into what an end does at an event; the laws of streams speak of exchanges alone.

An end's own bookkeeping enters by `Party.Sound`: its buffer holds what is left of its log, it is
dead once it has an error to show, and its user has read no end marker as a chunk.
-/

namespace Tether.Stream

open Chain (LinkId)
open Link (Side)

/-- Whether an error accuses the peer. -/
def Error.accuses : Error → Bool
  | protocolViolation _ => true
  | closed | emptyChunk | chunkTooLarge _ _ | chain _ => false

namespace Endpoint

/-- Whether the stream has ended by a fault of its peer. -/
def faulted (s : Endpoint) : Bool :=
  s.terminal.any Error.accuses

/-- An error that accuses no one changes nothing about that. -/
theorem faulted_fail (s : Endpoint) {e : Error} (fair : e.accuses = false) :
    (s.fail e).faulted = s.faulted := by
  unfold faulted fail
  cases s.terminal <;> simp [fair]

/-- A write that is answered is refused and leaves the stream as it was, or is taken by the
buffer. -/
theorem write?_cases {s s' : Endpoint} {chunk : Bytes} {r : Except Error Unit}
    (written : s.write? chunk = some (s', r)) :
    (s' = s ∧ ∃ e, r = .error e) ∨
      r = .ok () ∧ ∃ buffer n,
        s.buffer.write? chunk = some (buffer, .ok n) ∧ s' = { s with buffer } := by
  unfold write? at written
  split at written
  · cases written
    exact .inl ⟨rfl, _, rfl⟩
  · obtain ⟨⟨buffer, answer⟩, answered, same⟩ := Option.map_eq_some_iff.mp written
    cases same
    cases answer with
    | error e =>
      rw [Buffer.write?_eq_error answered]
      exact .inl ⟨rfl, e, rfl⟩
    | ok n => exact .inr ⟨rfl, buffer, n, answered, rfl⟩

/-- A stream takes only what fits one chunk. -/
theorem length_le_of_write? {s s' : Endpoint} {chunk : Bytes}
    (written : s.write? chunk = some (s', .ok ())) : chunk.length ≤ s.maxChunkLength := by
  unfold write? at written
  split at written
  · cases written
  · next fits => exact Nat.not_lt.mp fits

/-- What a read answers: the end of the stream, once it has been read; else what is first in the inbox;
and the error, once nothing gets in there any more. -/
inductive Reads (s : Endpoint) : Endpoint → Except Error (Option Bytes) → Prop where
  | again (ended : s.ended = true) : Reads s s (.ok none)
  | marker {rest : List Bytes} (fresh : s.ended = false) (inbox : s.inbox = [] :: rest) :
    Reads s { s with inbox := rest, ended := true } (.ok none)
  | chunk {chunk : Bytes} {rest : List Bytes} (fresh : s.ended = false) (filled : chunk ≠ [])
    (inbox : s.inbox = chunk :: rest) : Reads s { s with inbox := rest } (.ok (some chunk))
  | failed (fresh : s.ended = false) (inbox : s.inbox = []) (stopped : s.reading = false) :
    Reads s s (.error s.terminalError)

theorem read?_eq_some_iff {s s' : Endpoint} {r : Except Error (Option Bytes)} :
    s.read? = some (s', r) ↔ s.Reads s' r := by
  constructor
  · intro given
    unfold read? at given
    split at given
    · next ended =>
      cases given
      exact .again ended
    · next notEnded =>
      have fresh : s.ended = false := by simpa using notEnded
      split at given
      · next inbox =>
        cases given
        exact .marker fresh inbox
      · next filled inbox =>
        cases given
        exact .chunk fresh filled inbox
      · next inbox =>
        split at given
        · cases given
        · next stopped =>
          cases given
          exact .failed fresh inbox (by simpa using stopped)
  · rintro (ended | ⟨fresh, inbox⟩ | ⟨fresh, filled, inbox⟩ | ⟨fresh, inbox, stopped⟩)
    · simp [read?, ended]
    · simp [read?, fresh, inbox]
    · simp [read?, fresh, inbox]
    · simp [read?, fresh, inbox, stopped]

theorem read?_eq_none_iff {s : Endpoint} :
    s.read? = none ↔ s.ended = false ∧ s.inbox = [] ∧ s.reading = true := by
  unfold read?
  cases s.ended with
  | true => simp
  | false =>
    match s.inbox with
    | [] => cases s.reading <;> simp
    | [] :: rest => simp
    | (byte :: more) :: rest => simp

theorem Reads.rest {s s' : Endpoint} {r : Except Error (Option Bytes)} (h : s.Reads s' r) :
    s' = { s with inbox := s'.inbox, ended := s'.ended } := by
  cases h <;> rfl

end Endpoint

namespace Party

/-- What the sending activity has taken, with the link it is for. -/
def inHand (p : Party) : List (LinkId × Bytes) :=
  match p.stream.writer, p.hand with
  | some k, some data => [(k, data)]
  | _, _ => []

/-- The messages of an end that have not arrived, in the order of their sending. -/
def outgoing (p : Party) : List (LinkId × Bytes) :=
  p.flight ++ p.inHand ++ Control.routed p.stream.writer p.stream.control

/-- The units accepted from the peer: those read, the end marker if it was read, and the rest. -/
def accepted (p : Party) : List Bytes :=
  p.got ++ endMarker p.stream.ended ++ p.stream.inbox

/-- What the end is to its peer. -/
def view (p : Party) : View where
  wrote := p.wrote
  closed := p.stream.buffer.closed
  acked := p.stream.buffer.acked
  cursor := p.stream.buffer.cursor
  receiver := p.stream.receiver
  accepted := p.accepted
  heard := p.heard
  stitched := p.stitched
  last := Control.lastWriter p.stream.writer p.stream.control
  outgoing := p.outgoing
  dead := p.stream.dead
  faulted := p.stream.faulted
  ackFrequency := p.stream.config.ackFrequency
  capacity := p.stream.buffer.capacity

structure Sound (p : Party) : Prop where
  holds : p.stream.buffer.Holds p.view.log
  aborted_eq : p.stream.buffer.aborted = p.stream.terminal
  dead_eq : p.stream.dead = p.stream.terminal.isSome
  got_nonempty : [] ∉ p.got
  ended_of_sawEnd : p.sawEnd = true → p.stream.ended = true

variable {p : Party} {cut : List LinkId}

theorem sound_start (chain : Chain.ChainId) (id : Chain.Id) (config : Config) :
    Sound { stream := .new chain id config } :=
  ⟨Buffer.holds_new _, rfl, rfl, List.not_mem_nil, nofun⟩

/-! ## Ending -/

theorem view_fail (p : Party) (e : Error) :
    (p.fail e).view = { p.view with dead := true, faulted := (p.stream.fail e).faulted } := by
  simp only [view, fail, Endpoint.fail, outgoing, inHand, accepted, Buffer.abort_closed,
    Buffer.abort_acked, Buffer.abort_cursor, Buffer.abort_capacity]

theorem log_fail (p : Party) (e : Error) : (p.fail e).view.log = p.view.log := by
  rw [view_fail]
  rfl

theorem Sound.fail (h : p.Sound) (e : Error) : (p.fail e).Sound := by
  refine ⟨?_, ?_, rfl, h.got_nonempty, h.ended_of_sawEnd⟩
  · rw [log_fail]
    exact h.holds.abort e
  · change (p.stream.buffer.abort e).aborted = some (p.stream.terminal.getD e)
    rw [Buffer.abort_aborted, h.aborted_eq]

theorem acts_fail (p : Party) {e : Error} (fair : e.accuses = false) :
    View.Acts cut p.view (p.fail e).view := by
  rw [view_fail, p.stream.faulted_fail fair]
  exact .dying cut p.view

/-! ## The user -/

/-- What a write does: the chunk, if it is short enough, gets a place in the buffer, or nothing
changes. -/
theorem write_cases (p : Party) (chunk : Bytes) :
    (∃ buffer n, p.stream.buffer.write? chunk = some (buffer, .ok n) ∧
      chunk.length ≤ p.stream.maxChunkLength ∧
      p.write chunk = { p with
        stream := { p.stream with buffer }, wrote := p.wrote ++ [chunk] }) ∨
      p.write chunk = p := by
  unfold write
  cases written : p.stream.write? chunk with
  | none => exact .inr rfl
  | some answer =>
    obtain ⟨s', r⟩ := answer
    obtain ⟨rfl, e, rfl⟩ | ⟨rfl, buffer, n, room, rfl⟩ := Endpoint.write?_cases written
    · exact .inr rfl
    · exact .inl ⟨buffer, n, room, Endpoint.length_le_of_write? written, rfl⟩

theorem Sound.write_acts (h : p.Sound) (chunk : Bytes) :
    (p.write chunk).Sound ∧ View.Acts cut p.view (p.write chunk).view := by
  obtain ⟨buffer, n, room, -, same⟩ | same := p.write_cases chunk
  · obtain ⟨nonempty, aborted, opened, -, -, rfl⟩ := Buffer.write?_eq_ok.mp room
    have log : p.wrote ++ [chunk] ++ endMarker p.stream.buffer.closed =
        p.view.log ++ [chunk] := by
      simp [View.log, view, opened]
    rw [same]
    refine ⟨⟨?_, h.aborted_eq, h.dead_eq, h.got_nonempty, h.ended_of_sawEnd⟩, ?_⟩
    · have written := h.holds.write room
      rw [← log] at written
      exact written
    · exact .writes (v := p.view) nonempty opened
  · rw [same]
    exact ⟨h, .idle cut p.view⟩

theorem Sound.close_acts (h : p.Sound) : p.close.Sound ∧ View.Acts cut p.view p.close.view := by
  unfold close Endpoint.close Endpoint.buffered
  obtain ⟨same, -⟩ | ⟨aborted, opened, same⟩ := p.stream.buffer.close_cases
  · simp only [same]
    exact ⟨⟨h.holds, h.aborted_eq, h.dead_eq, h.got_nonempty, h.ended_of_sawEnd⟩, .idle cut p.view⟩
  · have log : p.view.log = p.wrote := by
      simp [View.log, view, opened]
    simp only [same]
    refine ⟨⟨?_, h.aborted_eq, h.dead_eq, h.got_nonempty, h.ended_of_sawEnd⟩, ?_⟩
    · have held := h.holds
      rw [log] at held
      refine ⟨held.append [], held.acked_le, ?_⟩
      exact Nat.le_trans held.cursor_le (by simp [View.log, view])
    · exact .closes (v := p.view) opened

/-- A read takes from the inbox, and tells the user; nothing else is touched. -/
theorem read_rest (p : Party) : ∃ inbox ended got sawEnd,
    p.read = { p with stream := { p.stream with inbox, ended }, got, sawEnd } := by
  have rest {s : Endpoint} {r : Except Error (Option Bytes)} (given : p.stream.read? = some (s, r)) :
      s = { p.stream with inbox := s.inbox, ended := s.ended } :=
    (Endpoint.read?_eq_some_iff.mp given).rest
  unfold read
  split
  · next s chunk given => exact ⟨s.inbox, s.ended, p.got ++ [chunk], p.sawEnd, by rw [← rest given]⟩
  · next s given => exact ⟨s.inbox, s.ended, p.got, true, by rw [← rest given]⟩
  · next s e given => exact ⟨s.inbox, s.ended, p.got, p.sawEnd, by rw [← rest given]⟩
  · exact ⟨p.stream.inbox, p.stream.ended, p.got, p.sawEnd, rfl⟩

/-- What a read gives moves from the inbox to the user, so that the units accepted stay the same. -/
theorem Sound.read_acts (h : p.Sound) : p.read.Sound ∧ View.Acts cut p.view p.read.view := by
  unfold read
  split
  · next s chunk given =>
    cases Endpoint.read?_eq_some_iff.mp given with
    | @chunk _ rest fresh filled inbox =>
      have same : view { p with
          stream := { p.stream with inbox := rest }, got := p.got ++ [chunk] } = p.view := by
        simp [view, accepted, outgoing, inHand, Endpoint.faulted, fresh, inbox]
      rw [same]
      refine ⟨⟨h.holds, h.aborted_eq, h.dead_eq, ?_, h.ended_of_sawEnd⟩, .idle cut p.view⟩
      intro mem
      rcases List.mem_append.mp mem with mem | mem
      · exact h.got_nonempty mem
      · exact filled (List.mem_singleton.mp mem).symm
  · next s given =>
    cases Endpoint.read?_eq_some_iff.mp given with
    | again ended =>
      exact ⟨⟨h.holds, h.aborted_eq, h.dead_eq, h.got_nonempty, fun _ => ended⟩, .idle cut p.view⟩
    | @marker rest fresh inbox =>
      have same : view { p with
          stream := { p.stream with inbox := rest, ended := true }, sawEnd := true } = p.view := by
        simp [view, accepted, outgoing, inHand, Endpoint.faulted, fresh, inbox]
      rw [same]
      exact ⟨⟨h.holds, h.aborted_eq, h.dead_eq, h.got_nonempty, fun _ => rfl⟩, .idle cut p.view⟩
  · next s e given =>
    cases Endpoint.read?_eq_some_iff.mp given with
    | failed => exact ⟨h, .idle cut p.view⟩
  · exact ⟨h, .idle cut p.view⟩

theorem Sound.share_acts (h : p.Sound) : p.share.Sound ∧ View.Acts cut p.view p.share.view := by
  unfold share
  split
  · exact ⟨h, .idle cut p.view⟩
  · exact ⟨⟨h.holds, h.aborted_eq, h.dead_eq, h.got_nonempty, h.ended_of_sawEnd⟩, .idle cut p.view⟩

theorem Sound.letGo_acts (h : p.Sound) : p.letGo.Sound ∧ View.Acts cut p.view p.letGo.view := by
  have fewer : Sound { p with stream := { p.stream with users := p.stream.users - 1 } } :=
    ⟨h.holds, h.aborted_eq, h.dead_eq, h.got_nonempty, h.ended_of_sawEnd⟩
  simp only [letGo]
  split
  · obtain ⟨sound, act⟩ : _ ∧ View.Acts cut _ _ := fewer.close_acts
    exact ⟨⟨sound.holds, sound.aborted_eq, sound.dead_eq, sound.got_nonempty,
      sound.ended_of_sawEnd⟩, act⟩
  · exact ⟨fewer, .idle cut p.view⟩

theorem Sound.expire_acts (h : p.Sound) : p.expire.Sound ∧ View.Acts cut p.view p.expire.view := by
  unfold expire
  split
  · exact ⟨h, .idle cut p.view⟩
  · exact ⟨h.fail .closed, acts_fail p rfl⟩

/-! ## The reading activity -/

theorem Sound.stopReading (h : p.Sound) (e : Error) : (p.stopReading e).Sound :=
  have failed := h.fail e
  ⟨failed.holds, failed.aborted_eq, failed.dead_eq, failed.got_nonempty, failed.ended_of_sawEnd⟩

theorem view_stopReading (p : Party) (e : Error) : (p.stopReading e).view = (p.fail e).view :=
  rfl

theorem view_receipt (p : Party) (r : Receipt) :
    view { p with stream := p.stream.receipt r } = p.view.receipt r := by
  simp [view, View.receipt, outgoing, inHand, accepted, Endpoint.receipt, Endpoint.faulted,
    Control.routed_append, Control.lastWriter_append]

theorem Sound.receipt (h : p.Sound) (r : Receipt) :
    Sound { p with stream := p.stream.receipt r } :=
  ⟨h.holds, h.aborted_eq, h.dead_eq, h.got_nonempty, h.ended_of_sawEnd⟩

/-- A delivery that ends well leaves the end as the receiver and the buffer have made it, or lets it
linger besides. -/
theorem deliver_settled {d : Chain.Delivery} {stream : Endpoint}
    (delivered : p.stream.deliver d =
      if stream.finished then ({ stream with lingering := true }, .linger) else (stream, .goOn))
    (sound : Sound { p with stream }) :
    (p.deliver d).Sound ∧ (p.deliver d).view = view { p with stream } := by
  unfold deliver
  rw [delivered]
  by_cases finished : stream.finished
  · rw [if_pos finished]
    exact ⟨⟨sound.holds, sound.aborted_eq, sound.dead_eq, sound.got_nonempty,
      sound.ended_of_sawEnd⟩, rfl⟩
  · rw [if_neg finished]
    exact ⟨sound, rfl⟩

theorem Sound.stitch_acts (h : p.Sound) (k : LinkId) :
    (p.stitch k).Sound ∧ View.Acts cut p.view (p.stitch k).view := by
  unfold stitch
  split
  · next condition =>
    have given : Sound { p with
        stitched := k, stream := { p.stream with control := p.stream.control ++ [.writer k] } } :=
      ⟨h.holds, h.aborted_eq, h.dead_eq, h.got_nonempty, h.ended_of_sawEnd⟩
    have view_given : view { p with
        stitched := k, stream := { p.stream with control := p.stream.control ++ [.writer k] } } =
        { p.view with stitched := k, last := some k } := by
      simp [view, outgoing, inHand, accepted, Endpoint.faulted, Control.routed_append,
        Control.lastWriter_append, Control.routed, Control.lastWriter]
    refine ⟨given.receipt p.stream.receiver.stitched, ?_⟩
    have stitched : View.Acts cut p.view _ := .stitches condition.2
    rw [← view_given] at stitched
    change View.Acts cut p.view (View.receipt _ p.stream.receiver.stitched) at stitched
    rw [← view_receipt] at stitched
    exact stitched
  · exact ⟨h, .idle cut p.view⟩

theorem deliver_count (s : Endpoint) {data : Bytes} {count cursor : Nat}
    (read : Frame.decode data = .ok (.sync count) ∧ cursor = count ∨
      Frame.decode data = .ok (.ack count) ∧ cursor = max s.buffer.cursor count) :
    s.deliver (.chunk data) =
      match s.buffer.take count cursor with
      | (buffer, .error e) => ({ s with buffer }, .fail e)
      | (buffer, .ok ()) =>
        if { s with buffer }.finished then ({ s with buffer, lingering := true }, .linger)
        else ({ s with buffer }, .goOn) := by
  rcases read with ⟨read, rfl⟩ | ⟨read, rfl⟩
  · simp only [Endpoint.deliver, read, Endpoint.apply, Endpoint.buffered, Buffer.seek]
    rcases s.buffer.take cursor cursor with ⟨buffer, _ | _⟩ <;> rfl
  · simp only [Endpoint.deliver, read, Endpoint.apply, Endpoint.buffered, Buffer.ack]
    rcases s.buffer.take count (max s.buffer.cursor count) with ⟨buffer, _ | _⟩ <;> rfl

theorem Sound.hear_takes_count (h : p.Sound) {data : Bytes} {count cursor : Nat}
    (read : Frame.decode data = .ok (.sync count) ∧ cursor = count ∨
      Frame.decode data = .ok (.ack count) ∧ cursor = max p.stream.buffer.cursor count) :
    (p.hear data).Sound ∧ View.Takes p.view data (p.hear data).view := by
  have heard : p.heard ++ (countOf? data).toList = p.heard ++ [count] := by
    rcases read with ⟨read, -⟩ | ⟨read, -⟩ <;> simp [countOf?, read]
  have kind : Frame.decode data = .ok (.sync count) ∨ Frame.decode data = .ok (.ack count) :=
    read.imp And.left And.left
  have listened : Sound { p with heard := p.heard ++ [count] } :=
    ⟨h.holds, h.aborted_eq, h.dead_eq, h.got_nonempty, h.ended_of_sawEnd⟩
  have delivered := deliver_count p.stream read
  unfold hear
  rw [heard]
  obtain ⟨e, aborted, taken⟩ | ⟨aborted, lower, upper, taken⟩ | ⟨aborted, outside, detail, taken⟩ :=
    p.stream.buffer.take_cases count cursor
  · -- the stream has ended, and the error of its end stays
    rw [taken] at delivered
    simp only [deliver, delivered]
    refine ⟨listened.stopReading e, ?_⟩
    have ended : p.stream.terminal = some e := h.aborted_eq ▸ aborted
    have dead : p.stream.dead = true := by rw [h.dead_eq, ended]; rfl
    have same : view (Party.stopReading { p with heard := p.heard ++ [count] } e) =
        { p.view with heard := p.view.heard ++ [count] } := by
      rw [view_stopReading, view_fail]
      have faulted : (p.stream.fail e).faulted = p.stream.faulted := by
        simp [Endpoint.faulted, Endpoint.fail, ended]
      simp [view, outgoing, inHand, accepted, dead, faulted]
    rw [same]
    exact .late kind dead
  · rw [h.holds.total] at upper
    rw [taken] at delivered
    have ahead : count ≤ cursor ∧ cursor ≤ p.view.log.length := by
      have := h.holds.cursor_le
      rcases read with ⟨-, rfl⟩ | ⟨-, rfl⟩
      · exact ⟨Nat.le_refl _, upper⟩
      · exact ⟨Nat.le_max_right _ _, Nat.max_le.mpr ⟨this, upper⟩⟩
    have released := h.holds.release lower ahead.1 ahead.2
    obtain ⟨sound, same⟩ := deliver_settled (p := { p with heard := p.heard ++ [count] }) delivered
      ⟨released, h.aborted_eq, h.dead_eq, h.got_nonempty, h.ended_of_sawEnd⟩
    refine ⟨sound, ?_⟩
    have alive : p.stream.dead = false := by
      rw [h.dead_eq, ← h.aborted_eq, aborted]
      rfl
    rw [same]
    exact .count (v := p.view) read alive lower upper
  · rw [h.holds.total] at outside
    rw [taken] at delivered
    simp only [deliver, delivered]
    refine ⟨listened.stopReading _, ?_⟩
    rw [view_stopReading, view_fail]
    exact .outside (v := p.view) kind outside

/-- What a message does to the end at which it arrives. -/
theorem Sound.hear_takes (h : p.Sound) (data : Bytes) :
    (p.hear data).Sound ∧ View.Takes p.view data (p.hear data).view := by
  cases read : Frame.decode data with
  | error e =>
    have heard : p.heard ++ (countOf? data).toList = p.heard := by simp [countOf?, read]
    unfold hear
    rw [heard]
    simp only [deliver, Endpoint.deliver, read]
    refine ⟨h.stopReading e, ?_⟩
    rw [view_stopReading, view_fail]
    exact .garbled read
  | ok f =>
    cases f with
    | sync count => exact h.hear_takes_count (.inl ⟨read, rfl⟩)
    | ack count => exact h.hear_takes_count (.inr ⟨read, rfl⟩)
    | chunk seq payload =>
      have heard : p.heard ++ (countOf? data).toList = p.heard := by simp [countOf?, read]
      unfold hear
      rw [heard]
      cases taken : p.stream.receiver.chunk p.stream.config.ackFrequency seq payload with
      | error e =>
        simp only [deliver, Endpoint.deliver, read, Endpoint.apply, taken]
        refine ⟨h.stopReading e, ?_⟩
        rw [view_stopReading, view_fail]
        exact .afterEnd read taken
      | ok r =>
        have delivered : p.stream.deliver (.chunk data) =
            if (p.stream.receipt r).finished then
              ({ p.stream.receipt r with lingering := true }, .linger)
            else (p.stream.receipt r, .goOn) := by
          simp only [Endpoint.deliver, read, Endpoint.apply, taken]
        obtain ⟨sound, same⟩ := deliver_settled delivered (h.receipt r)
        refine ⟨sound, ?_⟩
        rw [same, view_receipt]
        exact .unit read taken

/-! ## The sending activity -/

/-- What the sending activity can do next: nothing, or take the first message queued for it, or,
once none is, the unit under the cursor. -/
theorem nextAction?_cases (s : Endpoint) :
    s.nextAction? = none ∨ s.nextAction? = some .stop ∨
      (∃ k rest, s.control = .writer k :: rest ∧
        s.nextAction? = some (.change { s with control := rest, writer := some k } s.writer)) ∨
      (∃ f rest, s.control = .frame f :: rest ∧
        s.nextAction? = some (.send { s with control := rest } f.encode)) ∨
      ∃ k buffer seq unit, s.control = [] ∧ s.writer = some k ∧
        s.buffer.next? = some (buffer, .ok (seq, unit)) ∧
        s.nextAction? = some (.send { s with buffer } (Frame.chunk seq unit).encode) := by
  unfold Endpoint.nextAction?
  by_cases dead : s.dead
  · exact .inr (.inl (if_pos dead))
  rw [if_neg dead]
  match queue : s.control with
  | .writer k :: rest => exact .inr (.inr (.inl ⟨k, rest, rfl, rfl⟩))
  | .frame f :: rest => exact .inr (.inr (.inr (.inl ⟨f, rest, rfl, rfl⟩)))
  | [] =>
    match held : s.writer with
    | none => exact .inl rfl
    | some k =>
      match handed : s.buffer.next? with
      | none => exact .inl rfl
      | some (_, .error _) => exact .inr (.inl rfl)
      | some (buffer, .ok (seq, unit)) =>
        exact .inr (.inr (.inr (.inr ⟨k, buffer, seq, unit, rfl, rfl, rfl, rfl⟩)))

/-- A frame that is taken stays at its place among the messages for its link, and so does what
follows a writer that is taken. A unit is new among them. -/
theorem Sound.take_acts (h : p.Sound) : p.take.Sound ∧ View.Acts cut p.view p.take.view := by
  have quiet : p.Sound ∧ View.Acts cut p.view p.view := ⟨h, .idle cut p.view⟩
  unfold take
  split
  · exact quiet
  · next free =>
    have hand : p.hand = none := by simpa using (not_or.mp free).1
    obtain next | next | ⟨k, rest, queue, next⟩ | ⟨f, rest, queue, next⟩ |
      ⟨k, buffer, seq, unit, queue, held, handed, next⟩ := nextAction?_cases p.stream
    · simp only [next]
      exact quiet
    · simp only [next]
      exact ⟨⟨h.holds, h.aborted_eq, h.dead_eq, h.got_nonempty, h.ended_of_sawEnd⟩,
        .idle cut p.view⟩
    · have same : view { p with stream := { p.stream with control := rest, writer := some k } } =
          p.view := by
        simp [view, accepted, Endpoint.faulted, outgoing, inHand, hand, queue, Control.routed,
          Control.lastWriter]
      simp only [next]
      refine ⟨⟨h.holds, h.aborted_eq, h.dead_eq, h.got_nonempty, h.ended_of_sawEnd⟩, ?_⟩
      rw [same]
      exact .idle cut p.view
    · have same : view { p with
          stream := { p.stream with control := rest }, hand := some f.encode } = p.view := by
        cases held : p.stream.writer <;>
          simp [view, accepted, Endpoint.faulted, outgoing, inHand, hand, held, queue,
            Control.routed, Control.lastWriter]
      simp only [next]
      refine ⟨⟨h.holds, h.aborted_eq, h.dead_eq, h.got_nonempty, h.ended_of_sawEnd⟩, ?_⟩
      rw [same]
      exact .idle cut p.view
    · obtain ⟨rfl, found, -, rfl⟩ := h.holds.next handed
      simp only [next]
      refine ⟨⟨h.holds.advance found, h.aborted_eq, h.dead_eq, h.got_nonempty,
        h.ended_of_sawEnd⟩, ?_⟩
      have last : p.view.last = some k := by simp [view, queue, held, Control.lastWriter]
      have sent : View.Acts cut p.view _ := .sends found last
      have same : view { p with
          stream := { p.stream with
            buffer := { p.stream.buffer with cursor := p.stream.buffer.cursor + 1 } }
          hand := some (Frame.chunk p.stream.buffer.cursor unit).encode } =
          { p.view with
            cursor := p.view.cursor + 1
            outgoing := p.view.outgoing ++
              [(k, (Frame.chunk p.view.cursor unit).encode)] } := by
        simp [view, accepted, Endpoint.faulted, outgoing, inHand, hand, held, queue,
          Control.routed]
      rw [same]
      exact sent

end Party

namespace Duplex

variable {d : Duplex} {side : Side}

/-- A message that is taken and lost with its link leaves those for other links. -/
theorem lost_outgoing {p : Party} {k : LinkId} {data : Bytes} (hand : p.hand = some data)
    (held : p.stream.writer = some k) :
    (p.flight ++ Control.routed (some k) p.stream.control).Sublist p.view.outgoing ∧
      ∀ j, j ≠ k → onLink j (p.flight ++ Control.routed (some k) p.stream.control) =
        onLink j p.view.outgoing := by
  have before : p.view.outgoing =
      p.flight ++ (k, data) :: Control.routed (some k) p.stream.control := by
    simp [Party.view, Party.outgoing, Party.inHand, hand, held]
  rw [before]
  refine ⟨(List.sublist_cons_self _ _).append_left _, fun j other => ?_⟩
  rw [onLink_append, onLink_append, onLink_cons_other other.symm]

/-- What becomes of the frames queued for a writer that is let go, and of the one it was given. -/
theorem letGo_fades {p : Party} {cut : List LinkId} {k : LinkId} {data : Bytes} (lost : k ∈ cut)
    (hand : p.hand = some data) (held : p.stream.writer = some k) :
    View.Acts cut p.view
      (Party.view { p with hand := none, stream := { p.stream with writer := none } }) := by
  obtain ⟨fewer, kept⟩ := lost_outgoing hand held
  have after :
      Party.view { p with hand := none, stream := { p.stream with writer := none } } =
        { p.view with
          outgoing := p.flight ++ Control.routed none p.stream.control
          last := Control.lastWriter none p.stream.control } := by
    simp [Party.view, Party.accepted, Party.outgoing, Party.inHand, Endpoint.faulted]
  have last : p.view.last = Control.lastWriter (some k) p.stream.control := by
    simp [Party.view, held]
  rw [after]
  refine .fades ?_ ?_ ?_ id
  · exact ((Control.routed_none_sublist (some k) _).append_left _).trans fewer
  · intro j whole
    have other : j ≠ k := fun same => whole (same ▸ lost)
    rw [← kept j other, onLink_append, onLink_append, Control.onLink_routed_none other]
  · rw [last]
    exact (Control.lastWriter_none k p.stream.control).imp id
      fun ⟨gone, own⟩ => ⟨gone, k, lost, own⟩

/-- What is handed to a whole link goes on to it. The rest is lost with its link: a link that is cut
already, or is cut by the failure of its writer, which is let go or dies with the end. -/
theorem pass_acts (h : (d.party side).Sound) (answer : Except Chain.Error Unit) :
    d.cut ⊆ (d.pass side answer).cut ∧
      (d.pass side answer).party side.opposite = d.party side.opposite ∧
      ((d.pass side answer).party side).Sound ∧
      View.Acts (d.pass side answer).cut (d.party side).view
        ((d.pass side answer).party side).view := by
  obtain ⟨p, same⟩ : ∃ p, d.party side = p := ⟨_, rfl⟩
  rw [same] at h ⊢
  have idle : Party.Sound { p with hand := none } :=
    ⟨h.holds, h.aborted_eq, h.dead_eq, h.got_nonempty, h.ended_of_sawEnd⟩
  unfold pass
  simp only [same]
  match hand : p.hand, held : p.stream.writer with
  | none, _ =>
    rw [same]
    exact ⟨List.Subset.refl _, rfl, h, .idle _ p.view⟩
  | some data, none =>
    have lost : Party.view { p with hand := none } = p.view := by
      simp [Party.view, Party.accepted, Party.outgoing, Party.inHand, hand, held]
    simp only [cut_setParty, party_setParty, party_setParty_opposite, lost]
    exact ⟨List.Subset.refl _, trivial, idle, .idle _ p.view⟩
  | some data, some k =>
    obtain ⟨fewer, kept⟩ := lost_outgoing hand held
    cases answer with
    | ok u =>
      simp only [cut_setParty, party_setParty, party_setParty_opposite, Party.sent,
        Endpoint.Sent.ofResult]
      refine ⟨List.Subset.refl _, trivial,
        ⟨h.holds, h.aborted_eq, h.dead_eq, h.got_nonempty, h.ended_of_sawEnd⟩, ?_⟩
      by_cases lost : k ∈ d.cut
      · have after : Party.view { p with hand := none } =
            { p.view with outgoing := p.flight ++ Control.routed (some k) p.stream.control } := by
          simp [Party.view, Party.accepted, Party.outgoing, Party.inHand, held]
        simp only [if_pos lost, after]
        exact .fades fewer (fun j whole => kept j fun same => whole (same ▸ lost)) (.inl rfl) id
      · have sent : Party.view { p with flight := p.flight ++ [(k, data)], hand := none } =
            p.view := by
          simp [Party.view, Party.accepted, Party.outgoing, Party.inHand, hand, held]
        simp only [if_neg lost, sent]
        exact .idle _ p.view
    | error e =>
      have lost : k ∈ k :: d.cut := List.mem_cons_self
      simp only [party_cut, party_setParty, party_setParty_opposite, Party.sent]
      refine ⟨List.subset_cons_self _ _, trivial, ?_⟩
      by_cases superseded : e = .superseded
      · subst superseded
        exact ⟨⟨h.holds, h.aborted_eq, h.dead_eq, h.got_nonempty, h.ended_of_sawEnd⟩,
          letGo_fades lost hand held⟩
      · have verdict : Endpoint.Sent.ofResult (.error e) = .fail (.chain e) := by
          cases e <;> first | rfl | exact absurd rfl superseded
        have failed := idle.fail (.chain e)
        have after : Party.view { p with
            hand := none, stream := { p.stream.fail (.chain e) with sending := false } } =
            { p.view with
              outgoing := p.flight ++ Control.routed (some k) p.stream.control
              dead := true } := by
          have fair := p.stream.faulted_fail (e := .chain e) rfl
          simp only [Endpoint.faulted, Endpoint.fail] at fair
          simp [Party.view, Party.accepted, Party.outgoing, Party.inHand, Endpoint.faulted,
            Endpoint.fail, held, fair]
        simp only [verdict, after]
        exact ⟨⟨failed.holds, failed.aborted_eq, failed.dead_eq, failed.got_nonempty,
            failed.ended_of_sawEnd⟩,
          .fades fewer (fun j whole => kept j fun same => whole (same ▸ lost)) (.inl rfl)
            fun _ => rfl⟩

/-! ## Events -/

def Sound (d : Duplex) : Prop :=
  ∀ side, (d.party side).Sound

theorem Sound.of_sides (h : (d.party side).Sound) (h' : (d.party side.opposite).Sound) :
    d.Sound := by
  intro s
  cases side <;> cases s <;> assumption

/-- What two states of the ends have to do with each other after an event at a side. -/
structure Exchanged (d : Duplex) (side : Side) (d' : Duplex) : Prop where
  sound : d'.Sound
  exchange : View.Exchange (d.party side).view (d.party side.opposite).view d.cut
    (d'.party side).view (d'.party side.opposite).view d'.cut

theorem exchanged_setParty {p : Party} (h : d.Sound)
    (act : p.Sound ∧ View.Acts d.cut (d.party side).view p.view) :
    Exchanged d side (d.setParty side p) where
  sound := by
    refine @Sound.of_sides _ side ?_ ?_
    · rw [party_setParty]
      exact act.1
    · rw [party_setParty_opposite]
      exact h side.opposite
  exchange := by
    rw [party_setParty, party_setParty_opposite, cut_setParty]
    exact .acts (List.Subset.refl _) act.2

theorem exchanged_refl (h : d.Sound) (side : Side) : Exchanged d side d :=
  ⟨h, .acts (List.Subset.refl _) (.idle _ _)⟩

theorem exchanged_receive (h : d.Sound) (side : Side) : Exchanged d side (d.receive side) := by
  unfold receive
  split
  · exact exchanged_refl h side
  · next data rest arriving =>
    split
    · obtain ⟨front, back, inFlight, rfl, first⟩ := Party.oldest_eq_some arriving
      obtain ⟨sound, taken⟩ := (h side).hear_takes data
      have peer := h side.opposite
      have before : (d.party side.opposite).view.outgoing =
          front ++ ((d.party side).view.stitched, data) :: (back ++
            (d.party side.opposite).inHand ++
            Control.routed (d.party side.opposite).stream.writer
              (d.party side.opposite).stream.control) := by
        simp [Party.view, Party.outgoing, inFlight]
      have after : Party.view { d.party side.opposite with flight := front ++ back } =
          { (d.party side.opposite).view with
            outgoing := front ++ (back ++ (d.party side.opposite).inHand ++
              Control.routed (d.party side.opposite).stream.writer
                (d.party side.opposite).stream.control) } := by
        simp [Party.view, Party.accepted, Party.outgoing, Party.inHand]
      constructor
      · refine @Sound.of_sides _ side ?_ ?_
        · rw [party_setParty_of_opposite, party_setParty]
          exact sound
        · rw [party_setParty]
          exact ⟨peer.holds, peer.aborted_eq, peer.dead_eq, peer.got_nonempty,
            peer.ended_of_sawEnd⟩
      · rw [party_setParty_of_opposite, party_setParty, party_setParty, cut_setParty,
          cut_setParty, after]
        exact .takes before first taken
    · exact exchanged_refl h side

theorem exchanged_pass (h : d.Sound) (side : Side) (answer : Except Chain.Error Unit) :
    Exchanged d side (d.pass side answer) := by
  obtain ⟨more, peer, sound, act⟩ := pass_acts (h side) answer
  constructor
  · refine .of_sides sound ?_
    rw [peer]
    exact h side.opposite
  · rw [peer]
    exact .acts more act

/-- Every event is an exchange between the views of the two ends. -/
theorem exchanged_step (h : d.Sound) (side : Side) (act : Act) :
    Exchanged d side (d.step (side, act)) := by
  have p := h side
  cases act with
  | write chunk => exact exchanged_setParty h (p.write_acts chunk)
  | close => exact exchanged_setParty h p.close_acts
  | read => exact exchanged_setParty h p.read_acts
  | share => exact exchanged_setParty h p.share_acts
  | letGo => exact exchanged_setParty h p.letGo_acts
  | kill => exact exchanged_setParty h ⟨p.fail _, Party.acts_fail _ rfl⟩
  | expire => exact exchanged_setParty h p.expire_acts
  | stitch k => exact exchanged_setParty h (p.stitch_acts k)
  | receive => exact exchanged_receive h side
  | lose e =>
    simp only [step]
    split
    · exact exchanged_setParty h ⟨p.stopReading _, Party.acts_fail _ rfl⟩
    · exact exchanged_refl h side
  | take => exact exchanged_setParty h p.take_acts
  | pass answer => exact exchanged_pass h side answer
  | cut k =>
    refine ⟨fun s => ?_, ?_⟩
    · simp only [step, party_cut]
      exact h s
    · simp only [step, party_cut]
      exact .acts (List.subset_cons_self _ _) (.idle _ _)

theorem sound_start (id : Chain.Id) (near far : Config) : (start id near far).Sound := by
  intro side
  cases side <;> exact Party.sound_start _ _ _

/-! ## Laws -/

/-- A property of what an end is to its peer, which may depend on the links that are cut. -/
abbrev Law := View → View → List LinkId → Prop

/-- A law holds between the two ends in both directions. -/
def Obeys (d : Duplex) (law : Law) : Prop :=
  ∀ side, law (d.party side).view (d.party side.opposite).view d.cut

theorem Obeys.back {law : Law} (h : d.Obeys law) (side : Side) :
    law (d.party side.opposite).view (d.party side).view d.cut := by
  have opposite := h side.opposite
  rwa [Side.opposite_opposite] at opposite

/-- An exchange keeps a law: for the end that acts, towards the other, and the other way round. -/
def Law.Kept (law : Law) : Prop :=
  ∀ {v w v' w' : View} {cut cut' : List LinkId}, View.Exchange v w cut v' w' cut' →
    law v w cut → law w v cut → law v' w' cut' ∧ law w' v' cut'

/-- A law that exchanges keep holds after every run of two new ends if it holds at their start. -/
theorem obeys_run {law : Law} (kept : law.Kept) (id : Chain.Id) (near far : Config)
    (begins : (start id near far).Obeys law) (events : List Event) :
    ((start id near far).run events).Sound ∧ ((start id near far).run events).Obeys law := by
  refine run_induction (P := fun d => d.Sound ∧ d.Obeys law) ⟨sound_start id near far, begins⟩ ?_
    events
  rintro d ⟨side, act⟩ ⟨sound, obeys⟩
  obtain ⟨sound', exchange⟩ := exchanged_step sound side act
  obtain ⟨forth', back'⟩ := kept exchange (obeys side) (obeys.back side)
  refine ⟨sound', fun s => ?_⟩
  cases side <;> cases s <;> assumption

end Duplex

end Tether.Stream
