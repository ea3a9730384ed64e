import Tether.Proofs.Stream.Graceful
import Tether.Proofs.Stream.Refusal

/-!
# One end of a stream and any peer

The runs that the laws of the receiving side are about. The chain delivers anything to the reading
activity: new links at any time and any bytes as messages, for the peer may be one that keeps to nothing.
What the user and the sending activity do comes in between, and the end may be killed or expire at any
point. An act that cannot happen changes nothing.

The reading activity alone decides what is accepted and what is queued for the peer. `judged` says which
it is for a delivery, and every other act leaves all that to it.
-/

namespace Tether.Stream

/-- The frame that is queued, if it is one. -/
def Control.frame? : Control → Option Frame
  | .frame f => some f
  | .writer _ => none

namespace Party

/-- What can happen at an end. -/
inductive Act where
  | write (chunk : Bytes)
  | close
  | read
  | share
  | letGo
  | kill
  | expire
  /-- The chain delivers something. -/
  | deliver (d : Chain.Delivery)
  /-- The chain ends under the reading activity. -/
  | lose (e : Chain.Error)
  /-- The sending activity takes what it is to send next. -/
  | take
  /-- The writer answers to what was taken. -/
  | pass (answer : Except Chain.Error Unit)

/-- The sending activity hands on what it took. Without a writer it is lost. -/
def pass (p : Party) (answer : Except Chain.Error Unit) : Party :=
  match p.hand, p.stream.writer with
  | none, _ => p
  | some _, none => { p with hand := none }
  | some _, some _ => p.sent answer

def step (p : Party) : Act → Party
  | .write chunk => p.write chunk
  | .close => p.close
  | .read => p.read
  | .share => p.share
  | .letGo => p.letGo
  | .kill => p.fail (.chain .killed)
  | .expire => p.expire
  | .deliver d => if p.stream.reading then p.deliver d else p
  | .lose e => if p.stream.reading then p.stopReading (.chain e) else p
  | .take => p.take
  | .pass answer => p.pass answer

/-- A new end. -/
def start (chain : Chain.ChainId) (id : Chain.Id) (config : Config) : Party :=
  { stream := .new chain id config }

/-- The end after a run. -/
def run (p : Party) (acts : List Act) : Party :=
  acts.foldl step p

/-! ## What leaves the receiving side alone -/

/-- The receiving side is as it was, but that something queued may have been taken to be sent. -/
structure Aside (p p' : Party) : Prop where
  receiver : p'.stream.receiver = p.stream.receiver
  reading : p'.stream.reading = p.stream.reading
  config : p'.stream.config = p.stream.config
  accepted : p'.accepted = p.accepted
  control : p'.stream.control <:+ p.stream.control
  agreed : p.stream.buffer.aborted = p.stream.terminal →
    p'.stream.buffer.aborted = p'.stream.terminal

namespace Aside

variable {p p' p'' : Party}

theorem refl (p : Party) : p.Aside p :=
  ⟨rfl, rfl, rfl, rfl, List.suffix_refl _, id⟩

theorem trans (h : p.Aside p') (h' : p'.Aside p'') : p.Aside p'' :=
  ⟨h'.receiver.trans h.receiver, h'.reading.trans h.reading, h'.config.trans h.config,
    h'.accepted.trans h.accepted, h'.control.trans h.control, h'.agreed ∘ h.agreed⟩

theorem fail (p : Party) (e : Error) : p.Aside (p.fail e) := by
  refine ⟨rfl, rfl, rfl, rfl, List.suffix_refl _, fun agreed => ?_⟩
  change (p.stream.buffer.abort e).aborted = some (p.stream.terminal.getD e)
  rw [Buffer.abort_aborted, agreed]

theorem write (p : Party) (chunk : Bytes) : p.Aside (p.write chunk) := by
  obtain ⟨buffer, n, room, -, same⟩ | same := p.write_cases chunk
  · obtain ⟨-, -, -, -, -, rfl⟩ := Buffer.write?_eq_ok.mp room
    rw [same]
    exact ⟨rfl, rfl, rfl, rfl, List.suffix_refl _, id⟩
  · rw [same]
    exact ⟨rfl, rfl, rfl, rfl, List.suffix_refl _, id⟩

theorem close (p : Party) : p.Aside p.close := by
  unfold Party.close Endpoint.close Endpoint.buffered
  obtain ⟨same, -⟩ | ⟨-, -, same⟩ := p.stream.buffer.close_cases <;> rw [same] <;>
    exact ⟨rfl, rfl, rfl, rfl, List.suffix_refl _, id⟩

/-- What a read gives moves from the inbox to the user. -/
theorem read (p : Party) : p.Aside p.read := by
  have keeps {stream : Endpoint} {got : List Bytes} {sawEnd : Bool}
      (rest : { p.stream with inbox := stream.inbox, ended := stream.ended } = stream)
      (accepted : got ++ endMarker stream.ended ++ stream.inbox = p.accepted) :
      p.Aside { p with stream, got, sawEnd } := by
    rw [← rest]
    exact ⟨rfl, rfl, rfl, accepted, List.suffix_refl _, id⟩
  unfold Party.read
  split
  · next given =>
    have reads := Endpoint.read?_eq_some_iff.mp given
    refine keeps reads.rest.symm ?_
    cases reads with
    | chunk fresh filled inbox => simp [Party.accepted, fresh, inbox]
  · next given =>
    have reads := Endpoint.read?_eq_some_iff.mp given
    refine keeps reads.rest.symm ?_
    cases reads with
    | again ended => rfl
    | marker fresh inbox => simp [Party.accepted, fresh, inbox]
  · next given =>
    cases Endpoint.read?_eq_some_iff.mp given with
    | failed => exact refl p
  · exact refl p

theorem letGo (p : Party) : p.Aside p.letGo := by
  have fewer : p.Aside { p with stream := { p.stream with users := p.stream.users - 1 } } :=
    ⟨rfl, rfl, rfl, rfl, List.suffix_refl _, id⟩
  simp only [Party.letGo]
  split
  · have closed := fewer.trans (close _)
    exact ⟨closed.receiver, closed.reading, closed.config, closed.accepted, closed.control,
      closed.agreed⟩
  · exact fewer

theorem take (p : Party) : p.Aside p.take := by
  unfold Party.take
  split
  · exact refl p
  · obtain next | next | ⟨k, rest, queue, next⟩ | ⟨f, rest, queue, next⟩ |
      ⟨k, buffer, seq, unit, -, -, handed, next⟩ := nextAction?_cases p.stream <;> simp only [next]
    · exact refl p
    · exact ⟨rfl, rfl, rfl, rfl, List.suffix_refl _, id⟩
    · exact ⟨rfl, rfl, rfl, rfl, queue ▸ List.suffix_cons _ _, id⟩
    · exact ⟨rfl, rfl, rfl, rfl, queue ▸ List.suffix_cons _ _, id⟩
    · obtain ⟨-, -, -, rfl⟩ := Buffer.next?_eq_ok.mp handed
      exact ⟨rfl, rfl, rfl, rfl, List.suffix_refl _, id⟩

theorem pass (p : Party) (answer : Except Chain.Error Unit) : p.Aside (p.pass answer) := by
  have dropped : p.Aside { p with hand := none } := ⟨rfl, rfl, rfl, rfl, List.suffix_refl _, id⟩
  unfold Party.pass
  split
  · exact refl p
  · exact dropped
  · unfold sent
    split
    · exact dropped
    · exact ⟨rfl, rfl, rfl, rfl, List.suffix_refl _, id⟩
    · next e _ =>
      have failed := dropped.trans (fail _ e)
      exact ⟨failed.receiver, failed.reading, failed.config, failed.accepted, failed.control,
        failed.agreed⟩

end Aside

/-- Whether an act is one of the reading activity. -/
def Act.reads : Act → Bool
  | .deliver _ | .lose _ => true
  | _ => false

theorem aside_step (p : Party) {act : Act} (other : act.reads = false) : p.Aside (p.step act) := by
  cases act with
  | write chunk => exact .write p chunk
  | close => exact .close p
  | read => exact .read p
  | share =>
    change p.Aside p.share
    unfold share
    split
    · exact .refl p
    · exact ⟨rfl, rfl, rfl, rfl, List.suffix_refl _, id⟩
  | letGo => exact .letGo p
  | kill => exact .fail p _
  | expire =>
    change p.Aside p.expire
    unfold expire
    split
    · exact .refl p
    · exact .fail p _
  | take => exact .take p
  | pass answer => exact .pass p answer
  | deliver d => cases other
  | lose e => cases other

end Party

/-! ## What the reading activity decides -/

namespace Endpoint

/-- What becomes of a delivery: what the receiver does about it, or the fault for which it ends the
stream. A count of the peer concerns the buffer alone. -/
def judged (s : Endpoint) : Chain.Delivery → Except Error Receipt
  | .stitch _ _ => .ok s.receiver.stitched
  | .chunk data =>
    match Frame.decode data with
    | .error e => .error e
    | .ok (.chunk seq payload) => s.receiver.chunk s.config.ackFrequency seq payload
    | .ok (.sync count) | .ok (.ack count) =>
      match s.buffer.refusal? (.seek count) with
      | some e => .error e
      | none => .ok { receiver := s.receiver }

end Endpoint

/-- The writer that a delivery brings. -/
def writers : Chain.Delivery → List Control
  | .stitch _ link => [.writer link]
  | .chunk _ => []

namespace Party

/-- The reading activity has done what was to be done about a delivery, and goes on. -/
structure Takes (d : Chain.Delivery) (r : Receipt) (p p' : Party) : Prop where
  receiver : p'.stream.receiver = r.receiver
  reading : p'.stream.reading = p.stream.reading
  config : p'.stream.config = p.stream.config
  inbox : p'.stream.inbox = p.stream.inbox ++ r.accepted.toList
  accepted : p'.accepted = p.accepted ++ r.accepted.toList
  control : p'.stream.control = p.stream.control ++ (writers d ++ r.reply.toList.map .frame)
  agreed : p.stream.buffer.aborted = p.stream.terminal →
    p'.stream.buffer.aborted = p'.stream.terminal
  terminal : p'.stream.terminal = p.stream.terminal

variable {p p' : Party} {d : Chain.Delivery} {r : Receipt} {e : Error}

/-- Nothing that counts depends on whether a linger begins. -/
theorem takes_of_delivered {stream : Endpoint}
    (delivered : p.stream.deliver d =
      if stream.finished then ({ stream with lingering := true }, .linger) else (stream, .goOn))
    (takes : Takes d r p { p with stream }) : Takes d r p (p.deliver d) := by
  unfold deliver
  rw [delivered]
  by_cases finished : stream.finished
  · rw [if_pos finished]
    exact ⟨takes.receiver, takes.reading, takes.config, takes.inbox, takes.accepted, takes.control,
      takes.agreed, takes.terminal⟩
  · rw [if_neg finished]
    exact takes

theorem takes_receipt (p : Party) (data : Bytes) (r : Receipt) :
    Takes (.chunk data) r p { p with stream := p.stream.receipt r } :=
  ⟨rfl, rfl, rfl, rfl, by simp [accepted, Endpoint.receipt], rfl, id, rfl⟩

/-- A count is applied to the buffer, or refused by it. -/
theorem deliver_of_count {data : Bytes} {count cursor : Nat}
    (read : Frame.decode data = .ok (.sync count) ∧ cursor = count ∨
      Frame.decode data = .ok (.ack count) ∧ cursor = max p.stream.buffer.cursor count) :
    match p.stream.buffer.refusal? (.seek count) with
    | some e => p.deliver (.chunk data) = p.stopReading e
    | none => Takes (.chunk data) { receiver := p.stream.receiver } p (p.deliver (.chunk data)) := by
  have delivered := deliver_count p.stream read
  cases taken : p.stream.buffer.take count cursor with
  | mk buffer answer =>
    rw [taken] at delivered
    cases answer with
    | error e =>
      obtain ⟨rfl, refused⟩ := (Buffer.take_eq_error_iff count cursor).mp taken
      rw [refused]
      simp only [deliver, delivered]
    | ok u =>
      have allowed : p.stream.buffer.refusal? (.seek count) = none := by
        cases refused : p.stream.buffer.refusal? (.seek count) with
        | none => rfl
        | some e => cases ((Buffer.take_eq_error_iff count cursor).mpr ⟨rfl, refused⟩).symm.trans taken
      rw [allowed]
      refine takes_of_delivered delivered ⟨rfl, rfl, rfl, (List.append_nil _).symm,
        (List.append_nil _).symm, (List.append_nil _).symm, ?_, rfl⟩
      obtain ⟨_, _, refused⟩ | ⟨-, -, -, same⟩ | ⟨_, _, _, refused⟩ :=
        p.stream.buffer.take_cases count cursor
      · cases refused.symm.trans taken
      · cases same.symm.trans taken
        exact id
      · cases refused.symm.trans taken

/-- The judgment of a delivery says what becomes of it. -/
theorem deliver_judged (p : Party) (d : Chain.Delivery) :
    match p.stream.judged d with
    | .ok r => Takes d r p (p.deliver d)
    | .error e => p.deliver d = p.stopReading e := by
  cases d with
  | stitch seq link =>
    refine ⟨rfl, rfl, rfl, rfl, ?_, ?_, id, rfl⟩
    · exact (List.append_assoc ..).symm
    · exact List.append_assoc ..
  | chunk data =>
    unfold Endpoint.judged
    dsimp only
    cases read : Frame.decode data with
    | error e => simp only [deliver, Endpoint.deliver, read]
    | ok f =>
      cases f with
      | sync count =>
        have counted := deliver_of_count (p := p) (.inl ⟨read, rfl⟩)
        dsimp only
        split at counted <;> exact counted
      | ack count =>
        have counted := deliver_of_count (p := p) (.inr ⟨read, rfl⟩)
        dsimp only
        split at counted <;> exact counted
      | chunk seq payload =>
        dsimp only
        cases taken : p.stream.receiver.chunk p.stream.config.ackFrequency seq payload with
        | error e => simp only [deliver, Endpoint.deliver, read, Endpoint.apply, taken]
        | ok r =>
          refine takes_of_delivered ?_ (p.takes_receipt data r)
          simp only [Endpoint.deliver, read, Endpoint.apply, taken]

end Party

end Tether.Stream
