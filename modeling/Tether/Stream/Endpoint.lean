import Tether.Chain.Registry
import Tether.Stream.Receiver

/-!
# One end of a stream

A stream gives exactly-once, in-order delivery of chunks over a chain. Two activities run beneath
its user: the reading one takes the chain's deliveries, accepts chunks, and applies the peer's
counts to the retransmission buffer; the sending one hands the frames of the reading one, and the
units under the buffer's cursor, to the writer of the current link. Without a writer a control frame
is lost, which the next stitch makes good.

The first error ends the stream and stays: it is what every later call fails with. Once both sides
have closed and everything was acknowledged, the stream lingers for a while to answer its peer, and
then ends gracefully. It also lingers once its user has let go of every half.
-/

namespace Tether.Stream

/-- What the reading activity hands to the sending one. -/
inductive Control where
  /-- The writer of a new link. -/
  | writer (link : Chain.LinkId)
  /-- A frame to send. -/
  | frame (f : Frame)
  deriving DecidableEq, Repr

/-- One end of a stream. -/
structure Endpoint where
  /-- The chain that the stream runs on. -/
  chain : Chain.ChainId
  id : Chain.Id
  config : Config
  buffer : Buffer
  receiver : Receiver := {}
  dead : Bool := false
  terminal : Option Error := none
  /-- Whether the reading activity goes on. -/
  reading : Bool := true
  /-- Whether the sending activity goes on. -/
  sending : Bool := true
  control : List Control := []
  writer : Option Chain.LinkId := none
  /-- Units accepted and not read by the user yet. -/
  inbox : List Bytes := []
  /-- Whether the user has read the end marker. -/
  ended : Bool := false
  /-- Whether the end was already put off by a linger of both sides closed. -/
  lingering : Bool := false
  /-- How many halves of the stream its users hold. -/
  users : Nat := 2
  deriving Repr

namespace Endpoint

/-- A stream on a chain. -/
def new (chain : Chain.ChainId) (id : Chain.Id) (config : Config) : Endpoint :=
  { chain, id, config, buffer := .new config.bufferCapacity }

/-- Why the stream ended. -/
def terminalError (s : Endpoint) : Error :=
  s.terminal.getD (.chain .killed)

/-- Ends the stream. The first error stays. The chain is to be killed along with this. -/
def fail (s : Endpoint) (e : Error) : Endpoint :=
  { s with
    terminal := some (s.terminal.getD e)
    dead := true
    buffer := s.buffer.abort e }

/-! ## The reading activity -/

/-- Takes in a receipt: the reply goes to the sending activity, the unit to the user. -/
def receipt (s : Endpoint) (r : Receipt) : Endpoint :=
  { s with
    receiver := r.receiver
    control := s.control ++ r.reply.toList.map .frame
    inbox := s.inbox ++ r.accepted.toList }

/-- Takes in the outcome of a call on the buffer. -/
def buffered (s : Endpoint) (r : Buffer × Except Error Unit) : Endpoint × Except Error Unit :=
  ({ s with buffer := r.1 }, r.2)

/-- Applies a frame of the peer. -/
def apply (s : Endpoint) : Frame → Endpoint × Except Error Unit
  | .chunk seq payload =>
    match s.receiver.chunk s.config.ackFrequency seq payload with
    | .ok r => (s.receipt r, .ok ())
    | .error e => (s, .error e)
  | .sync count => s.buffered (s.buffer.seek count)
  | .ack count => s.buffered (s.buffer.ack count)

/-- Whether a linger is due: both sides have closed and nothing is left to deliver. -/
def finished (s : Endpoint) : Bool :=
  !s.lingering && s.receiver.peerEnded && s.buffer.drained

/-- What a delivery leads to. -/
inductive Effect where
  | goOn
  /-- Nothing is left to do for either side, so the stream ends after a linger. -/
  | linger
  /-- The peer sent what no correct peer sends. -/
  | fail (e : Error)

/-- Takes what the chain delivers. -/
def deliver (s : Endpoint) : Chain.Delivery → Endpoint × Effect
  | .stitch _ writer =>
    let s := { s with control := s.control ++ [Control.writer writer] }
    (s.receipt s.receiver.stitched, .goOn)
  | .chunk data =>
    match Frame.decode data with
    | .error e => (s, .fail e)
    | .ok f =>
      match s.apply f with
      | (s, .error e) => (s, .fail e)
      | (s, .ok ()) => if s.finished then ({ s with lingering := true }, .linger) else (s, .goOn)

/-! ## The sending activity -/

/-- What the sending activity does next. -/
inductive Action where
  /-- It stops, since the stream is dead. -/
  | stop
  /-- It takes the writer of a new link and lets the old one go. -/
  | change (s : Endpoint) (old : Option Chain.LinkId)
  /-- It hands the bytes of a frame to its writer, if it has one. -/
  | send (s : Endpoint) (bytes : Bytes)

/-- The next action of the sending activity. Control frames go before data; data needs a writer. No
answer means that there is nothing to send. -/
def nextAction? (s : Endpoint) : Option Action :=
  if s.dead then some .stop
  else
    match s.control with
    | .writer link :: rest =>
      some (.change { s with control := rest, writer := some link } s.writer)
    | .frame f :: rest => some (.send { s with control := rest } f.encode)
    | [] =>
      if s.writer.isNone then none
      else
        match s.buffer.next? with
        | none => none
        | some (buffer, .ok (seq, unit)) =>
          some (.send { s with buffer } (Frame.chunk seq unit).encode)
        | some (_, .error _) => some .stop

/-- What the sending activity does once its writer has answered. -/
inductive Sent where
  | goOn
  /-- The link was replaced or has failed: its writer is let go. -/
  | letGo
  /-- The chain is dead, and so is the stream. -/
  | fail (e : Error)
  deriving DecidableEq, Repr

/-- Judges the answer of a writer. -/
def Sent.ofResult : Except Chain.Error Unit → Sent
  | .ok () => goOn
  | .error .superseded => letGo
  | .error e => fail (.chain e)

/-- The writers that the sending activity holds or would get. -/
def writers (s : Endpoint) : List Chain.LinkId :=
  s.writer.toList ++ s.control.filterMap fun
    | .writer link => some link
    | .frame _ => none

/-! ## The user's calls -/

/-- The longest chunk whose frame the links carry, whatever its number. -/
def maxChunkLength (s : Endpoint) : Nat :=
  s.config.maxFrameLen - Frame.maxHeaderLength

/-- Writes a chunk. No answer means that the write has to wait for room. Free room goes to whichever
write is tried first, a new one or one that waits. -/
def write? (s : Endpoint) (chunk : Bytes) : Option (Endpoint × Except Error Unit) :=
  if s.maxChunkLength < chunk.length then
    some (s, .error (.chunkTooLarge chunk.length s.maxChunkLength))
  else
    (s.buffer.write? chunk).map fun (buffer, r) => ({ s with buffer }, r.map fun _ => ())

/-- Closes the write side. -/
def close (s : Endpoint) : Endpoint × Except Error Unit :=
  s.buffered s.buffer.close

/-- Reads the next chunk, or `none` once the peer has closed. No answer means that the reader has
to wait. -/
def read? (s : Endpoint) : Option (Endpoint × Except Error (Option Bytes)) :=
  if s.ended then some (s, .ok none)
  else
    match s.inbox with
    | [] :: rest => some ({ s with inbox := rest, ended := true }, .ok none)
    | chunk :: rest => some ({ s with inbox := rest }, .ok (some chunk))
    | [] => if s.reading then none else some (s, .error s.terminalError)

/-- Why the stream ended, once it has. -/
def end? (s : Endpoint) : Option Error :=
  if s.dead then some s.terminalError else none

end Endpoint

end Tether.Stream
