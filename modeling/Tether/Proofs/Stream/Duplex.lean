import Tether.Stream.Endpoint

/-!
# Two ends of a stream over links that fail

The runs that the laws of streams are about. Two ends share one chain, whose links are replaced any
number of times. A link is named by the number of its attempt, and so is the writer that its stitch
brings. What a sending activity hands to a link arrives at the other end in order, while that end
reads the link; when a link is cut, what is handed to it from then on is lost. Each end is given
links of higher and higher numbers, and after each nothing of an older link. Nothing obliges a link
to deliver what it carries, or both ends to be given the same links.

A run is a list of events, each an act at one of the ends: a call of its user, a step of its reading
or of its sending activity, the expiry of a linger, or a cut. The sending activity takes a frame and
hands it to its writer in two steps, so that anything can happen between. An act that cannot happen
changes nothing.
-/

namespace Tether.Stream

open Chain (LinkId)
open Link (Side)

/-- One end of a stream, with what surrounds it: the frames on their way from it, and the history of
its user's calls. -/
structure Party where
  stream : Endpoint
  /-- The link that the reading activity was given last; none has the number zero. -/
  stitched : LinkId := 0
  /-- What the sending activity has taken and not handed to its writer yet. -/
  hand : Option Bytes := none
  /-- What was handed to links and has not arrived, with the link of each, oldest first. -/
  flight : List (LinkId × Bytes) := []
  /-- The chunks that were written, in the order in which their writes answered. -/
  wrote : List Bytes := []
  /-- The chunks that reads gave. -/
  got : List Bytes := []
  /-- Whether a read gave the end of the stream. -/
  sawEnd : Bool := false
  /-- The counts that arrived from the peer. -/
  heard : List Nat := []
  /-- How many lingers have begun. -/
  lingers : Nat := 0

/-- Both ends, and the links that were cut. -/
structure Duplex where
  near : Party
  far : Party
  cut : List LinkId := []

namespace Party

/-! ## The user -/

/-- The user tries a write, a new one or one that waits for room. One that goes on waiting leaves no
trace, so it may as well be given up. -/
def write (p : Party) (chunk : Bytes) : Party :=
  match p.stream.write? chunk with
  | some (stream, .ok ()) => { p with stream, wrote := p.wrote ++ [chunk] }
  | some (stream, .error _) => { p with stream }
  | none => p

/-- The user reads, if there is something to read. -/
def read (p : Party) : Party :=
  match p.stream.read? with
  | some (stream, .ok (some chunk)) => { p with stream, got := p.got ++ [chunk] }
  | some (stream, .ok none) => { p with stream, sawEnd := true }
  | some (stream, .error _) => { p with stream }
  | none => p

def close (p : Party) : Party :=
  { p with stream := p.stream.close.1 }

/-- A user who holds the stream shares it with one more. -/
def share (p : Party) : Party :=
  if p.stream.users = 0 then p
  else { p with stream := { p.stream with users := p.stream.users + 1 } }

/-- A user lets go. The last one closes the write side of a live stream and leaves it lingering. -/
def letGo (p : Party) : Party :=
  let p := { p with stream := { p.stream with users := p.stream.users - 1 } }
  if p.stream.users = 0 ∧ !p.stream.dead then { p.close with lingers := p.lingers + 1 } else p

def fail (p : Party) (e : Error) : Party :=
  { p with stream := p.stream.fail e }

/-- A linger is over, if one has begun. -/
def expire (p : Party) : Party :=
  if p.lingers = 0 then p else p.fail .closed

/-! ## The reading activity -/

def stopReading (p : Party) (e : Error) : Party :=
  { p with stream := { p.stream.fail e with reading := false } }

/-- The reading activity takes a delivery of the chain. -/
def deliver (p : Party) (d : Chain.Delivery) : Party :=
  match p.stream.deliver d with
  | (stream, .goOn) => { p with stream }
  | (stream, .linger) => { p with stream, lingers := p.lingers + 1 }
  | (stream, .fail e) => { p with stream }.stopReading e

/-- The reading activity is given a newer link. -/
def stitch (p : Party) (k : LinkId) : Party :=
  if p.stream.reading ∧ p.stitched < k then { p.deliver (.stitch k k) with stitched := k } else p

/-- The count in a message of a peer, if it is one of the two kinds of frames that bring one. -/
def countOf? (data : Bytes) : Option Nat :=
  match Frame.decode data with
  | .ok (.sync count) | .ok (.ack count) => some count
  | .ok (.chunk _ _) | .error _ => none

/-- The reading activity takes a message of the peer. -/
def hear (p : Party) (data : Bytes) : Party :=
  { p with heard := p.heard ++ (countOf? data).toList }.deliver (.chunk data)

/-- The oldest message on a link, and what is in flight without it. -/
def oldest (k : LinkId) : List (LinkId × Bytes) → Option (Bytes × List (LinkId × Bytes))
  | [] => none
  | (j, data) :: rest =>
    if j = k then some (data, rest)
    else (oldest k rest).map fun (found, rest) => (found, (j, data) :: rest)

/-! ## The sending activity -/

/-- The sending activity takes what it is to send next, or the writer of a newer link. It does
neither before it has handed on what it took before. -/
def take (p : Party) : Party :=
  if p.hand.isSome ∨ !p.stream.sending then p
  else
    match p.stream.nextAction? with
    | none => p
    | some .stop => { p with stream := { p.stream with sending := false } }
    | some (.change stream _) => { p with stream }
    | some (.send stream data) => { p with stream, hand := some data }

/-- The sending activity learns what became of what it took. -/
def sent (p : Party) (answer : Except Chain.Error Unit) : Party :=
  match Endpoint.Sent.ofResult answer with
  | .goOn => { p with hand := none }
  | .letGo => { p with hand := none, stream := { p.stream with writer := none } }
  | .fail e => { p with hand := none, stream := { p.stream.fail e with sending := false } }

end Party

namespace Duplex

def party (d : Duplex) : Side → Party
  | .near => d.near
  | .far => d.far

def setParty (d : Duplex) (side : Side) (p : Party) : Duplex :=
  match side with
  | .near => { d with near := p }
  | .far => { d with far := p }

inductive Act where
  | write (chunk : Bytes)
  | close
  | read
  | share
  | letGo
  | kill
  | expire
  | stitch (link : LinkId)
  /-- The next message of the peer on the link last stitched arrives. -/
  | receive
  /-- The chain ends under the reading activity. -/
  | lose (e : Chain.Error)
  | take
  /-- The writer answers to what was taken. An answer other than success cuts the link. -/
  | pass (answer : Except Chain.Error Unit)
  | cut (link : LinkId)

abbrev Event := Side × Act

/-- The next message for an end, and what is in flight to it besides. -/
def arriving (d : Duplex) (side : Side) : Option (Bytes × List (LinkId × Bytes)) :=
  Party.oldest (d.party side).stitched (d.party side.opposite).flight

/-- A message arrives at an end, if there is one and the end still reads. -/
def receive (d : Duplex) (side : Side) : Duplex :=
  match d.arriving side with
  | none => d
  | some (data, rest) =>
    if (d.party side).stream.reading then
      (d.setParty side ((d.party side).hear data)).setParty side.opposite
        { d.party side.opposite with flight := rest }
    else d

/-- The sending activity of an end hands on what it took. Without a writer it is lost, as it is on a
link that is cut. -/
def pass (d : Duplex) (side : Side) (answer : Except Chain.Error Unit) : Duplex :=
  let p := d.party side
  match p.hand, p.stream.writer with
  | none, _ => d
  | some _, none => d.setParty side { p with hand := none }
  | some data, some k =>
    match answer with
    | .ok () =>
      let flight := if k ∈ d.cut then p.flight else p.flight ++ [(k, data)]
      d.setParty side ({ p with flight }.sent answer)
    | .error _ => { d.setParty side (p.sent answer) with cut := k :: d.cut }

/-- One event of a run. -/
def step (d : Duplex) : Event → Duplex
  | (side, act) =>
    let p := d.party side
    match act with
    | .write chunk => d.setParty side (p.write chunk)
    | .close => d.setParty side p.close
    | .read => d.setParty side p.read
    | .share => d.setParty side p.share
    | .letGo => d.setParty side p.letGo
    | .kill => d.setParty side (p.fail (.chain .killed))
    | .expire => d.setParty side p.expire
    | .stitch k => d.setParty side (p.stitch k)
    | .receive => d.receive side
    | .lose e => if p.stream.reading then d.setParty side (p.stopReading (.chain e)) else d
    | .take => d.setParty side p.take
    | .pass answer => d.pass side answer
    | .cut k => { d with cut := k :: d.cut }

/-- Two new ends, each with its own settings, before any link. -/
def start (id : Chain.Id) (near far : Config) : Duplex :=
  { near := { stream := .new 0 id near }
    far := { stream := .new 1 id far } }

/-- The ends after a run. -/
def run (d : Duplex) (events : List Event) : Duplex :=
  events.foldl step d

/-- A run in which the first of two links is cut between two units, and the second link makes good
what was lost. -/
def recovery : List Event :=
  [(.near, .write [7]), (.near, .write [8]), (.near, .close),
    (.near, .stitch 1), (.far, .stitch 1),
    (.near, .take), (.near, .take), (.near, .pass (.ok ())), (.far, .receive),
    (.near, .take), (.near, .pass (.ok ())), (.far, .receive),
    (.near, .take), (.near, .cut 1), (.near, .pass (.ok ())),
    (.near, .stitch 2), (.far, .stitch 2),
    (.far, .take), (.far, .take), (.far, .pass (.ok ())),
    (.far, .take), (.far, .take), (.far, .pass (.ok ())), (.near, .receive),
    (.near, .take), (.near, .take), (.near, .pass (.ok ())), (.far, .receive),
    (.near, .take), (.near, .pass (.ok ())), (.far, .receive),
    (.near, .take), (.near, .pass (.ok ())), (.far, .receive),
    (.far, .take), (.far, .pass (.ok ())), (.near, .receive),
    (.far, .read), (.far, .read), (.far, .read)]

/-- What one event keeps holds after every run. -/
theorem run_induction {P : Duplex → Prop} {d : Duplex} (start : P d)
    (step : ∀ d event, P d → P (d.step event)) (events : List Event) : P (d.run events) := by
  induction events generalizing d with
  | nil => exact start
  | cons event events ih => exact ih (step d event start)

@[simp]
theorem party_setParty (d : Duplex) (side : Side) (p : Party) :
    (d.setParty side p).party side = p := by
  cases side <;> rfl

@[simp]
theorem party_setParty_opposite (d : Duplex) (side : Side) (p : Party) :
    (d.setParty side p).party side.opposite = d.party side.opposite := by
  cases side <;> rfl

@[simp]
theorem party_setParty_of_opposite (d : Duplex) (side : Side) (p : Party) :
    (d.setParty side.opposite p).party side = d.party side := by
  cases side <;> rfl

@[simp]
theorem party_cut (d : Duplex) (cut : List LinkId) (side : Side) :
    party { d with cut } side = d.party side := by
  cases side <;> rfl

@[simp]
theorem cut_setParty (d : Duplex) (side : Side) (p : Party) : (d.setParty side p).cut = d.cut := by
  cases side <;> rfl

end Duplex

end Tether.Stream
