import Tether.Session.State
import Tether.Stream.Endpoint

/-!
# What a session sends

A payload or an abort on its way to the stream. It waits for the turn, then for room in the stream.
A payload takes its number when it gets the turn and gives it back if it is not sent after all, so
that the numbers on the wire have no gaps. The end of the session ends every wait.
-/

namespace Tether.Session

/-- What is to be sent. -/
inductive Message where
  | payload (conn : ConnKey) (data : Bytes)
  | abort (id : ConnId) (reason : Reason)
  deriving DecidableEq, Repr

/-- How far a message has come. -/
inductive Outgoing.Stage where
  | fresh
  | waiting (ticket : Nat)
  /-- It has the turn, and waits for room with these bytes. -/
  | sending (ticket : Nat) (packed : Except Wire.Error Bytes)
  deriving Repr

/-- A message on its way. -/
structure Outgoing where
  message : Message
  stage : Outgoing.Stage := .fresh
  deriving Repr

namespace State

/-- Whether a message may still be sent, and else why not. -/
def mayStart (s : State) : Message → Except Error Unit
  | .payload k _ =>
    match s.conns[k]? with
    | some c => c.check
    | none => .error .closed
  | .abort _ _ => .ok ()

/-- The envelope of a message, and the state in which the number of its payload is taken. -/
def reserve (s : State) : Message → State × Envelope
  | .payload k data =>
    match s.conns[k]? with
    | some c =>
      (s.modifyConn k fun c => { c with nextWrite := c.nextWrite + 1 },
        ⟨c.id, .payload c.nextWrite data⟩)
    | none => (s, ⟨⟨0⟩, .payload 0 data⟩)
  | .abort id reason => (s, ⟨id, .abort reason⟩)

/-- Gives back the number of a payload that was not sent. -/
def giveBack (s : State) : Message → State
  | .payload k _ => s.modifyConn k fun c => { c with nextWrite := c.nextWrite - 1 }
  | .abort _ _ => s

/-- Gives up the turn, or the place in line. -/
def leave (s : State) (ticket : Nat) : State :=
  { s with turn := s.turn.leave ticket }

end State

/-- The error of a payload that the stream did not take. -/
def sendError : Codec.Error → Error
  | .stream (.chunkTooLarge length max) => .value (.stream (.chunkTooLarge length max))
  | e => .session e

namespace Outgoing

/-- What a step gives: the message goes on, or it is settled. -/
inductive Progress where
  | goOn (o : Outgoing)
  | settled (r : Except Error Unit)
  deriving Repr

/-- A state of the session and the stream after a step of a message. -/
abbrev Outcome := State × Stream.Endpoint × Progress

/-- Asks for the turn. -/
def start (s : State) (stream : Stream.Endpoint) (m : Message) : Outcome :=
  match s.mayStart m with
  | .error e => (s, stream, .settled (.error e))
  | .ok () =>
    if s.ended.isSome then (s, stream, .settled (.error s.sessionError))
    else
      let ticket := s.nextTicket
      ({ s with nextTicket := ticket + 1, turn := s.turn.enqueue ticket }, stream,
        .goOn ⟨m, .waiting ticket⟩)

/-- Takes the turn, if it has come, and a number. -/
def takeTurn? (s : State) (stream : Stream.Endpoint) (m : Message) (ticket : Nat) :
    Option Outcome :=
  if s.ended.isSome then some (s.leave ticket, stream, .settled (.error s.sessionError))
  else
    (s.turn.acquire? ticket).map fun turn =>
      let s := { s with turn }
      match s.mayStart m with
      | .error e => (s.leave ticket, stream, .settled (.error e))
      | .ok () =>
        let (s, envelope) := s.reserve m
        (s, stream, .goOn ⟨m, .sending ticket envelope.packed⟩)

/-- Hands the bytes to the stream, if it has room. -/
def send? (s : State) (stream : Stream.Endpoint) (m : Message) (ticket : Nat)
    (packed : Except Wire.Error Bytes) : Option Outcome :=
  let refused (stream : Stream.Endpoint) (e : Error) : Outcome :=
    ((s.giveBack m).leave ticket, stream, .settled (.error e))
  if s.ended.isSome then some (refused stream s.sessionError)
  else
    match packed with
    | .error e => some (refused stream (sendError (.pack e)))
    | .ok bytes =>
      (stream.write? bytes).map fun
        | (stream, .ok ()) => (s.leave ticket, stream, .settled (.ok ()))
        | (stream, .error e) => refused stream (sendError (.stream e))

/-- The next step of a message, if it can take one. -/
def step? (s : State) (stream : Stream.Endpoint) (o : Outgoing) : Option Outcome :=
  match o.stage with
  | .fresh => some (start s stream o.message)
  | .waiting ticket => takeTurn? s stream o.message ticket
  | .sending ticket packed => send? s stream o.message ticket packed

/-- Gives a message up wherever it is. -/
def cancel (s : State) (o : Outgoing) : State :=
  match o.stage with
  | .fresh => s
  | .waiting ticket => s.leave ticket
  | .sending ticket _ => (s.giveBack o.message).leave ticket

end Outgoing

end Tether.Session
