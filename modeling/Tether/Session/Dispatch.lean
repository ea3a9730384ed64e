import Tether.Codec.Values
import Tether.Session.State

/-!
# What a session receives

Each envelope goes to the connection it names. A payload must carry the number that is next for its
connection: one from before is passed over, one from beyond ends the connection. A payload for a
number that is not open makes a new connection if it is the first one and this end accepts; else the
peer is told that the connection does not exist. The end of the stream, or a chunk that is no
envelope, ends the session.
-/

namespace Tether.Session

namespace State

/-- Routes a payload of an open connection. -/
def dispatchKnown (s : State) (entry : Entry) (seq : UInt64) (data : Bytes) :
    State × Option Reason :=
  if seq < entry.nextRead then (s, none)
  else if entry.nextRead < seq then
    let reason := Reason.protocol
      s!"payload {seq.toNat} when {entry.nextRead.toNat} was expected"
    (s.abort entry.id reason, some reason)
  else
    let table := s.table.map fun e =>
      if e.id = entry.id then { e with nextRead := e.nextRead + 1 } else e
    ({ s with table }.modifyConn entry.conn (·.hand (.payload data)), none)

/-- Routes a payload for a number that is not open. -/
def dispatchUnknown (s : State) (id : ConnId) (seq : UInt64) (data : Bytes) :
    State × Option Reason :=
  match s.role with
  | .dial => (s, some (if seq = 0 then .off else .gone))
  | .accept =>
    if seq ≠ 0 then (s, some .gone)
    else if !s.accepting then (s, some .off)
    else if !s.listening then ({ s with accepting := false }, some .off)
    else
      let (s, k) := s.register id
      let table := s.table.map fun e => if e.id = id then { e with nextRead := 1 } else e
      let s := { s with table }.modifyConn k (·.hand (.payload data))
      ({ s with accepted := s.accepted ++ [k] }, none)

/-- Routes one envelope. The answer is the abort to send back for its connection, if any. -/
def dispatch (s : State) (e : Envelope) : State × Option Reason :=
  if s.ended.isSome then (s, none)
  else
    match e.content with
    | .abort reason => (s.abort e.conn reason, none)
    | .payload seq data =>
      match s.entry? e.conn with
      | some entry => s.dispatchKnown entry seq data
      | none => s.dispatchUnknown e.conn seq data

/-- What a read of the stream leads to. -/
inductive Intake where
  /-- The session goes on, and tells the peer of an abort if there is one. -/
  | goOn (state : State) (tell : Option (ConnId × Reason))
  /-- The session ends. -/
  | finish (cause : Codec.Error)

/-- Takes what a read of the stream gave. -/
def intake (s : State) (r : Except Stream.Error (Option Bytes)) : Intake :=
  match Codec.ofRead Envelope.unpacked r with
  | .ok (some e) =>
    let (s, reason) := s.dispatch e
    .goOn s (reason.map fun reason => (e.conn, reason))
  | .ok none => .finish (.stream .closed)
  | .error cause => .finish cause

end State

end Tether.Session
