import Tether.Session.Envelope

/-!
# Connections of a session

What one end knows of one multiplexed connection: the number of the next payload it writes, what it
was handed to read, and how it ended. The first end stays.
-/

namespace Tether.Session

/-- What a session hands to a connection. -/
inductive Inbound where
  | payload (data : Bytes)
  | abort (reason : Reason)
  /-- The session ended. -/
  | broken (cause : Codec.Error)
  deriving DecidableEq, Repr

/-- One end of a connection. -/
structure Conn where
  id : ConnId
  /-- The number of the next payload to write. -/
  nextWrite : UInt64 := 0
  terminal : Option Error := none
  /-- What was handed over and not read yet, oldest first. -/
  inbox : List Inbound := []
  /-- Whether the reader has seen the end of the stream. -/
  ended : Bool := false
  /-- How many users hold the connection. -/
  users : Nat := 1
  deriving DecidableEq, Repr

namespace Conn

/-- Ends the connection. -/
def finish (c : Conn) (e : Error) : Conn :=
  { c with terminal := some (c.terminal.getD e) }

/-- Hands something to the reader. -/
def hand (c : Conn) (i : Inbound) : Conn :=
  { c with inbox := c.inbox ++ [i] }

/-- Whether the connection may still be written to, and else why not. -/
def check (c : Conn) : Except Error Unit :=
  match c.terminal with
  | some e => .error e
  | none => .ok ()

/-- Reads the next payload, or `none` at the end of the stream. `fed` says whether the session may
hand over more. No answer means that the reader has to wait. -/
def read? (c : Conn) (fed : Bool) : Option (Conn × Except Error (Option Bytes)) :=
  if c.ended then some (c, .ok none)
  else
    match c.inbox with
    | .payload data :: rest => some ({ c with inbox := rest }, .ok (some data))
    | .abort .closed :: rest => some ({ c with inbox := rest, ended := true }, .ok none)
    | .abort reason :: rest => some ({ c with inbox := rest }, .error (.aborted reason))
    | .broken cause :: rest => some ({ c with inbox := rest }, .error (.session cause))
    | [] => if fed then none else some (c, .error (c.terminal.getD .closed))

end Conn

/-- Unpacks what a read of a connection gave. -/
def valueOfRead {α : Type} (unpack : Bytes → Except Wire.Error α) :
    Except Error (Option Bytes) → Except Error (Option α)
  | .ok (some data) =>
    match unpack data with
    | .ok a => .ok (some a)
    | .error e => .error (.value (.pack e))
  | .ok none => .ok none
  | .error e => .error e

end Tether.Session
