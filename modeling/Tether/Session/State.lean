import Tether.Session.Conn
import Tether.Session.Turn

/-!
# Sessions

A session runs many connections over one stream of values. Only the dialing side makes connections,
numbering them upwards; the accepting side makes one when the first payload for an unknown number
arrives. A table holds the open connections. When the session ends, each of them gets its end and
the table is emptied for good.

All that is sent goes through one turn, so that the numbers of payloads follow the order on the
wire. Those who wait for the turn get it first come, first served.
-/

namespace Tether.Session

/-- Which side of a session an end is. -/
inductive Role where
  | dial
  | accept
  deriving DecidableEq, Repr

/-- A handle on a connection of a session. -/
abbrev ConnKey := Nat

/-- An open connection. -/
structure Entry where
  id : ConnId
  conn : ConnKey
  /-- The number of the next payload to hand over. -/
  nextRead : UInt64 := 0
  deriving DecidableEq, Repr

/-- One end of a session. -/
structure State where
  role : Role
  /-- Every connection that was ever open at this end. -/
  conns : Array Conn := #[]
  /-- The open connections, at most one to a number. -/
  table : List Entry := []
  /-- Whether new connections are handed to the accepter. -/
  accepting : Bool
  /-- Whether the accepter is still held. -/
  listening : Bool := true
  /-- Connections that wait to be accepted. -/
  accepted : List ConnKey := []
  /-- Why the session ended, once it has. -/
  ended : Option Codec.Error := none
  /-- The number of the next connection dialed. -/
  nextId : UInt64 := 0
  turn : Turn := {}
  /-- The next ticket for the turn. -/
  nextTicket : Nat := 0
  deriving Repr

namespace State

/-- A session at its start. -/
def new (role : Role) : State :=
  { role, accepting := role = .accept }

/-- The error of calls on a session that has ended. -/
def sessionError (s : State) : Error :=
  .session (s.ended.getD (.stream .closed))

/-- The error of calls on the session, once it has ended. -/
def end? (s : State) : Option Error :=
  s.ended.map .session

/-- The open connection of a number. -/
def entry? (s : State) (id : ConnId) : Option Entry :=
  s.table.find? (·.id = id)

/-- Changes a connection. -/
def modifyConn (s : State) (k : ConnKey) (f : Conn → Conn) : State :=
  { s with conns := s.conns.modify k f }

/-- Takes a number out of the table. -/
def remove (s : State) (id : ConnId) : State :=
  { s with table := s.table.filter (·.id ≠ id) }

/-- Opens a connection. -/
def register (s : State) (id : ConnId) : State × ConnKey :=
  let k := s.conns.size
  ({ s with
      conns := s.conns.push { id }
      table := { id, conn := k } :: s.table.filter (·.id ≠ id) }, k)

/-- Takes an open connection out of the table and gives it its end. -/
def abort (s : State) (id : ConnId) (reason : Reason) : State :=
  match s.entry? id with
  | none => s
  | some entry =>
    (s.modifyConn entry.conn fun c => (c.finish (.aborted reason)).hand (.abort reason)).remove id

/-- Dials a new connection. -/
def dial (s : State) : State × Except Error ConnKey :=
  match s.ended with
  | some e => (s, .error (.session e))
  | none =>
    let (s, k) := { s with nextId := s.nextId + 1 }.register ⟨s.nextId⟩
    (s, .ok k)

/-- Accepts the next connection that the peer opened. No answer means that there is none yet. -/
def accept? (s : State) : Option (State × Except Error ConnKey) :=
  match s.accepted with
  | k :: rest => some ({ s with accepted := rest }, .ok k)
  | [] => if s.accepting then none else some (s, .error s.sessionError)

/-- Reads from a connection. -/
def read? (s : State) (k : ConnKey) : Option (State × Except Error (Option Bytes)) :=
  match s.conns[k]? with
  | none => none
  | some c =>
    (c.read? (s.table.any (·.conn = k))).map fun (c, r) => (s.modifyConn k fun _ => c, r)

/-- Gives a connection the end of a close, unless it has ended. The answer comes with its number. -/
def finish? (s : State) (k : ConnKey) : Option (State × ConnId) :=
  match s.conns[k]? with
  | none => none
  | some c =>
    if c.terminal.isSome then none else some (s.modifyConn k (·.finish .closed), c.id)

/-- Takes a number out of the table, if it is open. -/
def forget? (s : State) (id : ConnId) : Option State :=
  if (s.entry? id).isSome then some (s.remove id) else none

/-- Closes a connection at this end. The answer is the number to tell the peer about, unless the
connection had ended before. -/
def close (s : State) (k : ConnKey) : State × Option ConnId :=
  match s.finish? k with
  | none => (s, none)
  | some (s, id) =>
    match s.forget? id with
    | none => (s, none)
    | some s => (s, some id)

/-- What ending a session asks of the stream under it. -/
inductive Ending where
  | none
  | close
  | kill
  deriving DecidableEq, Repr

/-- Gives an open connection the end of its session. -/
def breakConn (e : Codec.Error) (s : State) (entry : Entry) : State :=
  s.modifyConn entry.conn fun c => (c.finish (.session e)).hand (.broken e)

/-- Ends the session, once. What the peer cannot have meant kills the stream; else it is closed. -/
def teardown (s : State) (e : Codec.Error) : State × Ending :=
  match s.ended with
  | some _ => (s, .none)
  | none =>
    let broken := s.table.foldl (breakConn e) s
    ({ broken with ended := some e, table := [], accepting := false },
      match e with
      | .pack _ => .kill
      | .stream _ => .close)

end State

end Tether.Session
