import Tether.Codec.Values
import Tether.World.Making
import Tether.World.Object
import Tether.World.Sessions
import Tether.World.Streams

/-!
# Calls of users

What users ask of objects and may have to wait for: to accept, to read, to write, to learn of an
end. A call is tried again whenever something has happened, until it answers or is given up.
-/

namespace Tether.World

/-- What a call answers, with the object that it made. -/
structure Reply where
  answer : Answer
  object : Option Object := none

/-- What a try of a call gives. -/
inductive Polled where
  /-- Nothing can be done for the call now. -/
  | waits
  /-- The call has come further, without an answer yet. -/
  | goesOn (c : Call)
  | answered (r : Reply)

namespace Polled

/-- An answer without an object. -/
def plain (a : Answer) : Polled :=
  answered { answer := a }

/-- An answer that made an object. -/
def made (a : Answer) (o : Object) : Polled :=
  answered { answer := a, object := some o }

end Polled

/-- The world after a try that could do something, or the world as it is. -/
def tried (w : World) (r : Option (World × Polled)) : World × Polled :=
  r.getD (w, .waits)

/-! ## Accepting -/

/-- Takes the next chain of a listener, with a stream on it if the listener is one for streams. -/
def pollAccept (w : World) (layer : Layer) (l : ListenerId) : World × Polled :=
  w.tried <| (w.listeners[l]?.bind (·.accept?)).map fun
    | (x, .error e) => (w.modifyListener l fun _ => x, .plain (.failed (layer.failure e)))
    | (x, .ok c) =>
      let w := w.modifyListener l fun _ => x
      match layer with
      | .chain => (w, .made (.made (w.chainName c)) (.chain c))
      | .stream =>
        let (w, s) := w.openStream c x.config
        (w, .made (.made (w.chainName c)) (.stream s .whole .chunks))

/-- Takes the next pipe that waits at a socket. -/
def pollAcceptLink (w : World) (socket : Link.SocketId) : World × Polled :=
  w.tried <| (w.network.accept? socket).map fun
    | (network, .ok pipe) => ({ w with network }, .made .ok (.link ⟨pipe, .far⟩ true true))
    | (network, .error e) => ({ w with network }, .plain (.failed (.link e)))

/-- Takes the next connection that the peer of a session opened. -/
def pollAcceptConn (w : World) (m : SessionId) : World × Polled :=
  w.tried <| (w.sessions[m]?.bind (·.state.accept?)).map fun (state, r) =>
    let w := w.setSession m state
    match r with
    | .ok k => (w, .made (.made (w.connName m k)) (.conn m k))
    | .error e => (w, .plain (.failed (.session e)))

/-! ## Reading -/

/-- Reads from a link. -/
def pollReadLink (w : World) (link : Link.End) : World × Polled :=
  w.tried <| (w.network.recv? link).map fun (network, r) =>
    ({ w with network }, .plain (.ofChunk .link r))

/-- Reads from a chain. A stitch brings the writer of its link. -/
def pollReadChain (w : World) (c : Chain.ChainId) : World × Polled :=
  match w.chains[c]? with
  | none => (w, .waits)
  | some e =>
    let (e, delivery) := e.read
    let w := w.setChain c e
    match delivery with
    | none => (w, .waits)
    | some (.ok (.chunk data)) => (w, .plain (.chunk data))
    | some (.ok (.stitch seq writer)) => (w, .made (.stitch seq) (.chainWriter c writer))
    | some (.error e) => (w, .plain (.failed (.chain e)))

/-- Reads a chunk from a stream. -/
def pollReadStream (w : World) (s : StreamId) : World × Polled :=
  w.tried <| (w.streams[s]?.bind (·.read?)).map fun (stream, r) =>
    (w.setStream s stream, .plain (.ofChunk .stream r))

/-- Reads a value from a stream. -/
def pollReadValue (w : World) (s : StreamId) (ty : Wire.Ty) : World × Polled :=
  w.tried <| (w.streams[s]?.bind (Codec.read? · ty)).map fun (stream, r) =>
    (w.setStream s stream, .plain (.ofValue .codec ty r))

/-- Reads from a connection, as a value of a type if one is asked for. -/
def pollReadConn (w : World) (m : SessionId) (k : Session.ConnKey) (ty : Option Wire.Ty) :
    World × Polled :=
  w.tried <| (w.sessions[m]?.bind (·.state.read? k)).map fun (state, r) =>
    let answer := match ty with
      | some ty => .ofValue .session ty (Session.valueOfRead (Wire.unpacked ty) r)
      | none => .ofChunk .session r
    (w.setSession m state, .plain answer)

/-! ## Writing -/

/-- Writes a chunk to a stream. -/
def pollWriteStream (w : World) (s : StreamId) (chunk : Bytes) : World × Polled :=
  w.tried <| (w.streams[s]?.bind (·.write? chunk)).map fun (stream, r) =>
    (w.setStream s stream, .plain (.ofDone .stream r))

/-- Writes a value to a stream. -/
def pollWriteValue (w : World) (s : StreamId) (ty : Wire.Ty) (v : ty.Val) : World × Polled :=
  w.tried <| (w.streams[s]?.bind (Codec.write? · ty v)).map fun (stream, r) =>
    (w.setStream s stream, .plain (.ofDone .codec r))

/-- The text that is written as the chunk of a number. -/
def numberedChunk (index : Nat) : Bytes :=
  Bytes.ofText s!"chunk-{index}"

/-- Writes numbered chunks, as many in a row as find room. -/
def pollWriteMany (w : World) (s : StreamId) (count index : Nat) : World × Polled :=
  if index < count then
    match w.streams[s]?.bind (·.write? (numberedChunk index)) with
    | none => (w, .waits)
    | some (stream, .error e) => (w.setStream s stream, .plain (.failedAt index (.stream e)))
    | some (stream, .ok ()) =>
      let w := w.setStream s stream
      match w.pollWriteMany s count (index + 1) with
      | (_, .waits) => (w, .goesOn (.writeMany s (index + 1) count))
      | further => further
  else (w, .plain .ok)
termination_by count - index

/-- Writes to a connection. -/
def pollWriteConn (w : World) (m : SessionId) (message : Except Wire.Error Session.Outgoing) :
    World × Polled :=
  match message with
  | .error e => (w, .plain (.failed (.session (.value (.pack e)))))
  | .ok o =>
    w.tried <| (w.sendMessage? m o).map fun
      | (w, .goOn o) => (w, .goesOn (.writeConn m (.ok o)))
      | (w, .settled r) => (w, .plain (.ofDone .session r))

/-! ## Ends -/

/-- Why something ended that a call waits for, once it has. -/
def endOf? (w : World) : Call → Option Failure
  | .chainEnd c => (w.chains[c]?.bind (·.end?)).map .chain
  | .streamEnd s content => (w.streams[s]?.bind (·.end?)).map content.failure
  | .sessionEnd m => (w.sessions[m]?.bind (·.state.end?)).map .session
  | _ => none

/-! ## Any call -/

/-- Tries a call. -/
def poll (w : World) (c : Call) : World × Polled :=
  match c with
  | .acceptLink socket => w.pollAcceptLink socket
  | .accept layer l => w.pollAccept layer l
  | .acceptConn m => w.pollAcceptConn m
  | .readLink link => w.pollReadLink link
  | .readChain c => w.pollReadChain c
  | .readStream s => w.pollReadStream s
  | .readValue s ty => w.pollReadValue s ty
  | .readConn m k ty => w.pollReadConn m k ty
  | .writeStream s chunk => w.pollWriteStream s chunk
  | .writeValue s ty v => w.pollWriteValue s ty v
  | .writeMany s index count => w.pollWriteMany s count index
  | .writeConn m message => w.pollWriteConn m message
  | .chainEnd _ | .streamEnd _ _ | .sessionEnd _ =>
    match w.endOf? c with
    | some e => (w, .plain (.failed e))
    | none => (w, .waits)
  | .join job =>
    match w.jobs[job]? with
    | some (some a) => (w, .plain a)
    | _ => (w, .waits)

/-- Gives a call up: it leaves the lines it waits in. -/
def giveUp (w : World) (c : Call) : World :=
  match c with
  | .writeConn m (.ok o) =>
    match w.sessions[m]? with
    | some x => w.setSession m (o.cancel x.state)
    | none => w
  | _ => w

/-! ## Calls in the background -/

/-- A background call holds what it writes to. -/
def holdFor (w : World) (c : Call) : World :=
  match c with
  | .writeStream s _ | .writeValue s _ _ | .writeMany s _ _ => w.addUser s
  | .writeConn m (.ok ⟨.payload k _, _⟩) => w.modifyConnUsers m k (· + 1)
  | _ => w

/-- A background call lets go of what it wrote to. -/
def letGoFor (w : World) (c : Call) : World :=
  match c with
  | .writeStream s _ | .writeValue s _ _ | .writeMany s _ _ => w.dropUser s
  | .writeConn m (.ok ⟨.payload k _, _⟩) => w.dropConnUser m k
  | _ => w

/-- Starts a call in the background. -/
def start (w : World) (c : Call) : World × JobId :=
  let job := w.jobs.size
  ({ w.holdFor c with jobs := w.jobs.push none }.spawn (.call job c), job)

/-- One step of a background call. -/
def callStep? (w : World) (job : JobId) (c : Call) : Option Move :=
  match w.poll c with
  | (_, .waits) => none
  | (w, .goesOn c) => some (w, some (.call job c))
  | (w, .answered r) =>
    some ({ w with jobs := w.jobs.set! job (some r.answer) }.letGoFor c, none)

/-- Gives up the call of a job, if it is still running. -/
def abandon (w : World) (job : JobId) : World :=
  let call? : Task → Option Call
    | .call id c => if id = job then some c else none
    | _ => none
  let calls := w.tasks.filterMap call?
  let w := { w with tasks := w.tasks.filter fun t => (call? t).isNone }
  calls.foldl (fun w c => (w.giveUp c).letGoFor c) w

end Tether.World
