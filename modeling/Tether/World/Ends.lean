import Tether.World.State

/-!
# Ending and letting go

The effects of an end that reach across layers: ending a stream kills its chain, ending a session
closes or kills its stream, letting go of an object lets go of what it held, and the last user of a
stream leaves it lingering.
-/

namespace Tether.World

/-! ## Links and chains -/

/-- Lets go of an end of a pipe. -/
def dropLink (w : World) (e : Link.End) : World :=
  { w with network := w.network.dropEnd e }

/-- Lets go of the writer of a link. -/
def dropWriter (w : World) (c : Chain.ChainId) (k : Chain.LinkId) : World :=
  match w.linkEnd? c k with
  | some e => { w with network := w.network.dropSender e }
  | none => w

/-- Lets go of the reader of a link. -/
def dropReader (w : World) (c : Chain.ChainId) (k : Chain.LinkId) : World :=
  match w.linkEnd? c k with
  | some e => { w with network := w.network.dropReceiver e }
  | none => w

/-- Ends a chain. -/
def killChain (w : World) (c : Chain.ChainId) (reason : Option Chain.Error) : World :=
  w.modifyChain c (·.kill reason)

/-- Lets go of a chain's reader, which ends the chain. The writers still queued go with it. -/
def closeChain (w : World) (c : Chain.ChainId) : World :=
  let writers := (w.chains[c]?.map (·.queuedWriters)).getD []
  writers.foldl (fun w k => w.dropWriter c k) (w.modifyChain c (·.close))

/-- Lets go of a listener, and of the chains that nobody took. -/
def dropListener (w : World) (l : ListenerId) : World :=
  match w.listeners[l]? with
  | none => w
  | some x =>
    let w := w.modifyListener l fun x => { x.close with held := false, accepted := [] }
    x.accepted.foldl (fun w c => w.closeChain c) w

/-! ## Streams -/

/-- Ends a stream, and kills its chain. -/
def failStream (w : World) (s : StreamId) (e : Stream.Error) : World :=
  match w.streams[s]? with
  | some stream => (w.setStream s (stream.fail e)).killChain stream.chain none
  | none => w

/-- Closes the write side of a stream. -/
def closeStream (w : World) (s : StreamId) : World × Except Stream.Error Unit :=
  match w.streams[s]? with
  | some stream =>
    let (stream, r) := stream.close
    (w.setStream s stream, r)
  | none => (w, .error .closed)

/-- Starts the time that a stream still answers its peer. -/
def lingerStream (w : World) (s : StreamId) : World :=
  match w.streams[s]? with
  | some stream => w.spawn (.linger s (w.after stream.config.linger))
  | none => w

/-- One user lets go of a stream. The last one closes its write side and leaves it lingering. -/
def dropUser (w : World) (s : StreamId) : World :=
  let w := w.modifyStream s fun stream => { stream with users := stream.users - 1 }
  match w.streams[s]? with
  | some stream =>
    if stream.users = 0 && !stream.dead then (w.closeStream s).1.lingerStream s else w
  | none => w

/-- One more user holds a stream. -/
def addUser (w : World) (s : StreamId) : World :=
  w.modifyStream s fun stream => { stream with users := stream.users + 1 }

/-! ## Sessions -/

/-- Sends an abort in the background. -/
def tellAbort (w : World) (m : SessionId) (id : Session.ConnId) (reason : Session.Reason) : World :=
  let w := w.modifySession m fun x => { x with aborts := x.aborts + 1 }
  w.spawn (.tell m { message := .abort id reason })

/-- Ends a session. -/
def endSession (w : World) (m : SessionId) (e : Codec.Error) : World :=
  match w.sessions[m]? with
  | none => w
  | some x =>
    let (state, ending) := x.state.teardown e
    let w := w.setSession m state
    match ending with
    | .none => w
    | .close => (w.closeStream x.stream).1
    | .kill => w.failStream x.stream (.chain .killed)

/-- Closes a connection at this end and tells the peer. -/
def closeConn (w : World) (m : SessionId) (k : Session.ConnKey) : World :=
  match w.sessions[m]? with
  | none => w
  | some x =>
    match x.state.close k with
    | (state, none) => w.setSession m state
    | (state, some id) => (w.setSession m state).tellAbort m id .closed

/-- One user lets go of a connection. The last one closes it. -/
def dropConnUser (w : World) (m : SessionId) (k : Session.ConnKey) : World :=
  let w := w.modifyConnUsers m k (· - 1)
  match w.conn? m k with
  | some c => if c.users = 0 then w.closeConn m k else w
  | none => w

/-- Lets go of a session, which ends it. Connections that nobody accepted go with it. -/
def dropSession (w : World) (m : SessionId) : World :=
  let w := w.endSession m (.stream .closed)
  match w.sessions[m]? with
  | none => w
  | some x =>
    let state := { x.state with listening := false, accepted := [] }
    let w := w.modifySession m fun x => { x with state, held := false }
    x.state.accepted.foldl (fun w k => w.dropConnUser m k) w

end Tether.World
