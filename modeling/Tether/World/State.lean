import Tether.World.Task

/-!
# The world

A whole system at one moment: a network, every end of every chain, stream and session on it, and the
activities that drive them. Activities take one step at a time, on the state of all; the clock moves
only when none can.
-/

namespace Tether

/-- A session with the stream it runs on. -/
structure World.Multiplex where
  state : Session.State
  stream : StreamId
  /-- Whether the session object is held. -/
  held : Bool := true
  /-- Whether the session still reads from its stream. -/
  reading : Bool := true
  /-- How many aborts are on their way. -/
  aborts : Nat := 0
  /-- Whether the session has let go of its stream. -/
  released : Bool := false

/-- The state of a whole system. -/
structure World where
  /-- The time since the start, in microseconds. -/
  clock : Nat := 0
  network : Link.Network := {}
  chains : Array Chain.Endpoint := #[]
  listeners : Array Chain.Listener := #[]
  streams : Array Stream.Endpoint := #[]
  sessions : Array World.Multiplex := #[]
  /-- The activities that have not ended, oldest first. -/
  tasks : List World.Task := []
  /-- What each background call answered, once it has. -/
  jobs : Array (Option World.Answer) := #[]
  /-- How many pauses were drawn. -/
  draws : Nat := 0

namespace World

/-- The world after a step of an activity, and how the activity goes on, if it does. -/
abbrev Move := World × Option Task

/-- Starts an activity. -/
def spawn (w : World) (t : Task) : World :=
  { w with tasks := w.tasks ++ [t] }

/-- The moment that lies a span ahead. -/
def after (w : World) (d : Duration) : Nat :=
  w.clock + d.toMicros

/-! ## Chains and listeners -/

/-- Changes one end of a chain. -/
def modifyChain (w : World) (c : Chain.ChainId) (f : Chain.Endpoint → Chain.Endpoint) : World :=
  { w with chains := w.chains.modify c f }

/-- Replaces one end of a chain. -/
def setChain (w : World) (c : Chain.ChainId) (e : Chain.Endpoint) : World :=
  w.modifyChain c fun _ => e

/-- Whether a chain was killed. -/
def chainDead (w : World) (c : Chain.ChainId) : Bool :=
  (w.chains[c]?.map (·.killed)).getD true

/-- The physical link behind a link of a chain. -/
def linkEnd? (w : World) (c : Chain.ChainId) (k : Chain.LinkId) : Option Link.End :=
  w.chains[c]?.bind fun e => e.links[k]?.map (·.link)

/-- The identifier of a chain. -/
def chainName (w : World) (c : Chain.ChainId) : String :=
  (w.chains[c]?.map (·.id.text)).getD ""

/-- Changes a listener. -/
def modifyListener (w : World) (l : ListenerId) (f : Chain.Listener → Chain.Listener) : World :=
  { w with listeners := w.listeners.modify l f }

/-! ## Streams and sessions -/

/-- Changes one end of a stream. -/
def modifyStream (w : World) (s : StreamId) (f : Stream.Endpoint → Stream.Endpoint) : World :=
  { w with streams := w.streams.modify s f }

/-- Replaces one end of a stream. -/
def setStream (w : World) (s : StreamId) (stream : Stream.Endpoint) : World :=
  w.modifyStream s fun _ => stream

/-- Changes a session. -/
def modifySession (w : World) (m : SessionId) (f : Multiplex → Multiplex) : World :=
  { w with sessions := w.sessions.modify m f }

/-- Replaces the state of a session. -/
def setSession (w : World) (m : SessionId) (state : Session.State) : World :=
  w.modifySession m fun x => { x with state }

/-- One end of a connection of a session. -/
def conn? (w : World) (m : SessionId) (k : Session.ConnKey) : Option Session.Conn :=
  w.sessions[m]?.bind (·.state.conns[k]?)

/-- The identifier of a connection. -/
def connName (w : World) (m : SessionId) (k : Session.ConnKey) : String :=
  ((w.conn? m k).map (·.id.text)).getD ""

/-- Changes how many users hold a connection. -/
def modifyConnUsers (w : World) (m : SessionId) (k : Session.ConnKey) (f : Nat → Nat) : World :=
  w.modifySession m fun x =>
    { x with state := x.state.modifyConn k fun c => { c with users := f c.users } }

end World

end Tether
