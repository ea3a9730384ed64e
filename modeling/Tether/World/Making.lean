import Tether.World.State

/-!
# Making listeners, chains, streams and sessions

Each of them starts with the activities that drive it.
-/

namespace Tether.World

/-- Listens for chains on an address. -/
def listen (w : World) (addr : String) (config : Config) :
    World × Except Chain.Error ListenerId :=
  match config.invalid? with
  | some e => (w, .error (.config e))
  | none =>
    match w.network.listen addr with
    | (network, .error e) => ({ w with network }, .error (.link e))
    | (network, .ok socket) =>
      let l := w.listeners.size
      let w := { w with network, listeners := w.listeners.push { socket, addr, config } }
      (w.spawn (.listen l), .ok l)

/-- Makes a chain and dials for it. -/
def dialChain (w : World) (addr : String) (config : Config) (id : Chain.Id) :
    World × Chain.ChainId :=
  let c := w.chains.size
  let w := { w with chains := w.chains.push (.new id config.eventQueue) }
  (w.spawn (.dial { chain := c, addr, config }), c)

/-- Makes a stream on a chain. -/
def openStream (w : World) (c : Chain.ChainId) (config : Config) : World × StreamId :=
  let id := (w.chains[c]?.map (·.id)).getD ⟨0⟩
  let s := w.streams.size
  let w := { w with streams := w.streams.push (.new c id config) }
  ((w.spawn (.receive s)).spawn (.send s), s)

/-- Makes a session on a stream of values. -/
def openSession (w : World) (s : StreamId) (role : Session.Role) : World × SessionId :=
  let m := w.sessions.size
  let w := { w with sessions := w.sessions.push { state := .new role, stream := s } }
  ((w.spawn (.dispatch m)).spawn (.release m), m)

end Tether.World
