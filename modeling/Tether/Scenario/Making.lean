import Tether.Scenario.State
import Tether.World.Making

/-!
# Steps that make objects

Each step gives the state after it, with the new object under its name, and what the step shows. A
step on an object of the wrong kind shows that there is no such object.
-/

namespace Tether.Scenario.State

open World (Object Answer Layer)

/-! ## Out of nothing -/

/-- Listens on an address for links. -/
def linkListen (s : State) (addr name : String) : State × Answer :=
  let (network, r) := s.world.network.listen addr
  let s := s.modify ({ · with network })
  match r with
  | .ok socket => (s.bind name (.socket socket), .ok)
  | .error e => (s, .failed (.link e))

/-- Dials a link. -/
def linkDial (s : State) (addr name : String) : State × Answer :=
  let (network, r) := s.world.network.dial addr
  let s := s.modify ({ · with network })
  match r with
  | .ok pipe => (s.bind name (.link ⟨pipe, .near⟩ true true), .ok)
  | .error e => (s, .failed (.link e))

/-- Makes a pipe outside the network: two links and their shared state. -/
def pipe (s : State) (near far name : String) : State × Answer :=
  let (network, p) := s.world.network.lay none
  let s := s.modify ({ · with network })
  let s := (s.bind near (.link ⟨p, .near⟩ true true)).bind far (.link ⟨p, .far⟩ true true)
  (s.bind name (.pipe p), .ok)

/-- Makes a dialer. -/
def dialer (s : State) (layer : Layer) (name : String) (start : UInt64) (config : Config) :
    State × Answer :=
  match config.invalid? with
  | some e => (s, .failed (layer.failure (.config e)))
  | none => (s.bind name (.dialer layer config (.new start)), .ok)

/-- Listens on an address for chains. -/
def listen (s : State) (layer : Layer) (addr name : String) (config : Config) : State × Answer :=
  let (w, r) := s.world.listen addr config
  let s := { s with world := w }
  match r with
  | .ok l => (s.bind name (.listener layer l), .ok)
  | .error e => (s, .failed (layer.failure e))

/-! ## Out of other objects -/

/-- Dials a chain for a dialer, and makes a stream on it if the dialer is one for streams. -/
def dialChain (s : State) (on addr name : String) (layer : Layer) (config : Config)
    (ids : Chain.SequentialIds) : State × Answer :=
  let (id, ids) := ids.draw
  let (w, c) := s.world.dialChain addr config id
  let s := s.update on (.dialer layer config ids)
  match layer with
  | .chain => ({ s with world := w }.bind name (.chain c), .made id.text)
  | .stream =>
    let (w, stream) := w.openStream c config
    ({ s with world := w }.bind name (.stream stream .whole .chunks), .made id.text)

/-- Dials a connection of a session. -/
def dialConn (s : State) (name : String) (m : World.SessionId) : State × Answer :=
  match s.world.sessions[m]? with
  | none => (s, .noObject)
  | some x =>
    let (state, r) := x.state.dial
    let w := s.world.setSession m state
    let s := { s with world := w }
    match r with
    | .ok k => (s.bind name (.conn m k), .made (w.connName m k))
    | .error e => (s, .failed (.session e))

/-- Dials on a dialer or a session. -/
def dial (s : State) (on addr name : String) : State × Answer :=
  match s.object? on with
  | some (.dialer layer config ids) => s.dialChain on addr name layer config ids
  | some (.session m) => s.dialConn name m
  | _ => (s, .noObject)

/-- Makes a chain into a stream. -/
def stream (s : State) (on name : String) (config : Config) : State × Answer :=
  match s.object? on with
  | some (.chain c) =>
    let (w, stream) := s.world.openStream c config
    (s.consume on name w (.stream stream .whole .chunks), .ok)
  | _ => (s, .noObject)

/-- Makes a stream of chunks into one of values. -/
def values (s : State) (on name : String) : State × Answer :=
  match s.object? on with
  | some (.stream x .whole .chunks) =>
    (s.consume on name s.world (.stream x .whole .values), .ok)
  | _ => (s, .noObject)

/-- Makes a stream of values into a session. -/
def session (s : State) (on name : String) (role : Session.Role) : State × Answer :=
  match s.object? on with
  | some (.stream x .whole .values) =>
    let (w, m) := s.world.openSession x role
    (s.consume on name w (.session m), .ok)
  | _ => (s, .noObject)

/-- Takes the halves of a stream apart. -/
def split (s : State) (on reader writer : String) : State × Answer :=
  match s.object? on with
  | some (.stream x .whole content) =>
    let s := (s.forget on).bind reader (.stream x .reader content)
    (s.bind writer (.stream x .writer content), .ok)
  | _ => (s, .noObject)

/-- Takes a handle on a chain. -/
def handle (s : State) (on name : String) : State × Answer :=
  match s.object? on with
  | some (.chain c) => (s.bind name (.handle c), .ok)
  | _ => (s, .noObject)

/-- Takes one more hold of an object. -/
def clone (s : State) (on name : String) : State × Answer :=
  match s.object? on with
  | none => (s, .noObject)
  | some o =>
    match s.world.copy? o with
    | some w => ({ s with world := w }.bind name o, .ok)
    | none => (s, .noObject)

/-- Lets go of the sending half of a link. -/
def dropSender (s : State) (on : String) : State × Answer :=
  match s.object? on with
  | some (.link e sender receiver) =>
    ((s.modify (·.dropHalf sender (·.dropSender e))).update on (.link e false receiver), .ok)
  | _ => (s, .noObject)

/-- Lets go of the receiving half of a link. -/
def dropReceiver (s : State) (on : String) : State × Answer :=
  match s.object? on with
  | some (.link e sender receiver) =>
    ((s.modify (·.dropHalf receiver (·.dropReceiver e))).update on (.link e sender false), .ok)
  | _ => (s, .noObject)

end Tether.Scenario.State
