import Tether.Link.Pipe

/-!
# Networks with faults

A medium that lives in memory. Listeners open sockets on addresses, dials make pipes to them, and
the network can be made to fail: an address can be down for a while or gone, all pipes can be cut,
and sends can fail by chance. A pipe keeps the fault switch that was in place when it was dialed.

The network remembers the pipes it dialed until it cuts them. Those that nobody holds any more are
forgotten at the next dial.
-/

namespace Tether.Link

/-- A source of chance, a generator to each seed: whether it answers a question with yes, by how likely
the yes is to be and by how many questions were put to it before. -/
abbrev Chance := UInt64 → Rat → Nat → Bool

/-- What is certain, chance affirms. -/
def Chance.Sure (chance : Chance) : Prop :=
  ∀ seed asked, chance seed 1 asked = true

/-- A number that is given for a probability. -/
inductive Odds where
  | number (p : Rat)
  /-- More than every number. -/
  | above
  /-- Less than every number. -/
  | below
  /-- No number at all. -/
  | undefined
  deriving DecidableEq, Repr

/-- The nearest probability. What is no number makes nothing likely. -/
def Odds.probability : Odds → Rat
  | number p => if p < 0 then 0 else if 1 < p then 1 else p
  | above => 1
  | below | undefined => 0

/-- What decides whether sends fail: the answers of a seeded generator, how likely it is to be yes, and
how many questions were put to it. -/
structure Faults where
  answers : Rat → Nat → Bool
  probability : Rat
  asked : Nat := 0

namespace Faults

/-- Decides whether the next send fails. No question is put while failures are switched off. -/
def roll (f : Faults) : Faults × Bool :=
  if 0 < f.probability then
    ({ f with asked := f.asked + 1 }, f.answers f.probability f.asked)
  else (f, false)

end Faults

/-- A handle on a socket. -/
abbrev SocketId := Nat

/-- A handle on a pipe. -/
abbrev PipeId := Nat

/-- A handle on a fault switch. -/
abbrev FaultsId := Nat

/-- A pipe in a network, with the switch that governs its sends. -/
structure Cable where
  pipe : Pipe
  faults : Option FaultsId
  deriving DecidableEq, Repr

/-- A socket: an address that was listened on, and the pipes that wait at it to be accepted. -/
structure Socket where
  addr : String
  waiting : List PipeId := []
  /-- Whether the listener still holds the socket. -/
  held : Bool := true
  deriving DecidableEq, Repr

/-- A network: every pipe, socket and fault switch that was ever made, and what dials find. -/
structure Network where
  cables : Array Cable := #[]
  sockets : Array Socket := #[]
  switches : Array Faults := #[]
  /-- The switch that new pipes get. -/
  faults : Option FaultsId := none
  /-- The socket that a dial of an address reaches. -/
  listeners : List (String × SocketId) := []
  down : List String := []
  gone : List String := []
  /-- The pipes dialed and not cut by the network, with the address dialed, oldest first. -/
  dialed : List (String × PipeId) := []
  /-- How many dials were tried. -/
  dials : Nat := 0

/-- One end of a pipe in a network. -/
structure End where
  pipe : PipeId
  side : Side
  deriving DecidableEq, Repr

namespace Network

/-- Changes a pipe. -/
def modifyPipe (n : Network) (id : PipeId) (f : Pipe → Pipe) : Network :=
  { n with cables := n.cables.modify id fun c => { c with pipe := f c.pipe } }

/-- A pipe by its handle. -/
def pipe? (n : Network) (id : PipeId) : Option Pipe :=
  n.cables[id]?.map (·.pipe)

/-- Whether a cut of the pipe would be felt. -/
def live (n : Network) (id : PipeId) : Bool :=
  (n.pipe? id).any Pipe.live

/-- Whether anyone holds a half of the pipe. -/
def held (n : Network) (id : PipeId) : Bool :=
  (n.pipe? id).any Pipe.held

/-- Cuts a pipe. -/
def cut (n : Network) (id : PipeId) : Network :=
  n.modifyPipe id fun p => { p with cut := true }

/-- Changes a socket. -/
def modifySocket (n : Network) (id : SocketId) (f : Socket → Socket) : Network :=
  { n with sockets := n.sockets.modify id f }

/-- Whether a socket is still held by its listener. -/
def holdsSocket (n : Network) (id : SocketId) : Bool :=
  n.sockets[id]?.any (·.held)

/-- Lays a pipe that the network does not remember as dialed. -/
def lay (n : Network) (faults : Option FaultsId) : Network × PipeId :=
  ({ n with cables := n.cables.push ⟨{}, faults⟩ }, n.cables.size)

/-- Decides by the switch whether a send fails. -/
def roll (n : Network) (faults : Option FaultsId) : Network × Bool :=
  match faults with
  | none => (n, false)
  | some id =>
    match n.switches[id]? with
    | none => (n, false)
    | some f =>
      let (f, fault) := f.roll
      ({ n with switches := n.switches.set! id f }, fault)

/-- Sends a chunk from an end. Chance is asked only on a pipe that is not cut. -/
def send (n : Network) (e : End) (chunk : Bytes) : Network × Except Error Unit :=
  match n.cables[e.pipe]? with
  | none => (n, .error .closed)
  | some c =>
    let (n, fault) := if c.pipe.cut then (n, false) else n.roll c.faults
    let (pipe, result) := c.pipe.send e.side fault chunk
    (n.modifyPipe e.pipe fun _ => pipe, result)

/-- Receives at an end. -/
def recv? (n : Network) (e : End) : Option (Network × Except Error (Option Bytes)) :=
  match n.pipe? e.pipe with
  | none => none
  | some p => (p.recv? e.side).map fun (p, r) => (n.modifyPipe e.pipe fun _ => p, r)

/-- Lets go of the sending half of an end. -/
def dropSender (n : Network) (e : End) : Network :=
  n.modifyPipe e.pipe (·.dropSender e.side)

/-- Lets go of the receiving half of an end. -/
def dropReceiver (n : Network) (e : End) : Network :=
  n.modifyPipe e.pipe (·.dropReceiver e.side)

/-- Lets go of an end. -/
def dropEnd (n : Network) (e : End) : Network :=
  n.modifyPipe e.pipe (·.dropEnd e.side)

/-- Replaces the fault switch for pipes dialed from now on. Pipes dialed before keep theirs. -/
def failLinks (n : Network) (chance : Chance) (seed : UInt64) (odds : Odds) : Network :=
  { n with
    switches := n.switches.push { answers := chance seed, probability := odds.probability }
    faults := some n.switches.size }

/-- Switches off the failures of the switch now in place. -/
def heal (n : Network) : Network :=
  match n.faults with
  | none => n
  | some id => { n with switches := n.switches.modify id fun f => { f with probability := 0 } }

/-- Cuts every live pipe that was dialed, and says how many were. -/
def cutAll (n : Network) : Network × Nat :=
  let cutLive := fun (state : Network × Nat) (entry : String × PipeId) =>
    if state.1.live entry.2 then (state.1.cut entry.2, state.2 + 1) else state
  n.dialed.foldl cutLive ({ n with dialed := [] }, 0)

/-- Marks an address as down, so that dials fail for the time being, or as up again. -/
def setDown (n : Network) (addr : String) (down : Bool) : Network :=
  let others := n.down.filter (· ≠ addr)
  { n with down := if down then addr :: others else others }

/-- Kills an address: its listener is cut off, its pipes are cut, and dials say it is gone. -/
def kill (n : Network) (addr : String) : Network :=
  let doomed := n.dialed.filter fun entry => entry.1 = addr
  let n := { n with
    gone := addr :: n.gone
    listeners := n.listeners.filter fun entry => entry.1 ≠ addr
    dialed := n.dialed.filter fun entry => entry.1 ≠ addr }
  doomed.foldl (fun n entry => n.cut entry.2) n

/-- Dials an address. The far end of the new pipe waits at the socket to be accepted. -/
def dial (n : Network) (addr : String) : Network × Except Error PipeId :=
  let n := { n with dials := n.dials + 1 }
  if addr ∈ n.gone then (n, .error (.gone addr))
  else if addr ∈ n.down then (n, .error (.io s!"{addr} unreachable"))
  else
    match n.listeners.lookup addr with
    | none => (n, .error (.io s!"{addr} refused"))
    | some socket =>
      if n.holdsSocket socket then
        let (n, pipe) := n.lay n.faults
        let n := n.modifySocket socket fun s => { s with waiting := s.waiting ++ [pipe] }
        let known := n.dialed.filter fun entry => n.held entry.2
        ({ n with dialed := known ++ [(addr, pipe)] }, .ok pipe)
      else
        ({ n with listeners := n.listeners.filter fun entry => entry.1 ≠ addr },
          .error (.io s!"{addr} refused"))

/-- Listens on an address, unless someone else does. An address that was gone is back by this. -/
def listen (n : Network) (addr : String) : Network × Except Error SocketId :=
  if (n.listeners.lookup addr).any n.holdsSocket then (n, .error (.io s!"{addr} already in use"))
  else
    let socket := n.sockets.size
    ({ n with
        gone := n.gone.filter (· ≠ addr)
        sockets := n.sockets.push { addr }
        listeners := (addr, socket) :: n.listeners.filter fun entry => entry.1 ≠ addr },
      .ok socket)

/-- Accepts the next pipe that waits at a socket. Once the socket was cut off and none waits, it is
closed. No answer means that the listener has to wait. -/
def accept? (n : Network) (socket : SocketId) : Option (Network × Except Error PipeId) :=
  match n.sockets[socket]? with
  | none => some (n, .error .closed)
  | some s =>
    match s.waiting with
    | pipe :: rest => some (n.modifySocket socket fun s => { s with waiting := rest }, .ok pipe)
    | [] => if n.listeners.any (·.2 = socket) then none else some (n, .error .closed)

/-- Lets go of a socket, and with it of the far ends that wait there. -/
def dropSocket (n : Network) (socket : SocketId) : Network :=
  match n.sockets[socket]? with
  | none => n
  | some s =>
    let n := s.waiting.foldl (fun n pipe => n.dropEnd ⟨pipe, .far⟩) n
    n.modifySocket socket fun s => { s with waiting := [], held := false }

end Network

end Tether.Link
