import Tether.Link.Network

/-!
# A network in use

The runs that the laws of networks are about. Users listen, dial and accept, send and receive at the
ends of pipes, and let go of sockets and of the halves of ends. Meanwhile the network is made to fail
in every way that it knows, and pipes are cut one by one. All of this comes in any order. An act that
cannot happen, such as a send by a half that was let go, changes nothing.

A run can have any luck: nothing is supposed of the source of chance that the generators come from. Beside
the network stand the pipes that dials made, the chunks whose send
succeeded and the chunks that were received.
-/

namespace Tether.Link

/-- The end that an end talks to. -/
def End.opposite (e : End) : End :=
  { e with side := e.side.opposite }

namespace Network

/-! ## Asking -/

def isCut (n : Network) (id : PipeId) : Bool :=
  (n.pipe? id).any (·.cut)

/-- Whether the sending half of an end is held. -/
def holdsSender (n : Network) (e : End) : Bool :=
  (n.pipe? e.pipe).any fun p => (p.outgoing e.side).sending

/-- Whether the receiving half of an end is held. -/
def holdsReceiver (n : Network) (e : End) : Bool :=
  (n.pipe? e.pipe).any fun p => (p.incoming e.side).receiving

/-- What waits to be received at an end, oldest first. -/
def queue (n : Network) (e : End) : List Bytes :=
  ((n.pipe? e.pipe).map fun p => (p.incoming e.side).queue).getD []

/-- Whether chance lets the next send on a pipe fail. -/
def strikes (n : Network) (id : PipeId) : Bool :=
  n.cables[id]?.any fun c => (n.roll c.faults).2

end Network

/-- A network, and what was done in it. -/
structure Traffic where
  chance : Chance
  network : Network := {}
  /-- The pipes that dials made, with the address dialed, in order. -/
  dialed : List (String × PipeId) := []
  /-- The chunks whose send succeeded, with the end that sent them, in order. -/
  sent : List (End × Bytes) := []
  /-- The chunks received, with the end that received them, in order. -/
  received : List (End × Bytes) := []

namespace Traffic

/-- The chunks of an account that concern an end, in order. -/
def chunksAt (account : List (End × Bytes)) (e : End) : List Bytes :=
  (account.filter (·.1 = e)).map (·.2)

/-- The chunks that an end sent with success, in order. -/
def sentFrom (t : Traffic) (e : End) : List Bytes :=
  chunksAt t.sent e

/-- The chunks that an end received, in order. -/
def receivedAt (t : Traffic) (e : End) : List Bytes :=
  chunksAt t.received e

/-! ## Steps with an account -/

def dial (t : Traffic) (addr : String) : Traffic :=
  match t.network.dial addr with
  | (network, .ok pipe) => { t with network, dialed := t.dialed ++ [(addr, pipe)] }
  | (network, .error _) => { t with network }

def accept (t : Traffic) (socket : SocketId) : Traffic :=
  match t.network.accept? socket with
  | some (network, _) => { t with network }
  | none => t

def send (t : Traffic) (e : End) (chunk : Bytes) : Traffic :=
  if t.network.holdsSender e then
    match t.network.send e chunk with
    | (network, .ok ()) => { t with network, sent := t.sent ++ [(e, chunk)] }
    | (network, .error _) => { t with network }
  else t

def receive (t : Traffic) (e : End) : Traffic :=
  if t.network.holdsReceiver e then
    match t.network.recv? e with
    | some (network, .ok (some chunk)) =>
      { t with network, received := t.received ++ [(e, chunk)] }
    | some (network, _) => { t with network }
    | none => t
  else t

/-! ## Runs -/

inductive Act where
  | listen (addr : String)
  | dial (addr : String)
  | accept (socket : SocketId)
  | dropSocket (socket : SocketId)
  /-- A pipe is laid beside those that are dialed. -/
  | lay
  | send (e : End) (chunk : Bytes)
  | receive (e : End)
  | dropSender (e : End)
  | dropReceiver (e : End)
  | cut (pipe : PipeId)
  | cutAll
  | setDown (addr : String) (down : Bool)
  | kill (addr : String)
  | failLinks (seed : UInt64) (odds : Odds)
  | heal

/-- One act of a run. -/
def step (t : Traffic) : Act → Traffic
  | .listen addr => { t with network := (t.network.listen addr).1 }
  | .dial addr => t.dial addr
  | .accept socket => t.accept socket
  | .dropSocket socket => { t with network := t.network.dropSocket socket }
  | .lay => { t with network := (t.network.lay none).1 }
  | .send e chunk => t.send e chunk
  | .receive e => t.receive e
  | .dropSender e => { t with network := t.network.dropSender e }
  | .dropReceiver e => { t with network := t.network.dropReceiver e }
  | .cut pipe => { t with network := t.network.cut pipe }
  | .cutAll => { t with network := t.network.cutAll.1 }
  | .setDown addr down => { t with network := t.network.setDown addr down }
  | .kill addr => { t with network := t.network.kill addr }
  | .failLinks seed odds => { t with network := t.network.failLinks t.chance seed odds }
  | .heal => { t with network := t.network.heal }

/-- A new network. -/
def start (chance : Chance) : Traffic :=
  { chance }

/-- The network and its accounts after a run. -/
def run (t : Traffic) (acts : List Act) : Traffic :=
  acts.foldl step t

/-- What one act keeps holds after every run. -/
theorem run_induction {P : Traffic → Prop} {t : Traffic} (start : P t)
    (step : ∀ t act, P t → P (t.step act)) (acts : List Act) : P (t.run acts) :=
  List.foldlRecOn acts Traffic.step start fun t held act _ => step t act held

@[simp]
theorem run_append (t : Traffic) (earlier later : List Act) :
    t.run (earlier ++ later) = (t.run earlier).run later :=
  List.foldl_append

/-- What one act keeps of the network and its past holds after every run. -/
theorem history_induction {P : List Act → Traffic → Prop} (past acts : List Act) {t : Traffic}
    (start : P past t) (step : ∀ past t act, P past t → P (past ++ [act]) (t.step act)) :
    P (past ++ acts) (t.run acts) := by
  induction acts generalizing past t with
  | nil => rwa [List.append_nil]
  | cons act acts ih =>
    rw [List.append_cons]
    exact ih _ (step past t act start)

theorem network_dial (t : Traffic) (addr : String) :
    (t.dial addr).network = (t.network.dial addr).1 := by
  unfold dial
  generalize t.network.dial addr = outcome
  obtain ⟨network, _ | _⟩ := outcome <;> rfl

end Traffic

end Tether.Link
