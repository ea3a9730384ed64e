import Tether.Chain.Endpoint

/-!
# One end of a chain on its links

The runs that the law of deliveries is about. One end of a chain is given links in any order and
under any numbers, each with the pipe under it, on which messages of the peer may wait already.
Attaching a link, queueing its stitch, taking a chunk from it and queueing the chunk are acts of
their own, as are the steps of a kill; so are what the peer does on the pipe of a link, the writes
on it, its cut, and the reads of the user. They come in any order. An act that cannot happen changes
nothing.
-/

namespace Tether.Chain

open Link (Side)

/-- The pipe under a link. -/
structure Strand where
  pipe : Link.Pipe
  /-- What the peer has sent over it since the handshake, in order. -/
  sent : List Bytes

/-- One end of a chain, the pipes under its links, and what its user has read. -/
structure Wired where
  /-- The end of each pipe that the chain has. -/
  side : Side
  chain : Endpoint
  /-- The pipes of the links, in the order of attachment. -/
  strands : List Strand := []
  got : List Delivery := []

namespace Wired

def modifyStrand (w : Wired) (k : LinkId) (f : Strand → Strand) : Wired :=
  { w with strands := w.strands.modify k f }

def modifyPipe (w : Wired) (k : LinkId) (f : Link.Pipe → Link.Pipe) : Wired :=
  w.modifyStrand k fun s => { s with pipe := f s.pipe }

/-! ## Links -/

/-- A link is attached under a number, unless the chain refuses it. What waits on its pipe was sent
since the handshake. -/
def attach (w : Wired) (seq : Nat) (link : Link.End) (pipe : Link.Pipe) : Wired :=
  match w.chain.attach seq link with
  | (_, none) => w
  | (chain, some _) =>
    { w with
      chain := chain.announce
      strands := w.strands ++ [⟨pipe, (pipe.incoming w.side).queue⟩] }

/-- The stitch of a link is queued, or the link is given up and let go. -/
def stitch (w : Wired) (k : LinkId) : Wired :=
  match w.chain.stitch? k with
  | none => w
  | some chain =>
    let w := { w with chain }
    if chain.stage k = .refused then w.modifyPipe k (·.dropEnd w.side) else w

/-- Goes on after a step of moving chunks. A link that is not read any more is let go. -/
def settle (w : Wired) (k : LinkId) (chain : Endpoint) : Wired :=
  let w := { w with chain }
  if chain.stage k = .ended then w.modifyPipe k (·.dropReceiver w.side) else w

/-- A chunk is taken from a link, or the one taken is queued. -/
def pump (w : Wired) (k : LinkId) : Wired :=
  if w.chain.wantsChunk k then
    match w.strands[k]? with
    | none => w
    | some s =>
      match s.pipe.recv? w.side with
      | none => w
      | some (pipe, r) => (w.modifyPipe k fun _ => pipe).settle k (w.chain.received k r)
  else
    match w.chain.deliver? k with
    | none => w
    | some chain => w.settle k chain

/-- The writer of a link sends. `fault` says whether the medium fails. -/
def write (w : Wired) (k : LinkId) (fault : Bool) (data : Bytes) : Wired :=
  match w.chain.mayWrite k, w.strands[k]? with
  | .ok (), some s =>
    let r := s.pipe.send w.side fault data
    { w.modifyPipe k fun _ => r.1 with chain := (w.chain.written k r.2).1 }
  | _, _ => w

/-! ## The peer -/

/-- The peer sends over a link. `fault` says whether the medium fails. -/
def arrive (w : Wired) (k : LinkId) (fault : Bool) (data : Bytes) : Wired :=
  w.modifyStrand k fun s =>
    match s.pipe.send w.side.opposite fault data with
    | (pipe, .ok ()) => ⟨pipe, s.sent ++ [data]⟩
    | (pipe, .error _) => { s with pipe }

/-! ## The user -/

def read (w : Wired) : Wired :=
  match w.chain.read with
  | (chain, some (.ok d)) => { w with chain, got := w.got ++ [d] }
  | (chain, _) => { w with chain }

/-! ## Runs -/

inductive Act where
  | attach (seq : Nat) (link : Link.End) (pipe : Link.Pipe)
  | stitch (link : LinkId)
  | pump (link : LinkId)
  | write (link : LinkId) (fault : Bool) (data : Bytes)
  | dropWriter (link : LinkId)
  | arrive (link : LinkId) (fault : Bool) (data : Bytes)
  /-- The peer lets go of its sending half of a link. -/
  | dropSender (link : LinkId)
  /-- The peer lets go of its receiving half of a link. -/
  | dropReceiver (link : LinkId)
  | cut (link : LinkId)
  | read
  /-- A kill names its reason. -/
  | nameReason (reason : Option Error)
  /-- A kill raises the latch. -/
  | raise
  /-- A kill that has raised the latch takes the current link away. -/
  | retireCurrent
  /-- The user lets go of the reader. -/
  | close

/-- One act of a run. -/
def step (w : Wired) : Act → Wired
  | .attach seq link pipe => w.attach seq link pipe
  | .stitch k => w.stitch k
  | .pump k => w.pump k
  | .write k fault data => w.write k fault data
  | .dropWriter k => w.modifyPipe k (·.dropSender w.side)
  | .arrive k fault data => w.arrive k fault data
  | .dropSender k => w.modifyPipe k (·.dropSender w.side.opposite)
  | .dropReceiver k => w.modifyPipe k (·.dropReceiver w.side.opposite)
  | .cut k => w.modifyPipe k fun pipe => { pipe with cut := true }
  | .read => w.read
  | .nameReason reason => { w with chain := w.chain.nameReason reason }
  | .raise => { w with chain := w.chain.raise }
  | .retireCurrent => if w.chain.killed then { w with chain := w.chain.retireCurrent } else w
  | .close => { w with chain := w.chain.close }

/-- An end without links. -/
def start (side : Side) (id : Id) (depth : Nat) : Wired :=
  { side, chain := .new id depth }

/-- The end after a run. -/
def run (w : Wired) (acts : List Act) : Wired :=
  acts.foldl step w

/-- What one act keeps holds after every run. -/
theorem run_induction {P : Wired → Prop} {w : Wired} (start : P w)
    (step : ∀ w act, P w → P (w.step act)) (acts : List Act) : P (w.run acts) :=
  List.foldlRecOn acts Wired.step start fun w held act _ => step w act held

end Wired

end Tether.Chain
