import Tether.Chain.Error
import Tether.Link.Network

/-!
# One end of a chain

A chain is a connection that outlives its links. Each link that is attached to it carries the number
of the attempt that made it; a new link replaces the one before only if its number is higher. The
reader of a chain sees a stitch for each link, which brings the only writer to that link, and then
the chunks of that link. Once a newer link has been stitched, chunks of an older one are passed
over.

Attaching a link, queueing its stitch and moving its chunks are separate steps, since the queue of
deliveries may be full. So are the three steps of a kill: naming the reason, raising the latch, and
retiring the current link. A killed chain takes no link and delivers nothing.
-/

namespace Tether.Chain

/-- A handle on a link within its chain: its place in the order of attachment. -/
abbrev LinkId := Nat

/-- How far a link has come within its chain. -/
inductive Stage where
  /-- Its stitch waits to be queued. -/
  | stitching
  /-- It waits for a chunk from the peer. -/
  | receiving
  /-- A chunk of it waits to be queued. -/
  | delivering (chunk : Bytes)
  /-- It was given up before its stitch was queued. -/
  | refused
  /-- It was stitched and is not read any more. -/
  | ended
  deriving DecidableEq, Repr

/-- A link as its chain sees it. -/
structure Attachment where
  seq : Nat
  link : Link.End
  retired : Bool := false
  stage : Stage := .stitching
  deriving DecidableEq, Repr

/-- What waits in a chain's queue for its reader. -/
inductive Event where
  | stitch (seq : Nat) (writer : LinkId)
  | chunk (seq : Nat) (data : Bytes)
  deriving DecidableEq, Repr

/-- What the reader of a chain gets. -/
inductive Delivery where
  /-- The link was replaced. The writer is bound to the new one. -/
  | stitch (seq : Nat) (writer : LinkId)
  | chunk (data : Bytes)
  deriving DecidableEq, Repr

/-- One end of a chain. -/
structure Endpoint where
  id : Id
  /-- How many deliveries the queue holds. -/
  depth : Nat
  killed : Bool := false
  terminal : Option Error := none
  links : Array Attachment := #[]
  current : Option LinkId := none
  /-- How many attachments were announced to those who wait for one. -/
  announced : Nat := 0
  events : List Event := []
  /-- The number of the link whose stitch was read last. -/
  stitched : Nat := 0
  deriving Repr

namespace Endpoint

/-- A chain without a link. A queue of depth zero counts as one. -/
def new (id : Id) (depth : Nat) : Endpoint :=
  { id, depth := max depth 1 }

/-- Why the chain ended. -/
def terminalError (e : Endpoint) : Error :=
  e.terminal.getD .killed

/-- Why the chain ended, once it has. -/
def end? (e : Endpoint) : Option Error :=
  if e.killed then some e.terminalError else none

/-- Whether a link was retired. A link that was never attached counts as retired. -/
def retired (e : Endpoint) (k : LinkId) : Bool :=
  match e.links[k]? with
  | some a => a.retired
  | none => true

/-- How far a link has come. -/
def stage (e : Endpoint) (k : LinkId) : Stage :=
  match e.links[k]? with
  | some a => a.stage
  | none => .ended

/-- Marks a link as replaced or failed. -/
def retire (e : Endpoint) (k : LinkId) : Endpoint :=
  { e with links := e.links.modify k fun a => { a with retired := true } }

/-- Moves a link on. -/
def setStage (e : Endpoint) (k : LinkId) (stage : Stage) : Endpoint :=
  { e with links := e.links.modify k fun a => { a with stage } }

/-- Whether the current link is in use. -/
def hasLiveLink (e : Endpoint) : Bool :=
  match e.current with
  | some k => !e.retired k
  | none => false

/-! ## Killing -/

/-- Names the reason of the end. The first one stays. -/
def nameReason (e : Endpoint) (reason : Option Error) : Endpoint :=
  match e.terminal with
  | some _ => e
  | none => { e with terminal := some (reason.getD .killed) }

/-- Raises the latch that everyone on the chain watches. -/
def raise (e : Endpoint) : Endpoint :=
  { e with killed := true }

/-- Takes the current link away and retires it. -/
def retireCurrent (e : Endpoint) : Endpoint :=
  match e.current with
  | some k => { e.retire k with current := none }
  | none => e

/-- Ends the chain. -/
def kill (e : Endpoint) (reason : Option Error) : Endpoint :=
  (e.nameReason reason).raise.retireCurrent

/-! ## Attaching links -/

/-- Makes a link the current one and retires the one before. A dead chain takes none, and neither
does one whose current link has the same or a higher number. -/
def attach (e : Endpoint) (seq : Nat) (link : Link.End) : Endpoint × Option LinkId :=
  if e.killed then (e, none)
  else
    let k := e.links.size
    let newest (e : Endpoint) : Endpoint :=
      { e with links := e.links.push { seq, link }, current := some k }
    match e.current with
    | none => (newest e, some k)
    | some old =>
      if (e.links[old]?.map (·.seq)).any (seq ≤ ·) then (e, none)
      else (newest (e.retire old), some k)

/-- Tells those who wait for a link that one was attached. -/
def announce (e : Endpoint) : Endpoint :=
  { e with announced := e.announced + 1 }

/-- Whether the queue of deliveries has room. -/
def hasRoom (e : Endpoint) : Bool :=
  e.events.length < e.depth

/-- Whether a link is to be given up: the chain is dead or the link was retired. -/
def abandoned (e : Endpoint) (k : LinkId) : Bool :=
  e.killed || e.retired k

/-- Queues the stitch of a link, or gives the link up. No answer means that the queue is full. -/
def stitch? (e : Endpoint) (k : LinkId) : Option Endpoint :=
  match e.links[k]? with
  | none => none
  | some a =>
    if a.stage ≠ .stitching then none
    else if e.abandoned k then some ((e.retire k).setStage k .refused)
    else if e.hasRoom then
      some { e.setStage k .receiving with events := e.events ++ [.stitch a.seq k] }
    else none

/-! ## Moving chunks -/

/-- Whether a link is to be asked for its next chunk. -/
def wantsChunk (e : Endpoint) (k : LinkId) : Bool :=
  e.stage k == .receiving && !e.abandoned k

/-- Takes what a link gave: a chunk to deliver, or its end. -/
def received (e : Endpoint) (k : LinkId) : Except Link.Error (Option Bytes) → Endpoint
  | .ok (some chunk) => e.setStage k (.delivering chunk)
  | .ok none | .error _ => (e.retire k).setStage k .ended

/-- Queues the chunk that a link holds, or stops reading an abandoned link. No answer means that
the link has to wait, for a chunk or for room. -/
def deliver? (e : Endpoint) (k : LinkId) : Option Endpoint :=
  match e.links[k]? with
  | none => none
  | some a =>
    match a.stage with
    | .receiving => if e.abandoned k then some ((e.retire k).setStage k .ended) else none
    | .delivering chunk =>
      if e.abandoned k then some ((e.retire k).setStage k .ended)
      else if e.hasRoom then
        some { e.setStage k .receiving with events := e.events ++ [.chunk a.seq chunk] }
      else none
    | .stitching | .refused | .ended => none

/-! ## Reading and writing -/

/-- The first event that the reader gets, and the events behind it. Chunks of other links than the
one last stitched are passed over. -/
def nextDelivery (stitched : Nat) : List Event → Option Delivery × List Event
  | [] => (none, [])
  | .stitch seq writer :: rest => (some (.stitch seq writer), rest)
  | .chunk seq data :: rest =>
    if seq = stitched then (some (.chunk data), rest) else nextDelivery stitched rest

/-- Reads from the chain. Without an answer the reader has to wait; events passed over are gone
even then. -/
def read (e : Endpoint) : Endpoint × Option (Except Error Delivery) :=
  if e.killed then (e, some (.error e.terminalError))
  else
    match nextDelivery e.stitched e.events with
    | (some (.stitch seq writer), events) =>
      ({ e with events, stitched := seq }, some (.ok (.stitch seq writer)))
    | (some (.chunk data), events) => ({ e with events }, some (.ok (.chunk data)))
    | (none, events) => ({ e with events }, none)

/-- Whether the writer of a link may still write, and else why not. -/
def mayWrite (e : Endpoint) (k : LinkId) : Except Error Unit :=
  if e.killed then .error e.terminalError
  else if e.retired k then .error .superseded
  else .ok ()

/-- Settles a write by what the link said. A link that fails is retired, and its failure is not
shown. -/
def written (e : Endpoint) (k : LinkId) : Except Link.Error Unit → Endpoint × Except Error Unit
  | .ok () => (e, .ok ())
  | .error _ => (e.retire k, .error .superseded)

/-- The writers that wait in the queue. -/
def queuedWriters (e : Endpoint) : List LinkId :=
  e.events.filterMap fun
    | .stitch _ writer => some writer
    | .chunk _ _ => none

/-- Lets the reader go: the chain is killed and its queue is emptied. -/
def close (e : Endpoint) : Endpoint :=
  { e.kill none with events := [] }

end Endpoint

end Tether.Chain
