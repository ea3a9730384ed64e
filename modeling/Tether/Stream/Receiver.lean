import Tether.Stream.Buffer
import Tether.Stream.Frame

/-!
# The receiving side

The receiver accepts chunks in the order of their numbers and nothing else. After each stitch it
tells the peer how many chunks it holds, so that the peer resends the rest. A chunk from beyond a
gap asks for the same, once for each gap. Every so many chunks, and at the end marker, it
acknowledges what it holds.
-/

namespace Tether.Stream

/-- What the receiver remembers. -/
structure Receiver where
  /-- The number of the next chunk to accept, which is also how many were accepted. -/
  expected : Nat := 0
  /-- The gap that a resend was asked for. -/
  gapSynced : Option Nat := none
  /-- How many chunks were accepted since the last acknowledgment or stitch. -/
  unacked : Nat := 0
  peerEnded : Bool := false
  deriving DecidableEq, Repr

/-- What the receiver does about a data frame. -/
structure Receipt where
  receiver : Receiver
  /-- The frame to send to the peer. -/
  reply : Option Frame := none
  /-- The unit accepted; an empty one is the end marker. -/
  accepted : Option Bytes := none
  deriving DecidableEq, Repr

namespace Receiver

/-- A stitch starts over: the peer is told what is held. -/
def stitched (r : Receiver) : Receipt :=
  { receiver := { r with gapSynced := none, unacked := 0 }, reply := some (.sync r.expected) }

/-- Accepts the chunk that was expected. -/
def accept (r : Receiver) (ackFrequency : Nat) (payload : Bytes) : Receipt :=
  let expected := r.expected + 1
  let due : Bool := payload = [] || max ackFrequency 1 ≤ r.unacked + 1
  { receiver := { r with
      expected
      unacked := if due then 0 else r.unacked + 1
      peerEnded := r.peerEnded || payload = [] }
    reply := if due then some (.ack expected) else none
    accepted := some payload }

/-- Takes a data frame. -/
def chunk (r : Receiver) (ackFrequency seq : Nat) (payload : Bytes) : Except Error Receipt :=
  if seq < r.expected then .ok { receiver := r }
  else if r.expected < seq then
    if r.gapSynced = some r.expected then .ok { receiver := r }
    else
      .ok { receiver := { r with gapSynced := some r.expected }
            reply := some (.sync r.expected) }
  else if r.peerEnded then
    .error (.protocolViolation s!"chunk {r.expected} after end of stream")
  else .ok (r.accept ackFrequency payload)

end Receiver

end Tether.Stream
