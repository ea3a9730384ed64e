import Tether.Chain.Listener
import Tether.Chain.Redial
import Tether.Chain.Watch

/-!
# The opening of links, from both ends

How far a dialer has come with the link of its chain, and a listener with an inbound link. Each
stands at one place at a time, and moves by steps that wait for the peer, for a moment, or for room.
-/

namespace Tether.Chain

/-- Where the dialer of a chain stands. -/
inductive DialStage where
  /-- It dials now. -/
  | dialing
  /-- It pauses until a moment. -/
  | pausing (deadline : Nat)
  /-- It has sent its dial and waits for the answer. -/
  | greeting (link : Link.End) (deadline : Nat)
  /-- It waits for the stitch of an admitted link to be queued. -/
  | stitching (link : LinkId)
  /-- It waits for the link to be lost. -/
  | linked (link : LinkId)
  deriving DecidableEq, Repr

/-- The dialer of one chain. -/
structure Dialing where
  chain : ChainId
  addr : String
  config : Config
  memory : Redial := {}
  stage : DialStage := .dialing
  deriving Repr

/-- Where the admission of an inbound link stands. -/
inductive AdmitStage where
  /-- The link's first message is awaited until a moment. -/
  | hearing (deadline : Nat)
  /-- The verdict is to be told. -/
  | answering (verdict : Verdict)
  /-- The link is attached to its chain, and its stitch waits to be queued. -/
  | stitching (chain : ChainId) (link : LinkId) (opens : Bool)
  deriving DecidableEq, Repr

/-- The admission of one inbound link. -/
structure Admission where
  listener : Nat
  link : Link.End
  stage : AdmitStage
  deriving Repr

end Tether.Chain
