import Tether.Bytes
import Tether.Chain.Endpoint
import Tether.Chain.Error
import Tether.Chain.Handshake
import Tether.Chain.Id
import Tether.Chain.Listener
import Tether.Chain.Opening
import Tether.Chain.Redial
import Tether.Chain.Registry
import Tether.Chain.Watch
import Tether.Codec.Error
import Tether.Codec.Values
import Tether.Config
import Tether.Desk
import Tether.Duration
import Tether.Latch
import Tether.Link.Error
import Tether.Link.Network
import Tether.Link.Pipe
import Tether.Scenario.Calls
import Tether.Scenario.Making
import Tether.Scenario.Run
import Tether.Scenario.State
import Tether.Scenario.Step
import Tether.Session.Conn
import Tether.Session.Dispatch
import Tether.Session.Envelope
import Tether.Session.Error
import Tether.Session.Outgoing
import Tether.Session.State
import Tether.Session.Turn
import Tether.Stream.Buffer
import Tether.Stream.Endpoint
import Tether.Stream.Error
import Tether.Stream.Frame
import Tether.Stream.Receiver
import Tether.Wire.Call
import Tether.Wire.Cursor
import Tether.Wire.Decoder
import Tether.Wire.Encoder
import Tether.Wire.Error
import Tether.Wire.Tag
import Tether.Wire.Typed
import Tether.Wire.Value
import Tether.Wire.Varint
import Tether.Wire.View
import Tether.World.Answer
import Tether.World.Calls
import Tether.World.Ends
import Tether.World.Links
import Tether.World.Making
import Tether.World.Object
import Tether.World.Schedule
import Tether.World.Sessions
import Tether.World.State
import Tether.World.Streams
import Tether.World.Task
import Tether.Proofs.Stream.Frame
import Tether.Proofs.Stream.Duplex
import Tether.Proofs.Stream.Log
import Tether.Proofs.Stream.View
import Tether.Proofs.Stream.Exchange
import Tether.Proofs.Stream.Delivery
import Tether.Proofs.Stream.Agreement
import Tether.Proofs.Stream.Quiet
import Tether.Proofs.Stream.Graceful
import Tether.Proofs.Chain.Judgment
import Tether.Proofs.Chain.Redialing
import Tether.Proofs.Link.Pipe
import Tether.Proofs.Chain.Overtaking
import Tether.Proofs.Chain.Ranks
import Tether.Proofs.Chain.Blocks
import Tether.Proofs.Chain.Wired
import Tether.Proofs.Chain.Passage
import Tether.Proofs.Chain.Killing
import Tether.Proofs.Chain.Gate
import Tether.Proofs.Chain.Admitting
import Tether.Proofs.Wire.Encoding
import Tether.Proofs.Wire.Form
import Tether.Proofs.Wire.Reading
import Tether.Proofs.Wire.Typed
import Tether.Proofs.Session.Envelope
import Tether.Proofs.Session.Joined
import Tether.Proofs.Session.Sending
import Tether.Proofs.Session.Numbering
import Tether.Proofs.Session.Routing
import Tether.Proofs.Session.Hearing
import Tether.Proofs.Session.Fairness
import Tether.Proofs.Session.Lasting
import Tether.Proofs.Session.Multiplexing
import Tether.Proofs.Session.Parting
import Tether.Proofs.Session.Precedence
import Tether.Proofs.Session.Ending
import Tether.Proofs.Session.Consent
import Tether.Proofs.Session.Lateness
import Tether.Proofs.Session.Announcing
import Tether.Proofs.Session.Closing
import Tether.Proofs.Wire.Forest
import Tether.Proofs.Wire.Building
import Tether.Proofs.Session.Life
import Tether.Proofs.Session.Living
import Tether.Proofs.Session.Outcome
import Tether.Proofs.Session.Reopening
import Tether.Proofs.Session.Telling
import Tether.Proofs.Session.Posting
import Tether.Proofs.Session.Restriction
import Tether.Proofs.Session.Interference
import Tether.Proofs.Session.Failing
import Tether.Proofs.Desk.Settling
import Tether.Proofs.Desk.Shift
import Tether.Proofs.Stream.Ledger
import Tether.Proofs.Stream.Bookkeeping
import Tether.Proofs.Stream.Refusal
import Tether.Proofs.Stream.Waking
import Tether.Proofs.Stream.Unblocking
import Tether.Proofs.Stream.Lone
import Tether.Proofs.Stream.Intake
import Tether.Proofs.Stream.Mounted
import Tether.Proofs.Stream.Terminal
import Tether.Proofs.Stream.Fitting
import Tether.Proofs.Wire.Skipping
import Tether.Proofs.Wire.Failing
import Tether.Proofs.Chain.Upkeep
import Tether.Proofs.Chain.Crashing
import Tether.Proofs.Chain.Persisting
import Tether.Proofs.Chain.Activities
import Tether.Proofs.Chain.Vigil
import Tether.Proofs.Chain.Orphaning
import Tether.Proofs.Stream.Alone
import Tether.Proofs.Codec.Trade
import Tether.Proofs.Codec.InStep
import Tether.Proofs.Link.Traffic
import Tether.Proofs.Link.Network
import Tether.Proofs.Link.Turns
import Tether.Proofs.Link.Freight
import Tether.Proofs.Link.Gone
import Tether.Proofs.Link.Cutting
import Tether.Proofs.Link.Switches
import Tether.Proofs.Wire.Positional
import Tether.Proofs.Wire.Items
import Tether.Proofs.Chain.Handshake
import Tether.Proofs.Wire.Window
import Tether.Proofs.Wire.Tracking
import Tether.Proofs.Wire.Descent
import Tether.Proofs.Wire.Nesting
import Tether.Proofs.Chain.Naming
