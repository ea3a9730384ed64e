import Tether.Chain.Opening
import Tether.Session.Outgoing
import Tether.World.Answer

/-!
# Calls and activities

What goes on in a world beside its state: the calls of users, each with how far it has come, and the
activities of the transport, each with the place at which it stands.
-/

namespace Tether.World

/-- A handle on a stream. -/
abbrev StreamId := Nat

/-- A handle on a session. -/
abbrev SessionId := Nat

/-- A handle on a listener. -/
abbrev ListenerId := Nat

/-- A handle on a background call. -/
abbrev JobId := Nat

/-- A call of a user that may have to wait, with how far it has come. -/
inductive Call where
  | acceptLink (socket : Link.SocketId)
  | accept (layer : Layer) (listener : ListenerId)
  | acceptConn (session : SessionId)
  | readLink (link : Link.End)
  | readChain (chain : Chain.ChainId)
  | readStream (stream : StreamId)
  | readValue (stream : StreamId) (ty : Wire.Ty)
  | readConn (session : SessionId) (conn : Session.ConnKey) (ty : Option Wire.Ty)
  | writeStream (stream : StreamId) (chunk : Bytes)
  | writeValue (stream : StreamId) (ty : Wire.Ty) (v : ty.Val)
  | writeConn (session : SessionId) (message : Except Wire.Error Session.Outgoing)
  /-- Writes the numbered chunks from `index` on. -/
  | writeMany (stream : StreamId) (index count : Nat)
  | chainEnd (chain : Chain.ChainId)
  | streamEnd (stream : StreamId) (content : Content)
  | sessionEnd (session : SessionId)
  | join (job : JobId)

/-- An activity. -/
inductive Task where
  /-- The dialer of a chain keeps a link under it. -/
  | dial (d : Chain.Dialing)
  /-- A stitched link is read. -/
  | pump (chain : Chain.ChainId) (link : Chain.LinkId)
  /-- A listener takes links from its socket. -/
  | listen (listener : ListenerId)
  /-- A listener admits a link. -/
  | greet (a : Chain.Admission)
  /-- An accepted chain is watched until it dies. -/
  | watch (listener : ListenerId) (chain : Chain.ChainId) (w : Chain.Watch)
  /-- A stream takes deliveries. -/
  | receive (stream : StreamId)
  /-- A stream sends frames. -/
  | send (stream : StreamId)
  /-- A stream ends at a moment, if it has not by then. -/
  | linger (stream : StreamId) (deadline : Nat)
  /-- A session reads envelopes. -/
  | dispatch (session : SessionId)
  /-- A session tells its peer of an abort. -/
  | tell (session : SessionId) (o : Session.Outgoing)
  /-- A session lets go of its stream once nobody uses it. -/
  | release (session : SessionId)
  /-- A user's call runs in the background. -/
  | call (job : JobId) (c : Call)

/-- The moment for which an activity waits, if it waits for one. -/
def Task.deadline? : Task → Option Nat
  | dial d =>
    match d.stage with
    | .pausing deadline | .greeting _ deadline => some deadline
    | .dialing | .stitching _ | .linked _ => none
  | greet a =>
    match a.stage with
    | .hearing deadline => some deadline
    | .answering _ | .stitching _ _ _ => none
  | watch _ _ (.waiting _ deadline) => some deadline
  | linger _ deadline => some deadline
  | _ => none

end Tether.World
