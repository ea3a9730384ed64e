import Tether.Codec.Error

/-!
# Errors of sessions

A multiplexed connection ends by a local close, by an abort of the peer, or with its session. An
abort carries a reason, which is also what is sent to the peer.
-/

namespace Tether.Session

/-- Why an end of a connection gave it up. -/
inductive Reason where
  /-- The owner closed it. The other end sees the end of its stream. -/
  | closed
  /-- The end does not know the connection any more. -/
  | gone
  /-- The end takes no new connections. -/
  | off
  /-- The end saw what no correct peer sends. -/
  | protocol (detail : String)
  deriving DecidableEq, Repr

/-- The text of a reason. -/
def Reason.message : Reason → String
  | closed => "closed"
  | gone => "gone"
  | off => "not accepting connections"
  | protocol detail => s!"protocol violation: {detail}"

/-- Why a call on a connection or a session failed. -/
inductive Error where
  /-- The connection was closed at this end. -/
  | closed
  /-- The peer aborted the connection. -/
  | aborted (reason : Reason)
  /-- The session ended. -/
  | session (cause : Codec.Error)
  /-- A value could not be packed or unpacked, or is too large to carry. -/
  | value (cause : Codec.Error)
  deriving DecidableEq, Repr

/-- The text of an error. -/
def Error.message : Error → String
  | closed => "Blend connection closed"
  | aborted reason => s!"Blend connection aborted by peer: {reason.message}"
  | session cause => s!"Blend session ended: {cause.message}"
  | value cause => s!"Blend value error: {cause.message}"

end Tether.Session
