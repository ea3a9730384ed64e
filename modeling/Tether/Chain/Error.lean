import Tether.Chain.Handshake
import Tether.Config
import Tether.Link.Error

/-!
# Errors of chains

Link failures never show here: they are passing, and a chain outlives them. What ends a chain is a
kill, a refusal by the peer, a remote that is gone, or a dialer that does not come back.
-/

namespace Tether.Chain

/-- Why a chain ended, or could not be made, or why one of its writers is done. -/
inductive Error where
  /-- The chain was killed at this end. -/
  | killed
  /-- The peer refused an attempt for good. -/
  | rejected (answer : Welcome)
  /-- The remote address will never answer again. -/
  | gone (addr : String)
  /-- The dialer of an accepted chain did not come back in time. -/
  | orphaned
  /-- The link of this writer was replaced or has failed. -/
  | superseded
  /-- The peer does not speak the handshake. -/
  | protocol (detail : String)
  /-- The listener was closed. -/
  | closed
  /-- The address could not be listened on. -/
  | link (cause : Link.Error)
  /-- A setting that the transport cannot run with. -/
  | config (cause : InvalidConfig)
  deriving DecidableEq, Repr

/-- The text of an error. -/
def Error.message : Error → String
  | killed => "Chain killed"
  | rejected answer => s!"Chain rejected by peer: {answer.message}"
  | gone addr => s!"Chain remote permanently gone: {addr}"
  | orphaned => "Chain orphaned: dialer did not return"
  | superseded => "Link superseded"
  | protocol detail => s!"Chain protocol violation: {detail}"
  | closed => "Chain listener closed"
  | link cause => s!"Carrier error: {cause.message}"
  | config cause => cause.message

end Tether.Chain
