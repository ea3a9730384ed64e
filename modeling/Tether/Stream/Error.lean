import Tether.Chain.Error

/-!
# Errors of streams

A stream ends gracefully, by a fault of the peer, or with the chain it runs on. Two errors concern
one write only and leave the stream usable.
-/

namespace Tether.Stream

/-- Why a call on a stream failed, or why the stream ended. -/
inductive Error where
  /-- The write side was closed, or the stream ended gracefully. -/
  | closed
  /-- Empty chunks are kept for the end marker. -/
  | emptyChunk
  /-- No frame can carry the chunk. -/
  | chunkTooLarge (length max : Nat)
  /-- The peer sent what no correct peer sends. -/
  | protocolViolation (detail : String)
  /-- The chain under the stream ended. -/
  | chain (cause : Chain.Error)
  deriving DecidableEq, Repr

/-- The text of an error. -/
def Error.message : Error → String
  | closed => "Faithful connection closed"
  | emptyChunk => "Empty chunks cannot be written"
  | chunkTooLarge length max => s!"Chunk of {length} bytes exceeds the {max} byte limit"
  | protocolViolation detail => s!"Faithful protocol violation: {detail}"
  | chain cause => s!"Chain error: {cause.message}"

end Tether.Stream
