import Tether.Stream.Error
import Tether.Wire.Error

/-!
# Errors of value streams

An exchange of values fails with its stream, or because a value and a chunk do not fit each other.
-/

namespace Tether.Codec

/-- Why a value could not be exchanged. -/
inductive Error where
  /-- The stream failed. -/
  | stream (cause : Stream.Error)
  /-- A value cannot be packed, or a chunk does not unpack. -/
  | pack (cause : Wire.Error)
  deriving DecidableEq, Repr

/-- The text of an error. -/
def Error.message : Error → String
  | stream cause => s!"Faithful error: {cause.message}"
  | pack cause => s!"Codec error: {cause.message}"

end Tether.Codec
