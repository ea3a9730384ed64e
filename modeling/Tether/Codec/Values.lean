import Tether.Codec.Error
import Tether.Stream.Endpoint
import Tether.Wire.Typed

/-!
# Values on streams

A stream of values carries one packed value per chunk. A packed value is never empty, so it cannot
be taken for the end marker. A chunk that does not unpack as the value asked for is used up all the
same, and the chunks behind it are not affected.
-/

namespace Tether.Codec

/-- Unpacks what a read of a stream gave. -/
def ofRead {α : Type} (unpack : Bytes → Except Wire.Error α) :
    Except Stream.Error (Option Bytes) → Except Error (Option α)
  | .ok (some chunk) =>
    match unpack chunk with
    | .ok a => .ok (some a)
    | .error e => .error (.pack e)
  | .ok none => .ok none
  | .error e => .error (.stream e)

/-- Reads the next value, or `none` once the peer has closed. No answer means that the reader has to
wait. -/
def read? (s : Stream.Endpoint) (ty : Wire.Ty) :
    Option (Stream.Endpoint × Except Error (Option ty.Val)) :=
  s.read?.map fun (s, r) => (s, ofRead (Wire.unpacked ty) r)

/-- Writes a value. A value that cannot be packed is not written at all. No answer means that the
write has to wait for room. -/
def write? (s : Stream.Endpoint) (ty : Wire.Ty) (v : ty.Val) :
    Option (Stream.Endpoint × Except Error Unit) :=
  match Wire.packed ty v with
  | .error e => some (s, .error (.pack e))
  | .ok chunk => (s.write? chunk).map fun (s, r) => (s, r.mapError .stream)

end Tether.Codec
