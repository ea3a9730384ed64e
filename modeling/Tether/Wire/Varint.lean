import Tether.Wire.Error

/-!
# Varints

An unsigned number in base 128, least significant digit first: seven bits to a byte, the high bit
set on every byte but the last. The writer gives the shortest form; the reader takes any form of at
most ten bytes whose number fits 64 bits.
-/

namespace Tether.Wire.Varint

/-- The longest varint of a 64 bit number. -/
def maxLength : Nat := 10

/-- The shortest varint of `n`. -/
def encode (n : Nat) : Bytes :=
  if n < 128 then [UInt8.ofNat n]
  else UInt8.ofNat (n % 128 + 128) :: encode (n / 128)
termination_by n

/-- Reads the digits from place `index` on, giving their number and how many there are.

The tenth digit has the weight `2 ^ 63`, so it may be 0 or 1 and must be the last. -/
def decodeFrom (index : Nat) : Bytes → Except Error (Nat × Nat)
  | [] => .error .unexpectedEnd
  | b :: rest =>
    if index + 1 = maxLength ∧ 1 < b then .error .varintOverflow
    else if b < 128 then .ok (b.toNat, 1)
    else
      match decodeFrom (index + 1) rest with
      | .ok (high, used) => .ok (b.toNat % 128 + 128 * high, used + 1)
      | .error e => .error e

/-- Reads one varint from the front of `bytes`: its number and its length. -/
def decode (bytes : Bytes) : Except Error (Nat × Nat) :=
  decodeFrom 0 bytes

end Tether.Wire.Varint
