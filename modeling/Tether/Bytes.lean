/-!
# Byte strings and fixed-width lengths

Every message of the transport is a list of bytes. This module fixes that carrier, the four byte
little-endian length field that opens a container, and the hexadecimal digits that identifiers and
tags are written with.
-/

namespace Tether

/-- A byte string. Lists are used so that codecs can be reasoned about by induction. -/
abbrev Bytes := List UInt8

namespace Bytes

/-- The longest body that a four byte length field can describe. -/
def maxLength : Nat := 4294967295

/-- The four little-endian bytes of a length. -/
def ofLength (n : Nat) : Bytes :=
  [UInt8.ofNat n, UInt8.ofNat (n / 256), UInt8.ofNat (n / 65536), UInt8.ofNat (n / 16777216)]

/-- The number that little-endian bytes stand for. -/
def toLength : Bytes → Nat
  | [] => 0
  | b :: rest => b.toNat + 256 * toLength rest

@[simp]
theorem length_ofLength (n : Nat) : (ofLength n).length = 4 :=
  rfl

/-- A length that fits its field is read back from it. -/
theorem toLength_ofLength {n : Nat} (h : n ≤ maxLength) : toLength (ofLength n) = n := by
  unfold maxLength at h
  simp only [ofLength, toLength, UInt8.toNat_ofNat']
  omega

/-- The UTF-8 bytes of a text. -/
def ofText (text : String) : Bytes :=
  text.toUTF8.data.toList

theorem length_ofText (text : String) : (ofText text).length = text.utf8ByteSize :=
  rfl

/-- The text that the bytes encode, if they are valid UTF-8. -/
def toText? (bytes : Bytes) : Option String :=
  String.fromUTF8? ⟨bytes.toArray⟩

end Bytes

/-- Lower-case hexadecimal digits of `n`, padded with zeros to at least `width` digits. -/
def hexDigits (width n : Nat) : String :=
  let digits := Nat.toDigits 16 n
  String.ofList (List.replicate (width - digits.length) '0' ++ digits)

end Tether
