import Tether.Stream.Error
import Tether.Wire.Varint

/-!
# Frames

What the two ends of a stream say to each other, one frame to a chunk of the chain: numbered data,
and two counts of the data received. The kind is one byte, the number a varint, the payload the
rest.
-/

namespace Tether.Stream

/-- A message between the two ends of a stream. -/
inductive Frame where
  /-- Data. An empty payload is the end marker. -/
  | chunk (seq : Nat) (payload : Bytes)
  /-- The receiver holds every chunk below `count` and asks for the rest from there on. -/
  | sync (count : Nat)
  /-- The receiver holds every chunk below `count`. -/
  | ack (count : Nat)
  deriving DecidableEq, Repr

namespace Frame

/-- The longest header of a data frame: its kind and the longest number. -/
def maxHeaderLength : Nat := 1 + Wire.Varint.maxLength

/-- The bytes of a frame. -/
def encode : Frame → Bytes
  | chunk seq payload => 0 :: Wire.Varint.encode seq ++ payload
  | sync count => 1 :: Wire.Varint.encode count
  | ack count => 2 :: Wire.Varint.encode count

/-- The frame of a kind with the number and the bytes behind it. -/
def ofParts (kind : UInt8) (n : Nat) (rest : Bytes) : Except Error Frame :=
  if kind = 0 then .ok (chunk n rest)
  else if kind = 1 ∨ kind = 2 then
    if rest ≠ [] then
      .error (.protocolViolation s!"{rest.length} trailing bytes after control frame")
    else if kind = 1 then .ok (sync n)
    else .ok (ack n)
  else .error (.protocolViolation s!"unknown frame kind {kind.toNat}")

/-- Reads a frame from all of a chunk's bytes. -/
def decode : Bytes → Except Error Frame
  | [] => .error (.protocolViolation "empty frame")
  | kind :: rest =>
    match Wire.Varint.decode rest with
    | .error e => .error (.protocolViolation s!"bad frame header: {e.message}")
    | .ok (n, used) => ofParts kind n (rest.drop used)

end Frame

end Tether.Stream
