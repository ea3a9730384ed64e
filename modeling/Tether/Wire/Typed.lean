import Tether.Wire.Decoder
import Tether.Wire.Encoder

/-!
# Typed values

The types of values that applications exchange, as a universe: a code for each type, the Lean type
it stands for, and how a value of it is packed and unpacked. Packing a value and unpacking the bytes
as the same type gives the value back; unpacking as another type reports the tag that does not fit.
-/

namespace Tether.Wire

/-- The codes of the types that can be packed. -/
inductive Ty where
  | unit
  | bool
  | u64
  | u32
  | string
  | bytes
  | option (content : Ty)
  deriving DecidableEq, Repr

namespace Ty

/-- The values of a type. -/
abbrev Val : Ty → Type
  | unit => Unit
  | bool => Bool
  | u64 => UInt64
  | u32 => UInt32
  | string => String
  | bytes => Bytes
  | option content => Option content.Val

/-- Writes a value. -/
def pack : (ty : Ty) → ty.Val → Encode Unit
  | unit, _ => Encode.unit
  | bool, b => Encode.bool b
  | u64, n => Encode.uint n
  | u32, n => Encode.uint n.toUInt64
  | string, text => Encode.str text
  | bytes, data => Encode.bytes data
  | option _, none => Encode.optionNone
  | option content, some v => do
    Encode.someBegin
    content.pack v
    Encode.someEnd

/-- Narrows a number to 32 bits, refusing what does not fit. -/
def narrow (n : UInt64) : Decode UInt32 :=
  if n.toNat < UInt32.size then pure n.toUInt32 else throw (.integerOverflow n)

/-- Reads a value. The content of an option must fill the option. -/
def unpack : (ty : Ty) → Decode ty.Val
  | unit => Decode.unit
  | bool => Decode.bool
  | u64 => Decode.uint
  | u32 => do
    let n ← Decode.uint
    narrow n
  | string => Decode.str
  | bytes => Decode.bytes
  | option content => do
    match ← Decode.option with
    | none => return none
    | some body => do
      let v ← Decode.within body content.unpack
      return some v

end Ty

/-- The bytes of one value. -/
def packed (ty : Ty) (v : ty.Val) : Except Error Bytes :=
  Encode.run (ty.pack v)

/-- The one value that the bytes hold, all of them used. -/
def unpacked (ty : Ty) (bytes : Bytes) : Except Error ty.Val :=
  Decode.whole ty.unpack bytes

end Tether.Wire
