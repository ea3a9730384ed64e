import Tether.Wire.Error

/-!
# Tags

Each value opens with one byte that says of which kind it is. Scalars have no length; blobs have a
varint length; containers have a four byte length, so that it can be filled in when they are closed.
-/

namespace Tether.Wire

/-- The kinds of values on the wire. -/
inductive Tag where
  | unit
  | boolTrue
  | boolFalse
  | uint
  | optionNone
  | string
  | bytes
  | list
  | optionSome
  | variant
  deriving DecidableEq, Repr

namespace Tag

/-- Every tag, in the order of its byte. -/
def all : List Tag :=
  [unit, boolTrue, boolFalse, uint, optionNone, string, bytes, list, optionSome, variant]

/-- The byte of a tag. -/
def byte : Tag → UInt8
  | unit => 0x01
  | boolTrue => 0x02
  | boolFalse => 0x03
  | uint => 0x04
  | optionNone => 0x05
  | string => 0x10
  | bytes => 0x11
  | list => 0x20
  | optionSome => 0x30
  | variant => 0x33

/-- The tag that a byte stands for. -/
def ofByte? (b : UInt8) : Option Tag :=
  all.find? fun tag => tag.byte == b

/-- Different tags have different bytes. -/
@[simp]
theorem ofByte?_byte (tag : Tag) : ofByte? tag.byte = some tag := by
  cases tag <;> rfl

/-- A byte that stands for a tag is the byte of that tag. -/
theorem byte_of_ofByte? {b : UInt8} {tag : Tag} (h : ofByte? b = some tag) : tag.byte = b := by
  simpa using List.find?_some h

/-- The name of a tag. -/
def name : Tag → String
  | unit => "Unit"
  | boolTrue => "BoolTrue"
  | boolFalse => "BoolFalse"
  | uint => "Uint"
  | optionNone => "OptionNone"
  | string => "String"
  | bytes => "Bytes"
  | list => "List"
  | optionSome => "OptionSome"
  | variant => "Variant"

end Tag

end Tether.Wire
