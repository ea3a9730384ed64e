import Tether.Bytes

/-!
# Errors of the wire format

The causes for which a value cannot be written or read, and the text of each. Scopes are named here
because three of the causes speak of them.
-/

namespace Tether.Wire

/-- What an open container of an encoder is. The root is the top level, which is never closed. -/
inductive Scope where
  | root
  | list
  | option
  | variant
  deriving DecidableEq, Repr

/-- The name a scope has in messages. -/
def Scope.name : Scope → String
  | .root => "Root"
  | .list => "List"
  | .option => "Option"
  | .variant => "Variant"

/-- Why writing or reading a value failed. -/
inductive Error where
  /-- The byte is no tag, or is the tag of another kind of value than was asked for. -/
  | invalidTag (byte : UInt8)
  /-- The bytes of a string are not UTF-8. -/
  | invalidUtf8
  /-- The input ends inside a value. -/
  | unexpectedEnd
  /-- A varint stands for a number of more than 64 bits. -/
  | varintOverflow
  /-- An integer does not fit the width that was asked for. -/
  | integerOverflow (value : UInt64)
  /-- A blob or a container body is longer than its length field can say. -/
  | blobTooLarge (length : Nat)
  /-- A container is closed as another kind than it was opened as. -/
  | scopeMismatch (expected actual : Scope)
  /-- Writing ended with a container open. -/
  | scopeStillOpen
  /-- An option or a variant holds no item, or a second one was begun. -/
  | notExactlyOne (scope : Scope)
  /-- The name of a variant is not one of those known. -/
  | unknownVariant (name : String)
  /-- Bytes are left after a complete value. -/
  | trailingBytes (count : Nat)
  deriving DecidableEq, Repr

/-- The text of an error. -/
def Error.message : Error → String
  | .invalidTag byte => s!"Invalid tag byte: 0x{hexDigits 2 byte.toNat}"
  | .invalidUtf8 => "InvalidUtf8"
  | .unexpectedEnd => "UnexpectedEnd"
  | .varintOverflow => "VarintOverflow"
  | .integerOverflow value => s!"IntegerOverflow({value.toNat})"
  | .blobTooLarge length => s!"BlobTooLarge({length})"
  | .scopeMismatch expected actual =>
    s!"Scope mismatch: expected {expected.name}, found {actual.name}"
  | .scopeStillOpen => "ScopeStillOpen"
  | .notExactlyOne scope => s!"Scope {scope.name} must hold exactly one item"
  | .unknownVariant name => s!"Unknown variant: {name}"
  | .trailingBytes count => s!"{count} trailing bytes after value"

end Tether.Wire
