import Tether.Wire.Tag
import Tether.Wire.Varint

/-!
# Writing values

An encoder is a stack of open containers, each with the bytes of the items written into it so far.
Closing a container puts its tag, its length and its body behind the items of the container around
it. Options and variants must hold exactly one item; a variant's name is not counted as one.

A call that fails reports its cause and leaves the encoder in the state that the call had reached.
-/

namespace Tether.Wire

/-- One open container: its kind, how many items it holds, and their bytes. -/
structure OpenScope where
  scope : Scope
  count : Nat
  body : Bytes
  deriving DecidableEq, Repr

/-- A writer of values: the innermost open container and those around it, innermost first. The
last of them is the root. -/
structure Encoder where
  top : OpenScope
  outer : List OpenScope
  deriving DecidableEq, Repr

/-- One call on an encoder. It has an effect on the encoder even when it fails. -/
abbrev Encode := EStateM Error Encoder

namespace Encoder

/-- Nothing written, nothing open. -/
def empty : Encoder :=
  ⟨⟨.root, 0, []⟩, []⟩

/-- The bytes written, if every container was closed. -/
def finish (enc : Encoder) : Except Error Bytes :=
  match enc.outer with
  | [] => .ok enc.top.body
  | _ :: _ => .error .scopeStillOpen

end Encoder

/-- The tag of the container that a scope is written as. -/
def Scope.tag? : Scope → Option Tag
  | .root => none
  | .list => some .list
  | .option => some .optionSome
  | .variant => some .variant

/-- Whether a scope takes exactly one item. -/
def Scope.single : Scope → Bool
  | .option | .variant => true
  | .root | .list => false

namespace Encode

/-- Counts one more item in the innermost container, which must have room for it. -/
def beginItem : Encode Unit := fun enc =>
  if enc.top.scope.single && 1 ≤ enc.top.count then
    .error (.notExactlyOne enc.top.scope) enc
  else
    .ok () { enc with top := { enc.top with count := enc.top.count + 1 } }

/-- Puts bytes behind the items of the innermost container. -/
def append (bytes : Bytes) : Encode Unit := fun enc =>
  .ok () { enc with top := { enc.top with body := enc.top.body ++ bytes } }

/-- Opens a container as an item of the innermost one. -/
def beginScope (scope : Scope) : Encode Unit := do
  beginItem
  fun enc => .ok () ⟨⟨scope, 0, []⟩, enc.top :: enc.outer⟩

/-- Closes the innermost container, which must be of the given kind.

A body too long for its length field is reported when the container is already closed; its length
field then stays zero. -/
def endScope (scope : Scope) (tag : Tag) : Encode Unit := fun enc =>
  if enc.top.scope ≠ scope then
    .error (.scopeMismatch scope enc.top.scope) enc
  else if scope.single && enc.top.count ≠ 1 then
    .error (.notExactlyOne scope) enc
  else
    match enc.outer with
    | [] => .error (.scopeMismatch scope enc.top.scope) enc
    | around :: outer =>
      let body := enc.top.body
      let closed (length : Nat) : Encoder :=
        ⟨{ around with body := around.body ++ (tag.byte :: Bytes.ofLength length ++ body) }, outer⟩
      if body.length ≤ Bytes.maxLength then .ok () (closed body.length)
      else .error (.blobTooLarge body.length) (closed 0)

/-- Writes bytes with their length in front. -/
def blob (tag : Tag) (data : Bytes) : Encode Unit := do
  if Bytes.maxLength < data.length then
    throw (.blobTooLarge data.length)
  beginItem
  append (tag.byte :: Varint.encode data.length ++ data)

/-- Writes the empty value. -/
def unit : Encode Unit := do
  beginItem
  append [Tag.unit.byte]

/-- Writes a truth value. -/
def bool (b : Bool) : Encode Unit := do
  beginItem
  append [if b then Tag.boolTrue.byte else Tag.boolFalse.byte]

/-- Writes a number. -/
def uint (n : UInt64) : Encode Unit := do
  beginItem
  append (Tag.uint.byte :: Varint.encode n.toNat)

/-- Writes a text. -/
def str (text : String) : Encode Unit :=
  blob .string (Bytes.ofText text)

/-- Writes a byte string. -/
def bytes (data : Bytes) : Encode Unit :=
  blob .bytes data

/-- Writes the absent option. -/
def optionNone : Encode Unit := do
  beginItem
  append [Tag.optionNone.byte]

/-- Opens a present option, whose one item follows. -/
def someBegin : Encode Unit :=
  beginScope .option

/-- Closes a present option. -/
def someEnd : Encode Unit :=
  endScope .option .optionSome

/-- Opens a list. -/
def listBegin : Encode Unit :=
  beginScope .list

/-- Closes a list. -/
def listEnd : Encode Unit :=
  endScope .list .list

/-- Opens a variant and writes its name. The one item that follows is counted from zero. -/
def variantBegin (name : String) : Encode Unit := do
  beginScope .variant
  str name
  fun enc => .ok () { enc with top := { enc.top with count := 0 } }

/-- Closes a variant. -/
def variantEnd : Encode Unit :=
  endScope .variant .variant

/-- The bytes that the calls write on a new encoder. -/
def run (calls : Encode Unit) : Except Error Bytes :=
  match calls Encoder.empty with
  | .ok _ enc => enc.finish
  | .error e _ => .error e

end Encode

end Tether.Wire
