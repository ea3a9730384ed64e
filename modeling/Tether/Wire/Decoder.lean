import Tether.Wire.Tag
import Tether.Wire.Varint

/-!
# Reading values

A read works on a view, the bytes not yet consumed, and leaves a shorter one. Reading a container
gives the view of its body, so a value nested in it cannot reach beyond it. A read that fails has
consumed what it had understood by then: a wrong tag consumes nothing, a blob or container that
breaks off has consumed its tag and its length.
-/

namespace Tether.Wire

/-- A read of one part of a view. What is left is known also after a failure. -/
abbrev Decode := EStateM Error Bytes

namespace Decode

/-- Fails unless the view is used up. -/
def finish : Decode Unit := fun view =>
  match view.length with
  | 0 => .ok () view
  | n => .error (.trailingBytes n) view

/-- The tag of the next value. Consumes nothing. -/
def peekTag : Decode Tag := fun view =>
  match view with
  | [] => .error .unexpectedEnd view
  | b :: _ =>
    match Tag.ofByte? b with
    | some tag => .ok tag view
    | none => .error (.invalidTag b) view

/-- The next `n` bytes, all or none. -/
def take (n : Nat) : Decode Bytes := fun view =>
  if n ≤ view.length then .ok (view.take n) (view.drop n)
  else .error .unexpectedEnd view

/-- The next varint. -/
def varint : Decode Nat := fun view =>
  match Varint.decode view with
  | .ok (n, used) => .ok n (view.drop used)
  | .error e => .error e view

/-- Consumes the next byte. -/
def skipByte : Decode Unit := fun view =>
  .ok () (view.drop 1)

/-- Consumes the given tag. Another tag is reported and left in place. -/
def expectTag (expected : Tag) : Decode Unit := do
  let tag ← peekTag
  if tag = expected then skipByte else throw (.invalidTag tag.byte)

/-- The data of a blob. -/
def blob (tag : Tag) : Decode Bytes := do
  expectTag tag
  let length ← varint
  take length

/-- The body of a container. -/
def container (tag : Tag) : Decode Bytes := do
  expectTag tag
  let length ← take 4
  take (Bytes.toLength length)

/-- Steps over the next value, whatever it is. The inside of a blob or container is not looked at.
-/
def skip : Decode Unit := do
  match ← peekTag with
  | .unit | .boolTrue | .boolFalse | .optionNone => skipByte
  | .uint => do
    skipByte
    let _ ← varint
  | .string => do
    let _ ← blob .string
  | .bytes => do
    let _ ← blob .bytes
  | .list => do
    let _ ← container .list
  | .optionSome => do
    let _ ← container .optionSome
  | .variant => do
    let _ ← container .variant

/-- Reads the empty value. -/
def unit : Decode Unit :=
  expectTag .unit

/-- Reads a truth value. -/
def bool : Decode Bool := do
  match ← peekTag with
  | .boolTrue => do
    skipByte
    return true
  | .boolFalse => do
    skipByte
    return false
  | tag => throw (.invalidTag tag.byte)

/-- Reads a number. -/
def uint : Decode UInt64 := do
  expectTag .uint
  let n ← varint
  return UInt64.ofNat n

/-- The text of a string's data. -/
def text (data : Bytes) : Decode String :=
  match Bytes.toText? data with
  | some text => pure text
  | none => throw .invalidUtf8

/-- Reads a text. -/
def str : Decode String := do
  let data ← blob .string
  text data

/-- Reads a byte string. -/
def bytes : Decode Bytes :=
  blob .bytes

/-- Reads an option; a present one gives the view of its content. -/
def option : Decode (Option Bytes) := do
  match ← peekTag with
  | .optionNone => do
    skipByte
    return none
  | .optionSome => do
    let body ← container .optionSome
    return some body
  | tag => throw (.invalidTag tag.byte)

/-- Reads a list, giving the view of its items. -/
def list : Decode Bytes :=
  container .list

/-- The name at the front of a variant's body, and the view of what follows it. -/
def named (body : Bytes) : Decode (String × Bytes) :=
  match str body with
  | .ok name rest => pure (name, rest)
  | .error e _ => throw e

/-- Reads a variant: its name and the view of its content. -/
def variant : Decode (String × Bytes) := do
  let body ← container .variant
  named body

/-- The view of the next item of a list body, or `none` at its end. An item that breaks off is
reported and nothing of the list is consumed. -/
def nextItem : Decode (Option Bytes) := fun items =>
  match items with
  | [] => .ok none items
  | _ :: _ =>
    match skip items with
    | .ok _ rest =>
      let length := items.length - rest.length
      .ok (some (items.take length)) (items.drop length)
    | .error e _ => .error e items

/-- Reads a whole view as one value: nothing may be left behind it. -/
def whole {α : Type} (read : Decode α) (view : Bytes) : Except Error α :=
  match read view with
  | .error e _ => .error e
  | .ok a rest =>
    match finish rest with
    | .ok _ _ => .ok a
    | .error e _ => .error e

/-- Reads an inner view as one value, as a step of an outer read. The outer view stays as it is. -/
def within {α : Type} (inner : Bytes) (read : Decode α) : Decode α :=
  match whole read inner with
  | .ok a => pure a
  | .error e => throw e

end Decode

end Tether.Wire
