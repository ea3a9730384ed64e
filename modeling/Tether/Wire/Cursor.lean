import Tether.Wire.Decoder

/-!
# Cursors

Reading nested values by hand: a stack of cursors, each a view of one value sequence or of the items
of one list. A read goes to the top cursor; reading a container puts a cursor for its inside on top.
-/

namespace Tether.Wire

/-- A place in the input. -/
inductive Cursor where
  | values (view : Bytes)
  | items (view : Bytes)
  deriving DecidableEq, Repr

namespace Cursor

/-- One call on a stack of cursors. -/
inductive Call where
  | peek
  | skip
  | unit
  | bool
  | uint
  | str
  | bytes
  | option
  | list
  | variant
  | finish
  /-- Puts a copy of the top cursor on the stack. -/
  | dup
  /-- Goes to the next item of a list. -/
  | next
  /-- Takes the top cursor from the stack. -/
  | pop
  deriving DecidableEq, Repr

/-- What a call answers. -/
inductive Answer where
  | done
  | tag (tag : Tag)
  | bool (b : Bool)
  | uint (n : UInt64)
  | str (text : String)
  | bytes (data : Bytes)
  | absent
  /-- A present option, with the length of its content. -/
  | some (length : Nat)
  /-- A variant, with its name and the length of its content. -/
  | variant (name : String) (length : Nat)
  /-- An item of a list, with its length. -/
  | item (length : Nat)
  | failed (e : Error)
  /-- The call does not go with the top cursor. -/
  | wrongCursor
  deriving DecidableEq, Repr

/-- An answer with the length of the view that the call was made on, where it has one. -/
structure Reply where
  answer : Answer
  left : Option Nat
  deriving DecidableEq, Repr

/-- What a read gives: its answer and the cursors it puts on the stack. -/
abbrev Step := Answer × List Cursor

/-- The read that a call makes on a view of values, if it makes one. -/
def onValues : Call → Option (Decode Step)
  | .peek => Option.some do
    let tag ← Decode.peekTag
    return (.tag tag, [])
  | .skip => Option.some do
    Decode.skip
    return (.done, [])
  | .unit => Option.some do
    Decode.unit
    return (.done, [])
  | .bool => Option.some do
    let b ← Decode.bool
    return (.bool b, [])
  | .uint => Option.some do
    let n ← Decode.uint
    return (.uint n, [])
  | .str => Option.some do
    let text ← Decode.str
    return (.str text, [])
  | .bytes => Option.some do
    let data ← Decode.bytes
    return (.bytes data, [])
  | .option => Option.some do
    match ← Decode.option with
    | none => return (.absent, [])
    | Option.some body => return (.some body.length, [values body])
  | .list => Option.some do
    let body ← Decode.list
    return (.done, [items body])
  | .variant => Option.some do
    let (name, body) ← Decode.variant
    return (.variant name body.length, [values body])
  | .finish => Option.some do
    Decode.finish
    return (.done, [])
  | .dup => Option.some fun view => .ok (.done, [values view]) view
  | .next | .pop => none

/-- The step to the next item of a list. -/
def onItems : Decode Step := do
  match ← Decode.nextItem with
  | none => return (.absent, [])
  | some item => return (.item item.length, [values item])

/-- The answer of a read, the cursors it adds, and the view it leaves. -/
def outcome (read : Decode Step) (view : Bytes) : Step × Bytes :=
  match read view with
  | .ok step view => (step, view)
  | .error e view => ((.failed e, []), view)

/-- Makes one call on a stack, whose top comes first. -/
def call (stack : List Cursor) (c : Call) : List Cursor × Reply :=
  match c, stack with
  | .pop, _ :: rest => (rest, ⟨.done, none⟩)
  | .next, items view :: rest =>
    let ((answer, added), view) := outcome onItems view
    (added ++ items view :: rest, ⟨answer, none⟩)
  | c, values view :: rest =>
    match onValues c with
    | some read =>
      let ((answer, added), view) := outcome read view
      (added ++ values view :: rest, ⟨answer, some view.length⟩)
    | none => (stack, ⟨.wrongCursor, none⟩)
  | _, stack => (stack, ⟨.wrongCursor, none⟩)

/-- Makes calls in turn. -/
def run (stack : List Cursor) : List Call → List Reply
  | [] => []
  | c :: rest =>
    let (stack, reply) := call stack c
    reply :: run stack rest

end Cursor

end Tether.Wire
