import Tether.Wire.Cursor

/-!
# Reading in place

The reads take their views as byte strings. Here the input stands still and a view is a window of it,
two places between which it may be read. The reads are said again over windows, cut by cut. A cut looks
whether its window holds the bytes that it takes; one that does not ends the read as `beyond`, which is
no error of the format but what a slice out of bounds would be. So it can be said of these reads where
in the input they are, and whether each of their bounds was in range.
-/

namespace Tether.Wire

/-- A part of the input, from one place up to another. -/
structure Window (input : Bytes) where
  start : Nat
  stop : Nat
  ordered : start ≤ stop
  inside : stop ≤ input.length
  deriving DecidableEq, Repr

namespace Window

variable {input : Bytes}

/-- The whole input. -/
def all (input : Bytes) : Window input :=
  ⟨0, input.length, Nat.zero_le _, Nat.le_refl _⟩

def length (w : Window input) : Nat :=
  w.stop - w.start

/-- The bytes of a window. -/
def view (w : Window input) : Bytes :=
  (input.drop w.start).take w.length

@[simp]
theorem view_all (input : Bytes) : (all input).view = input :=
  List.take_length

@[simp]
theorem length_view (w : Window input) : w.view.length = w.length := by
  have := w.ordered
  have := w.inside
  simp only [view, length, List.length_take, List.length_drop]
  omega

/-- The first bytes of a window, which it must have. -/
def front (w : Window input) (n : Nat) (room : w.start + n ≤ w.stop) : Window input :=
  ⟨w.start, w.start + n, Nat.le_add_right _ _, Nat.le_trans room w.inside⟩

/-- What follows them. -/
def back (w : Window input) (n : Nat) (room : w.start + n ≤ w.stop) : Window input :=
  ⟨w.start + n, w.stop, room, w.inside⟩

theorem view_front (w : Window input) {n : Nat} (room : w.start + n ≤ w.stop) :
    (w.front n room).view = w.view.take n := by
  have fewer : n ≤ w.stop - w.start := by omega
  simp only [front, view, length, List.take_take, Nat.add_sub_cancel_left, Nat.min_eq_left fewer]

theorem view_back (w : Window input) {n : Nat} (room : w.start + n ≤ w.stop) :
    (w.back n room).view = w.view.drop n := by
  simp only [back, view, length, List.drop_take, List.drop_drop, Nat.sub_add_eq]

end Window

/-- Why a read over a window ends without a result. -/
inductive Stop where
  | failed (e : Error)
  /-- Bytes were to be taken that the window does not have. -/
  | beyond
  deriving DecidableEq, Repr

/-- A read of one part of a window. What is left is known also after a failure. -/
abbrev Scan (input : Bytes) := EStateM Stop (Window input)

namespace Scan

variable {input : Bytes} {α : Type}

/-- Cuts the window behind its first `n` bytes and goes on behind the cut. -/
def split (n : Nat) : Scan input (Window input) := fun w =>
  if room : w.start + n ≤ w.stop then .ok (w.front n room) (w.back n room)
  else .error .beyond w

/-- Takes bytes and forgets them. -/
def pass (n : Nat) : Scan input Unit := do
  let _ ← split n

/-- A look at the window that takes nothing. -/
def look (read : Decode α) : Scan input α := fun w =>
  match read w.view with
  | .ok a _ => .ok a w
  | .error e _ => .error (.failed e) w

def take (n : Nat) : Scan input (Window input) := fun w =>
  if w.length < n then .error (.failed .unexpectedEnd) w else split n w

def varint : Scan input Nat := fun w =>
  match Varint.decode w.view with
  | .ok (n, used) => (do pass used; return n : Scan input Nat) w
  | .error e => .error (.failed e) w

/-- The length in front of a container's body. Its four bytes are taken one by one. -/
def lengthField : Scan input Nat := do
  let field ← take 4
  match field.view with
  | a :: b :: c :: d :: _ => return Bytes.toLength [a, b, c, d]
  | _ => throw .beyond

def expectTag (expected : Tag) : Scan input Unit := do
  let tag ← look Decode.peekTag
  if tag = expected then pass 1 else throw (.failed (.invalidTag tag.byte))

def blob (tag : Tag) : Scan input (Window input) := do
  expectTag tag
  let length ← varint
  take length

def container (tag : Tag) : Scan input (Window input) := do
  expectTag tag
  let length ← lengthField
  take length

def skip : Scan input Unit := do
  match ← look Decode.peekTag with
  | .unit | .boolTrue | .boolFalse | .optionNone => pass 1
  | .uint => do
    pass 1
    let _ ← varint
  | .string => do
    let _ ← blob .string
  | .bytes => do
    let _ ← blob .bytes
  | .list => do
    let _ ← container .list
  | .optionSome => do
    let _ ← container .optionSome
  | .variant => do
    let _ ← container .variant

def unit : Scan input Unit :=
  expectTag .unit

def bool : Scan input Bool := do
  match ← look Decode.peekTag with
  | .boolTrue => do
    pass 1
    return true
  | .boolFalse => do
    pass 1
    return false
  | tag => throw (.failed (.invalidTag tag.byte))

def uint : Scan input UInt64 := do
  expectTag .uint
  let n ← varint
  return UInt64.ofNat n

def str : Scan input String := do
  let data ← blob .string
  look (Decode.text data.view)

def bytes : Scan input (Window input) :=
  blob .bytes

def option : Scan input (Option (Window input)) := do
  match ← look Decode.peekTag with
  | .optionNone => do
    pass 1
    return none
  | .optionSome => do
    let body ← container .optionSome
    return some body
  | tag => throw (.failed (.invalidTag tag.byte))

def list : Scan input (Window input) :=
  container .list

/-- A read of an inner window, with what it leaves there. The outer window stays as it is. -/
def within (inner : Window input) (read : Scan input α) : Scan input (α × Window input) := fun w =>
  match read inner with
  | .ok a rest => .ok (a, rest) w
  | .error e _ => .error e w

def variant : Scan input (String × Window input) := do
  let body ← container .variant
  within body str

/-- The item's length is what a step over it takes from a copy of the window. -/
def nextItem : Scan input (Option (Window input)) := fun w =>
  if w.length = 0 then .ok none w
  else
    match skip w with
    | .error e _ => .error e w
    | .ok _ probe =>
      if probe.length ≤ w.length then
        (do return some (← take (w.length - probe.length)) : Scan input (Option (Window input))) w
      else .error .beyond w

end Scan

/-- A cursor in place. -/
inductive Place (input : Bytes) where
  | values (w : Window input)
  | items (w : Window input)
  deriving DecidableEq, Repr

namespace Place

open Scan (look)

variable {input : Bytes}

def window : Place input → Window input
  | values w | items w => w

/-- The cursor whose view is the bytes of the place. -/
def cursor : Place input → Cursor
  | values w => .values w.view
  | items w => .items w.view

/-- What a read gives: its answer and the places that it adds. -/
abbrev Step (input : Bytes) := Cursor.Answer × List (Place input)

def onValues : Cursor.Call → Option (Scan input (Step input))
  | .peek => some do
    let tag ← look Decode.peekTag
    return (.tag tag, [])
  | .skip => some do
    Scan.skip
    return (.done, [])
  | .unit => some do
    Scan.unit
    return (.done, [])
  | .bool => some do
    let b ← Scan.bool
    return (.bool b, [])
  | .uint => some do
    let n ← Scan.uint
    return (.uint n, [])
  | .str => some do
    let text ← Scan.str
    return (.str text, [])
  | .bytes => some do
    let data ← Scan.bytes
    return (.bytes data.view, [])
  | .option => some do
    match ← Scan.option with
    | none => return (.absent, [])
    | some body => return (.some body.length, [values body])
  | .list => some do
    let body ← Scan.list
    return (.done, [items body])
  | .variant => some do
    let (name, body) ← Scan.variant
    return (.variant name body.length, [values body])
  | .finish => some do
    look Decode.finish
    return (.done, [])
  | .dup => some fun w => .ok (.done, [values w]) w
  | .next | .pop => none

def onItems : Scan input (Step input) := do
  match ← Scan.nextItem with
  | none => return (.absent, [])
  | some item => return (.item item.length, [values item])

/-- What a read gives and leaves, unless it went beyond its window. -/
def outcome (read : Scan input (Step input)) (w : Window input) :
    Option (Step input × Window input) :=
  match read w with
  | .ok step w => some (step, w)
  | .error (.failed e) w => some ((.failed e, []), w)
  | .error .beyond _ => none

/-- One call on a stack of places, whose top comes first. -/
def call (held : List (Place input)) (c : Cursor.Call) :
    Option (List (Place input) × Cursor.Reply) :=
  match c, held with
  | .pop, _ :: rest => some (rest, ⟨.done, none⟩)
  | .next, items w :: rest => do
    let ((answer, added), w) ← outcome onItems w
    return (added ++ items w :: rest, ⟨answer, none⟩)
  | c, values w :: rest =>
    match onValues c with
    | some read => do
      let ((answer, added), w) ← outcome read w
      return (added ++ values w :: rest, ⟨answer, some w.length⟩)
    | none => some (held, ⟨.wrongCursor, none⟩)
  | _, held => some (held, ⟨.wrongCursor, none⟩)

/-- A call on any of the places held, not only on the top. -/
def callAt (held : List (Place input)) (i : Nat) (c : Cursor.Call) :
    Option (List (Place input) × Cursor.Reply) := do
  let (rest, reply) ← call (held.drop i) c
  return (held.take i ++ rest, reply)

/-- Calls in turn, each on a place of its choice; `none` if one of them goes beyond its window. -/
def run (held : List (Place input)) :
    List (Nat × Cursor.Call) → Option (List (Place input) × List Cursor.Reply)
  | [] => some (held, [])
  | (i, c) :: calls => do
    let (held, reply) ← callAt held i c
    let (held, replies) ← run held calls
    return (held, reply :: replies)

end Place

namespace Cursor

/-- A call on any of the cursors held, not only on the top. -/
def callAt (held : List Cursor) (i : Nat) (c : Call) : List Cursor × Reply :=
  let (rest, reply) := call (held.drop i) c
  (held.take i ++ rest, reply)

/-- Calls in turn, each on a cursor of its choice: the cursors then held, and the replies. -/
def runAt (held : List Cursor) : List (Nat × Call) → List Cursor × List Reply
  | [] => (held, [])
  | (i, c) :: calls =>
    let (held, reply) := callAt held i c
    let (held, replies) := runAt held calls
    (held, reply :: replies)

/-- Calls on the top alone are those of a stack. -/
theorem run_eq_runAt (stack : List Cursor) (calls : List Call) :
    run stack calls = (runAt stack (calls.map (0, ·))).2 := by
  induction calls generalizing stack with
  | nil => rfl
  | cons c calls ih =>
    simp only [run, List.map_cons, runAt, callAt, List.drop_zero, List.take_zero, List.nil_append]
    rw [ih]

end Cursor

end Tether.Wire
