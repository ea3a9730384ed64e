import Tether.Wire.View
import Tether.Wire.Encoder

/-!
# Value trees

The wire format describes itself: a reader that knows no types can recover the tree of values from
the bytes. This module holds that tree, the generic reader, which follows the tags, and the calls
that write a tree. The reader ends on every input because the view of a nested value is shorter than
the view it was cut from.
-/

namespace Tether.Wire

/-- Any value that the wire format can carry. -/
inductive Value where
  | unit
  | bool (b : Bool)
  | uint (n : UInt64)
  | str (text : String)
  | bytes (data : Bytes)
  | none
  | some (content : Value)
  | list (items : List Value)
  | variant (name : String) (content : Value)
  deriving Repr

/-- The head of a value: a scalar or blob is complete, a container still holds its body unread. -/
inductive Node where
  | leaf (value : Value)
  | some (body : Bytes)
  | list (body : Bytes)
  | variant (name : String) (body : Bytes)

namespace Node

/-- The part of a value that its head leaves unread. -/
def body : Node → Bytes
  | leaf _ => []
  | some body | list body | variant _ body => body

/-- Reads the head of the next value by the read that its tag calls for. -/
def read : Decode Node := do
  match ← Decode.peekTag with
  | .unit => do
    Decode.unit
    return leaf .unit
  | .boolTrue | .boolFalse => do
    let b ← Decode.bool
    return leaf (.bool b)
  | .uint => do
    let n ← Decode.uint
    return leaf (.uint n)
  | .string => do
    let text ← Decode.str
    return leaf (.str text)
  | .bytes => do
    let data ← Decode.bytes
    return leaf (.bytes data)
  | .optionNone | .optionSome => do
    match ← Decode.option with
    | none => return leaf .none
    | Option.some body => return some body
  | .list => do
    let body ← Decode.list
    return list body
  | .variant => do
    let (name, body) ← Decode.variant
    return variant name body

/-- The unread body and the bytes behind the value lie apart in the view, and the head is not
empty. -/
theorem read_length {view rest : Bytes} {node : Node} (h : read view = .ok node rest) :
    node.body.length + rest.length < view.length := by
  obtain ⟨tag, _, h₁, h⟩ := Decode.bind_eq_ok.mp h
  obtain ⟨rfl, hne⟩ := Decode.peekTag_view h₁
  cases tag <;> simp only at h <;> obtain ⟨x, mid, h₂, h⟩ := Decode.bind_eq_ok.mp h
  case unit =>
    obtain ⟨rfl, rfl⟩ := Decode.pure_eq_ok.mp h
    simpa [body] using Decode.expectTag_length h₂
  case boolTrue | boolFalse =>
    obtain ⟨rfl, rfl⟩ := Decode.pure_eq_ok.mp h
    simpa [body] using Decode.bool_length h₂
  case uint =>
    obtain ⟨rfl, rfl⟩ := Decode.pure_eq_ok.mp h
    simpa [body] using Decode.uint_length h₂
  case string =>
    obtain ⟨rfl, rfl⟩ := Decode.pure_eq_ok.mp h
    simpa [body] using Decode.str_length h₂
  case bytes =>
    obtain ⟨rfl, rfl⟩ := Decode.pure_eq_ok.mp h
    have := Decode.blob_length h₂
    simp only [body, List.length_nil]
    omega
  case optionNone | optionSome =>
    have := Decode.option_length h₂
    cases x <;> obtain ⟨rfl, rfl⟩ := Decode.pure_eq_ok.mp h <;> simpa [body] using this
  case list =>
    obtain ⟨rfl, rfl⟩ := Decode.pure_eq_ok.mp h
    exact Decode.container_length h₂
  case variant =>
    obtain ⟨rfl, rfl⟩ := Decode.pure_eq_ok.mp h
    exact Decode.variant_length h₂

end Node

namespace Value

mutual

/-- Reads a view that must hold exactly one value. -/
def readWhole (view : Bytes) : Except Error Value :=
  match h : Node.read view with
  | .error e _ => .error e
  | .ok node rest =>
    have := Node.read_length h
    match complete node with
    | .error e => .error e
    | .ok value => if rest = [] then .ok value else .error (.trailingBytes rest.length)
termination_by (view.length, 0)

/-- Reads what the head of a value left unread. -/
def complete (node : Node) : Except Error Value :=
  match node with
  | .leaf value => .ok value
  | .some body =>
    match readWhole body with
    | .ok content => .ok (.some content)
    | .error e => .error e
  | .list body =>
    match readItems body with
    | .ok items => .ok (.list items)
    | .error e => .error e
  | .variant name body =>
    match readWhole body with
    | .ok content => .ok (.variant name content)
    | .error e => .error e
termination_by (node.body.length, 2)
decreasing_by all_goals simp [Node.body, Prod.lex_def]

/-- Reads the items of a list body to its end. -/
def readItems (items : Bytes) : Except Error (List Value) :=
  match h : Decode.nextItem items with
  | .error e _ => .error e
  | .ok Option.none _ => .ok []
  | .ok (Option.some item) rest =>
    have := Decode.nextItem_length h
    have := Decode.nextItem_rest_length h
    match readWhole item with
    | .error e => .error e
    | .ok value =>
      match readItems rest with
      | .error e => .error e
      | .ok values => .ok (value :: values)
termination_by (items.length, 1)
decreasing_by
  · simp only [Prod.lex_def]
    omega
  · simp only [Prod.lex_def]
    omega

end

/-- What is read, without the lengths by which the reader ends. -/
theorem readWhole_eq (view : Bytes) :
    readWhole view =
      match Node.read view with
      | .error e _ => .error e
      | .ok node rest =>
        match complete node with
        | .error e => .error e
        | .ok value => if rest = [] then .ok value else .error (.trailingBytes rest.length) := by
  rw [readWhole]
  split
  · next read => rw [read]
  · next read => simp only [read]

theorem readItems_eq (items : Bytes) :
    readItems items =
      match Decode.nextItem items with
      | .error e _ => .error e
      | .ok Option.none _ => .ok []
      | .ok (Option.some item) rest =>
        match readWhole item with
        | .error e => .error e
        | .ok value =>
          match readItems rest with
          | .error e => .error e
          | .ok values => .ok (value :: values) := by
  rw [readItems]
  split
  · next given => rw [given]
  · next given => rw [given]
  · next given => simp only [given]

/-- Reads the value at the front of a view. -/
def read (view : Bytes) : Except Error (Value × Bytes) :=
  match Node.read view with
  | .error e _ => .error e
  | .ok node rest =>
    match complete node with
    | .error e => .error e
    | .ok value => .ok (value, rest)

theorem read_length {view rest : Bytes} {value : Value} (h : read view = .ok (value, rest)) :
    rest.length < view.length := by
  unfold read at h
  split at h
  · cases h
  · next hn =>
    have := Node.read_length hn
    split at h
    · cases h
    · cases h
      omega

/-- Reads values until the view ends. -/
def readForest (view : Bytes) : Except Error (List Value) :=
  if view = [] then .ok []
  else
    match h : read view with
    | .error e => .error e
    | .ok (value, rest) =>
      have := read_length h
      match readForest rest with
      | .error e => .error e
      | .ok values => .ok (value :: values)
termination_by view.length

theorem readForest_eq (view : Bytes) :
    readForest view =
      if view = [] then .ok []
      else
        match read view with
        | .error e => .error e
        | .ok (value, rest) =>
          match readForest rest with
          | .error e => .error e
          | .ok values => .ok (value :: values) := by
  rw [readForest]
  split
  · rfl
  · split
    · next given => rw [given]
    · next given => simp only [given]

mutual

/-- The calls that write a value. -/
def write : Value → Encode Unit
  | .unit => Encode.unit
  | .bool b => Encode.bool b
  | .uint n => Encode.uint n
  | .str text => Encode.str text
  | .bytes data => Encode.bytes data
  | .none => Encode.optionNone
  | .some content => do
    Encode.someBegin
    content.write
    Encode.someEnd
  | .list items => do
    Encode.listBegin
    writeAll items
    Encode.listEnd
  | .variant name content => do
    Encode.variantBegin name
    content.write
    Encode.variantEnd

/-- The calls that write values one after the other. -/
def writeAll : List Value → Encode Unit
  | [] => pure ()
  | value :: values => do
    value.write
    writeAll values

end

end Value

end Tether.Wire
