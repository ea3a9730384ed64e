import Tether.Proofs.Wire.Reading
import Tether.Wire.Call

/-!
# Forests read back

The generic reader finds in the bytes of a value the value itself. It reads a head, which for a
container is the view of its body, and then the body; so the proof follows the nesting of the value,
through the items of lists and the content of options and variants alike. From one value it goes on
to a row of values with anything behind it, and so to what the calls of an encoder leave.
-/

namespace Tether.Wire

/-! ## Reading -/

/-- The head of a value, with a form of what the value holds left unread. -/
inductive Node.Holds : Node → Value → Prop where
  | leaf {v : Value} : Holds (.leaf v) v
  | some {content : Value} {body : Bytes} (inner : content.Form Varint.Denotes body) :
    Holds (.some body) (.some content)
  | list {items : List Value} {body : Bytes} (inner : Value.Forms Varint.Denotes items body) :
    Holds (.list body) (.list items)
  | variant {name : String} {content : Value} {body : Bytes}
    (inner : content.Form Varint.Denotes body) : Holds (.variant name body) (.variant name content)

/-- The head of a value is read by the read that its tag calls for. -/
theorem Node.read_form {v : Value} {wire : Bytes} (shape : v.Form Varint.Denotes wire)
    (rest : Bytes) : ∃ node, Node.Holds node v ∧ Node.read (wire ++ rest) = .ok node rest := by
  have then' {α : Type} {x : Decode α} {f : α → Decode Node} {a : α} {node : Node} {view : Bytes}
      (reads : x view = .ok a rest) (gives : f a rest = .ok node rest) :
      (x >>= f) view = .ok node rest :=
    Decode.bind_eq_ok.mpr ⟨a, rest, reads, gives⟩
  unfold Node.read
  simp only [Decode.peekTag_bind_eq_ok]
  cases v with
  | unit =>
    have reads : Decode.unit (wire ++ rest) = .ok () rest := Decode.accepts_unit.append shape rest
    cases shape
    exact ⟨_, .leaf, .unit, rest, rfl, then' reads rfl⟩
  | bool b =>
    have reads := Decode.accepts_bool.append shape rest
    cases shape
    cases b with
    | false => exact ⟨_, .leaf, .boolFalse, rest, rfl, then' reads rfl⟩
    | true => exact ⟨_, .leaf, .boolTrue, rest, rfl, then' reads rfl⟩
  | uint n =>
    have reads := Decode.accepts_uint.append shape rest
    obtain ⟨digits, -, rfl⟩ := shape
    exact ⟨_, .leaf, .uint, digits ++ rest, rfl, then' reads rfl⟩
  | str text =>
    have reads := Decode.accepts_str.append shape rest
    obtain ⟨length, -, rfl⟩ := shape
    exact ⟨_, .leaf, .string, _, rfl, then' reads rfl⟩
  | bytes data =>
    have reads := Decode.accepts_bytes.append shape rest
    obtain ⟨length, -, rfl⟩ := shape
    exact ⟨_, .leaf, .bytes, _, rfl, then' reads rfl⟩
  | none =>
    have reads : Decode.option (wire ++ rest) = .ok Option.none rest :=
      Decode.accepts_option.append shape rest
    cases shape
    exact ⟨_, .leaf, .optionNone, rest, rfl, then' reads rfl⟩
  | some content =>
    obtain ⟨body, inner, outer⟩ := shape
    have reads : Decode.option (wire ++ rest) = .ok (Option.some body) rest :=
      Decode.accepts_option.append outer rest
    obtain ⟨-, rfl⟩ := outer
    exact ⟨_, .some inner, .optionSome, _, Tag.container_append _ _ _, then' reads rfl⟩
  | list items =>
    obtain ⟨body, inner, outer⟩ := shape
    have reads : Decode.list (wire ++ rest) = .ok body rest :=
      (Decode.accepts_container .list).append outer rest
    obtain ⟨-, rfl⟩ := outer
    exact ⟨_, .list inner, .list, _, Tag.container_append _ _ _, then' reads rfl⟩
  | variant name content =>
    obtain ⟨front, body, named, inner, outer⟩ := shape
    have reads : Decode.variant (wire ++ rest) = .ok (name, body) rest :=
      Decode.accepts_variant.append ⟨front, named, outer⟩ rest
    obtain ⟨-, rfl⟩ := outer
    exact ⟨_, .variant inner, .variant, _, Tag.container_append _ _ _, then' reads rfl⟩

namespace Value

/-- A view that holds nothing but a value is used up by it. -/
theorem readWhole_form {v : Value} {wire : Bytes} (shape : v.Form Varint.Denotes wire)
    (completes : ∀ node, Node.Holds node v → complete node = .ok v) : readWhole wire = .ok v := by
  obtain ⟨node, holds, head⟩ := Node.read_form shape []
  rw [List.append_nil] at head
  simp only [readWhole_eq, head, completes node holds, if_true]

mutual

/-- What the head of a value left unread completes it. -/
theorem complete_holds (v : Value) {node : Node} (holds : node.Holds v) :
    complete node = .ok v := by
  match v, holds with
  | _, .leaf => rw [complete]
  | .some content, .some inner =>
    rw [complete, readWhole_form inner fun _ => complete_holds content]
  | .list items, .list inner =>
    rw [complete, readItems_forms items inner]
  | .variant name content, .variant inner =>
    rw [complete, readWhole_form inner fun _ => complete_holds content]

/-- The items of a list are cut from its body one by one. -/
theorem readItems_forms (vs : List Value) {wire : Bytes} (shapes : Forms Varint.Denotes vs wire) :
    readItems wire = .ok vs := by
  match vs with
  | [] =>
    cases shapes
    rw [readItems]
    rfl
  | v :: vs =>
    obtain ⟨front, back, first, others, rfl⟩ := shapes
    have next : Decode.nextItem (front ++ back) = .ok (Option.some front) back :=
      Decode.nextItem_form first
    simp only [readItems_eq (front ++ back), next, readItems_forms vs others,
      readWhole_form first fun _ => complete_holds v]

end

/-- A value is read from any of its forms, whatever follows it. -/
theorem read_form {v : Value} {wire : Bytes} (shape : v.Form Varint.Denotes wire) (rest : Bytes) :
    read (wire ++ rest) = .ok (v, rest) := by
  obtain ⟨node, holds, head⟩ := Node.read_form shape rest
  simp only [read, head, complete_holds v holds]

/-- No bytes are forms of two values, and no form of a value continues another. -/
theorem eq_of_form {v w : Value} {wire extra : Bytes} (shape : v.Form Varint.Denotes wire)
    (shape' : w.Form Varint.Denotes (wire ++ extra)) : v = w ∧ extra = [] := by
  have first := read_form shape extra
  have second := read_form shape' []
  rw [List.append_nil, first] at second
  cases second
  exact ⟨rfl, rfl⟩

theorem read_encoding {v : Value} (fits : v.Fits) (rest : Bytes) :
    read (v.encoding ++ rest) = .ok (v, rest) :=
  read_form (denotes_encoding fits) rest

/-- Reads as many values as are asked for, one after the other. -/
def readMany : Nat → Bytes → Except Error (List Value × Bytes)
  | 0, view => .ok ([], view)
  | n + 1, view =>
    match read view with
    | .error e => .error e
    | .ok (value, rest) =>
      match readMany n rest with
      | .error e => .error e
      | .ok (values, rest) => .ok (value :: values, rest)

theorem readMany_encodings {vs : List Value} (fit : AllFit vs) (rest : Bytes) :
    readMany vs.length (encodings vs ++ rest) = .ok (vs, rest) := by
  induction vs with
  | nil => rfl
  | cons v vs ih =>
    rw [List.length_cons, readMany, encodings, List.append_assoc, read_encoding fit.1]
    simp only [ih fit.2]

/-- Bytes that hold nothing but values are read to their end. -/
theorem readForest_encodings {vs : List Value} (fit : AllFit vs) :
    readForest (encodings vs) = .ok vs := by
  induction vs with
  | nil =>
    rw [readForest]
    rfl
  | cons v vs ih =>
    obtain ⟨b, tail, front⟩ := exists_cons_of_form (denotes_encoding fit.1)
    have filled : encodings (v :: vs) ≠ [] := by
      rw [encodings, front]
      exact List.cons_ne_nil _ _
    have head : read (encodings (v :: vs)) = .ok (v, encodings vs) := read_encoding fit.1 _
    simp only [readForest_eq (encodings (v :: vs)), if_neg filled, head, ih fit.2]

/-! ## Writing call by call -/

mutual

/-- The calls that write a value, in turn. -/
def calls : Value → List Call
  | .unit => [.unit]
  | .bool b => [.bool b]
  | .uint n => [.uint n]
  | .str text => [.str text]
  | .bytes data => [.bytes data]
  | .none => [.optionNone]
  | .some content => .someBegin :: content.calls ++ [.someEnd]
  | .list items => .listBegin :: callsOfAll items ++ [.listEnd]
  | .variant name content => .variantBegin name :: content.calls ++ [.variantEnd]

/-- The calls that write values one after the other. -/
def callsOfAll : List Value → List Call
  | [] => []
  | value :: values => value.calls ++ callsOfAll values

end

theorem callsOfAll_snoc (vs : List Value) (v : Value) :
    callsOfAll (vs ++ [v]) = callsOfAll vs ++ v.calls := by
  induction vs with
  | nil =>
    show v.calls ++ [] = v.calls
    exact List.append_nil _
  | cons w vs ih =>
    show w.calls ++ callsOfAll (vs ++ [v]) = w.calls ++ callsOfAll vs ++ v.calls
    rw [ih, List.append_assoc]

end Value

namespace Encoder

/-- All the calls succeed, one after the other. -/
def Takes (enc : Encoder) (cs : List Call) (enc' : Encoder) : Prop :=
  enc.calls cs = (enc', cs.map fun _ => none)

variable {enc mid enc' : Encoder}

theorem Takes.one {c : Call} (h : c.run enc = .ok () enc') : enc.Takes [c] enc' := by
  simp [Takes, calls, call, h]

theorem Takes.append {cs cs' : List Call} (h : enc.Takes cs mid) (h' : mid.Takes cs' enc') :
    enc.Takes (cs ++ cs') enc' := by
  induction cs generalizing enc with
  | nil =>
    cases h
    exact h'
  | cons c cs ih =>
    simp only [Takes, calls, List.map_cons, Prod.mk.injEq, List.cons.injEq] at h
    obtain ⟨rfl, first, rest⟩ := h
    have done : _ = _ := ih (Prod.ext rfl rest)
    simp [Takes, calls, first, done]

/-- An opening call, the calls inside of it and a closing call. -/
theorem Takes.enclose (opening closing : Call) {cs : List Call} {calls : Encode Unit}
    (fills : ∀ {enc enc'}, calls enc = .ok () enc' → enc.Takes cs enc')
    (h : (do opening.run; calls; closing.run : Encode Unit) enc = .ok () enc') :
    enc.Takes (opening :: cs ++ [closing]) enc' := by
  obtain ⟨⟨⟩, _, opens, h⟩ := Encode.bind_eq_ok.mp h
  obtain ⟨⟨⟩, _, filled, closes⟩ := Encode.bind_eq_ok.mp h
  exact ((Takes.one opens).append (fills filled)).append (.one closes)

end Encoder

namespace Value

mutual

/-- Writing a value in one go is to make its calls in turn. -/
theorem takes_calls (v : Value) {enc enc' : Encoder} (h : v.write enc = .ok () enc') :
    enc.Takes v.calls enc' := by
  match v with
  | .unit | .bool _ | .uint _ | .str _ | .bytes _ | .none => exact .one h
  | .some content => exact .enclose .someBegin .someEnd (takes_calls content) h
  | .list items => exact .enclose .listBegin .listEnd (takes_callsOfAll items) h
  | .variant name content =>
    exact .enclose (.variantBegin name) .variantEnd (takes_calls content) h

theorem takes_callsOfAll (vs : List Value) {enc enc' : Encoder}
    (h : writeAll vs enc = .ok () enc') : enc.Takes (callsOfAll vs) enc' := by
  match vs with
  | [] =>
    cases h
    rfl
  | v :: vs =>
    obtain ⟨⟨⟩, _, first, others⟩ := Encode.bind_eq_ok.mp h
    exact (takes_calls v first).append (takes_callsOfAll vs others)

end

/-- Decoding undoes encoding. The calls that write values all succeed, if every length fits its field;
and from the bytes that they leave, with anything behind them, the generic reader reads those values
and no more. -/
theorem forest_reads_back {vs : List Value} (fit : AllFit vs) :
    ∃ enc bytes, Encoder.empty.Takes (callsOfAll vs) enc ∧ enc.finish = .ok bytes ∧
      ∀ rest, readMany vs.length (bytes ++ rest) = .ok (vs, rest) := by
  have written := (@writeAll_eq_ok vs .empty _ rfl).mpr ⟨fit, rfl⟩
  refine ⟨_, encodings vs, takes_callsOfAll vs written, ?_, readMany_encodings fit⟩
  simp [Encoder.finish, Encoder.empty]

/-- A variant that holds a list of options, and a blob behind it. -/
theorem forest_reads_back_nested :
    let vs : List Value :=
      [.variant "pair" (.list [.some (.uint 300), .none, .str "é"]), .bytes [1, 2]]
    AllFit vs ∧ ∃ enc bytes, Encoder.empty.Takes (callsOfAll vs) enc ∧ enc.finish = .ok bytes ∧
      ∀ rest, readMany vs.length (bytes ++ rest) = .ok (vs, rest) := by
  intro vs
  have fit : AllFit vs := by
    simp only [vs, AllFit, Fits]
    decide +kernel
  exact ⟨fit, forest_reads_back fit⟩

end Value

end Tether.Wire
