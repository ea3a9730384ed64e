import Tether.Proofs.Wire.Form
import Tether.Wire.View

/-!
# What reads accept

A read of one kind of value accepts the forms of such values, in front of anything, and nothing else;
it leaves what follows. So it finds a value in front of any bytes where the value was written. This
holds too of the step over a value of any kind, and so of the step to the next item of a list.
-/

namespace Tether

namespace Bytes

/-- A text is read back from its bytes. -/
@[simp]
theorem toText?_ofText (text : String) : toText? (ofText text) = some text := by
  have bytes : (⟨(ofText text).toArray⟩ : ByteArray) = text.toByteArray := by
    simp [ofText, String.toUTF8]
  unfold toText? String.fromUTF8?
  rw [bytes, dif_pos text.isValidUTF8]
  rfl

theorem toText?_eq_some {data : Bytes} {text : String} :
    toText? data = some text ↔ ofText text = data := by
  constructor
  · intro read
    unfold toText? String.fromUTF8? at read
    split at read
    · next valid =>
      cases read
      rfl
    · cases read
  · rintro rfl
    exact toText?_ofText text

/-- Four bytes are the length that they stand for. -/
theorem ofLength_toLength {field : Bytes} (four : field.length = 4) :
    ofLength (toLength field) = field := by
  match field, four with
  | [a, b, c, d], _ =>
    have := a.toNat_lt
    have := b.toNat_lt
    have := c.toNat_lt
    have := d.toNat_lt
    simp only [ofLength, toLength, List.cons.injEq, ← UInt8.toNat_inj, UInt8.toNat_ofNat', and_true]
    refine ⟨?_, ?_, ?_, ?_⟩ <;> omega

theorem toLength_le {field : Bytes} (four : field.length = 4) : toLength field ≤ maxLength := by
  match field, four with
  | [a, b, c, d], _ =>
    have := a.toNat_lt
    have := b.toNat_lt
    have := c.toNat_lt
    have := d.toNat_lt
    simp only [toLength, maxLength]
    omega

end Bytes

namespace Wire

theorem Tag.container_append (tag : Tag) (body rest : Bytes) :
    tag.container body ++ rest = tag.byte :: (Bytes.ofLength body.length ++ (body ++ rest)) := by
  simp [Tag.container]

/-- No value is empty. -/
theorem Value.exists_cons_of_form {v : Value} {spells : Spelling} {wire : Bytes}
    (shape : v.Form spells wire) : ∃ b tail, wire = b :: tail := by
  cases v with
  | unit | bool b | none => exact ⟨_, [], shape⟩
  | uint n =>
    obtain ⟨digits, -, rfl⟩ := shape
    exact ⟨_, digits, rfl⟩
  | str text | bytes data =>
    obtain ⟨length, -, rfl⟩ := shape
    exact ⟨_, _, rfl⟩
  | some content | list items =>
    obtain ⟨body, -, -, rfl⟩ := shape
    exact ⟨_, _, rfl⟩
  | variant name content =>
    obtain ⟨front, body, -, -, -, rfl⟩ := shape
    exact ⟨_, _, rfl⟩

namespace Decode

/-- A read gives `a` exactly in front of what is a form of `a`, and leaves what follows. -/
def Accepts {α : Type} (read : Decode α) (form : α → Bytes → Prop) : Prop :=
  ∀ (view rest : Bytes) (a : α),
    read view = .ok a rest ↔ ∃ front, form a front ∧ view = front ++ rest

variable {α β : Type} {read : Decode α} {form form' : α → Bytes → Prop}

theorem Accepts.congr (h : read.Accepts form) (same : ∀ a bytes, form a bytes ↔ form' a bytes) :
    read.Accepts form' := by
  intro view rest a
  simp only [h view rest a, same]

/-- Two reads in turn accept two forms in a row. -/
theorem Accepts.bind (h : read.Accepts form) {next : α → Decode β} {rear : α → β → Bytes → Prop}
    (h' : ∀ a, (next a).Accepts (rear a)) :
    Accepts (read >>= next) fun b bytes =>
      ∃ a front back, form a front ∧ rear a b back ∧ bytes = front ++ back := by
  intro view rest b
  rw [bind_eq_ok]
  constructor
  · rintro ⟨a, mid, first, second⟩
    obtain ⟨front, shape, rfl⟩ := (h _ _ _).mp first
    obtain ⟨back, shape', rfl⟩ := (h' a _ _ _).mp second
    exact ⟨_, ⟨a, front, back, shape, shape', rfl⟩, (List.append_assoc _ _ _).symm⟩
  · rintro ⟨_, ⟨a, front, back, shape, shape', rfl⟩, rfl⟩
    refine ⟨a, back ++ rest, ?_, ?_⟩
    · exact (h _ _ _).mpr ⟨front, shape, List.append_assoc _ _ _⟩
    · exact (h' a _ _ _).mpr ⟨back, shape', rfl⟩

/-- A read that consumes nothing more may still refuse or change what was read. -/
theorem Accepts.settle (h : read.Accepts form) {next : α → Decode β} {gives : α → β → Prop}
    (silent : ∀ a view rest b, next a view = .ok b rest ↔ gives a b ∧ view = rest) :
    Accepts (read >>= next) fun b bytes => ∃ a, form a bytes ∧ gives a b := by
  intro view rest b
  rw [bind_eq_ok]
  constructor
  · rintro ⟨a, mid, first, second⟩
    obtain ⟨given, rfl⟩ := (silent a mid rest b).mp second
    obtain ⟨front, shape, rfl⟩ := (h _ _ _).mp first
    exact ⟨front, ⟨a, shape, given⟩, rfl⟩
  · rintro ⟨front, ⟨a, shape, given⟩, rfl⟩
    exact ⟨a, rest, (h _ _ _).mpr ⟨front, shape, rfl⟩, (silent a rest rest b).mpr ⟨given, rfl⟩⟩

/-- What is made of what was read. -/
theorem Accepts.map (h : read.Accepts form) (make : α → β) :
    Accepts (do return make (← read)) fun b bytes => ∃ a, form a bytes ∧ make a = b :=
  h.settle fun _ _ _ _ => pure_eq_ok

/-- A read that fails accepts nothing. -/
theorem accepts_throw (e : Error) : Accepts (throw e : Decode α) fun _ _ => False :=
  fun _ _ _ => ⟨nofun, fun ⟨_, no, _⟩ => no.elim⟩

/-- A read that must use up its view accepts the forms alone. -/
theorem Accepts.whole_eq_ok (h : read.Accepts form) {view : Bytes} {a : α} :
    whole read view = .ok a ↔ form a view := by
  unfold whole
  constructor
  · intro given
    split at given
    · cases given
    · next b rest found =>
      obtain ⟨front, shape, rfl⟩ := (h _ _ _).mp found
      cases rest with
      | nil =>
        cases given
        rwa [List.append_nil]
      | cons => cases given
  · intro shape
    have found : read view = .ok a [] := (h _ _ _).mpr ⟨view, shape, (List.append_nil _).symm⟩
    rw [found]
    rfl

theorem Accepts.within_eq_ok (h : read.Accepts form) {inner view rest : Bytes} {a : α} :
    within inner read view = .ok a rest ↔ form a inner ∧ view = rest := by
  rw [← h.whole_eq_ok]
  unfold within
  cases whole read inner with
  | error e => exact ⟨nofun, fun ⟨given, _⟩ => nomatch given⟩
  | ok b => simp [pure, EStateM.pure]

theorem accepts_take (n : Nat) : Accepts (take n) fun data bytes => data.length = n ∧ bytes = data := by
  intro view rest data
  unfold take
  constructor
  · intro given
    split at given
    · next enough =>
      cases given
      exact ⟨_, ⟨List.length_take_of_le enough, rfl⟩, (List.take_append_drop n view).symm⟩
    · cases given
  · rintro ⟨_, ⟨rfl, rfl⟩, rfl⟩
    rw [if_pos (by simp), List.take_left, List.drop_left]

theorem accepts_varint : Accepts varint fun n bytes => Varint.Denotes bytes n := by
  intro view rest n
  unfold varint
  constructor
  · intro given
    split at given
    · next m used found =>
      cases given
      obtain ⟨digits, rest, rfl, rfl, denotes⟩ := Varint.decode_eq_ok_iff.mp found
      exact ⟨digits, denotes, by rw [List.drop_left]⟩
    · cases given
  · rintro ⟨digits, denotes, rfl⟩
    have found := Varint.decode_eq_ok_iff.mpr ⟨digits, rest, rfl, rfl, denotes⟩
    rw [found]
    simp only [List.drop_left]

theorem peekTag_cons {tag : Tag} {rest : Bytes} :
    peekTag (tag.byte :: rest) = .ok tag (tag.byte :: rest) := by
  simp [peekTag]

/-- A read that looks at the tag first succeeds on a view that opens with a tag. -/
theorem peekTag_bind_eq_ok {next : Tag → Decode β} {view rest : Bytes} {b : β} :
    (peekTag >>= next) view = .ok b rest ↔
      ∃ tag tail, view = tag.byte :: tail ∧ next tag view = .ok b rest := by
  rw [bind_eq_ok]
  constructor
  · rintro ⟨tag, mid, peeked, given⟩
    unfold peekTag at peeked
    split at peeked
    · cases peeked
    · next b tail =>
      split at peeked
      · next known =>
        cases peeked
        exact ⟨tag, tail, by rw [Tag.byte_of_ofByte? known], given⟩
      · cases peeked
  · rintro ⟨tag, tail, rfl, given⟩
    exact ⟨tag, _, peekTag_cons, given⟩

theorem accepts_expectTag (tag : Tag) : Accepts (expectTag tag) fun _ bytes => bytes = [tag.byte] := by
  intro view rest u
  refine peekTag_bind_eq_ok.trans ⟨?_, ?_⟩
  · rintro ⟨found, tail, rfl, given⟩
    split at given
    · next same =>
      cases given
      exact ⟨_, rfl, by rw [same]; rfl⟩
    · cases given
  · rintro ⟨_, rfl, rfl⟩
    exact ⟨tag, rest, rfl, if_pos rfl ▸ rfl⟩

theorem accepts_blob (tag : Tag) :
    Accepts (blob tag) fun data bytes => tag.BlobForm Varint.Denotes data bytes := by
  refine ((accepts_expectTag tag).bind fun _ =>
    accepts_varint.bind fun length => accepts_take length).congr fun data bytes => ?_
  constructor
  · rintro ⟨_, _, _, rfl, ⟨_, digits, _, denotes, ⟨rfl, rfl⟩, rfl⟩, rfl⟩
    exact ⟨digits, denotes, rfl⟩
  · rintro ⟨digits, denotes, rfl⟩
    exact ⟨(), _, _, rfl, ⟨_, digits, data, denotes, ⟨rfl, rfl⟩, rfl⟩, rfl⟩

theorem accepts_container (tag : Tag) :
    Accepts (container tag) fun body bytes => tag.ContainerForm body bytes := by
  refine ((accepts_expectTag tag).bind fun _ =>
    (accepts_take 4).bind fun field => accepts_take (Bytes.toLength field)).congr fun body bytes => ?_
  constructor
  · rintro ⟨_, _, _, rfl, ⟨field, _, _, ⟨four, rfl⟩, ⟨length, rfl⟩, rfl⟩, rfl⟩
    refine ⟨length ▸ Bytes.toLength_le four, ?_⟩
    rw [Tag.container, length, Bytes.ofLength_toLength four]
    rfl
  · rintro ⟨short, rfl⟩
    exact ⟨(), _, _, rfl, ⟨_, _, body, ⟨rfl, rfl⟩, ⟨(Bytes.toLength_ofLength short).symm, rfl⟩, rfl⟩, rfl⟩

theorem accepts_uint : Accepts uint fun n wire => (Value.uint n).Form Varint.Denotes wire := by
  refine ((accepts_expectTag .uint).bind fun _ =>
    accepts_varint.map UInt64.ofNat).congr fun n wire => ?_
  constructor
  · rintro ⟨_, _, digits, rfl, ⟨m, denotes, rfl⟩, rfl⟩
    refine ⟨digits, ?_, rfl⟩
    rwa [UInt64.toNat_ofNat_of_lt' denotes.fits]
  · rintro ⟨digits, denotes, rfl⟩
    exact ⟨(), _, _, rfl, ⟨_, denotes, UInt64.ofNat_toNat⟩, rfl⟩

theorem text_eq_ok (data view rest : Bytes) (t : String) :
    text data view = .ok t rest ↔ Bytes.ofText t = data ∧ view = rest := by
  rw [← Bytes.toText?_eq_some]
  unfold text
  cases Bytes.toText? data with
  | none => exact ⟨nofun, fun ⟨given, _⟩ => nomatch given⟩
  | some found => simp [pure, EStateM.pure]

theorem accepts_unit : Accepts unit fun _ wire => Value.unit.Form Varint.Denotes wire :=
  accepts_expectTag .unit

theorem accepts_bool : Accepts bool fun b wire => (Value.bool b).Form Varint.Denotes wire := by
  intro view rest b
  refine peekTag_bind_eq_ok.trans ⟨?_, ?_⟩
  · rintro ⟨tag, tail, rfl, given⟩
    split at given
    · cases given
      exact ⟨_, rfl, rfl⟩
    · cases given
      exact ⟨_, rfl, rfl⟩
    · cases given
  · rintro ⟨_, rfl, rfl⟩
    cases b with
    | true => exact ⟨.boolTrue, rest, rfl, rfl⟩
    | false => exact ⟨.boolFalse, rest, rfl, rfl⟩

theorem accepts_str : Accepts str fun t wire => (Value.str t).Form Varint.Denotes wire := by
  refine ((accepts_blob .string).settle text_eq_ok).congr fun t wire => ?_
  constructor
  · rintro ⟨_, shape, rfl⟩
    exact shape
  · intro shape
    exact ⟨_, shape, rfl⟩

theorem accepts_bytes : Accepts bytes fun data wire => (Value.bytes data).Form Varint.Denotes wire :=
  accepts_blob .bytes

/-- An option is absent, or a container around a body that is not read yet. -/
theorem accepts_option : Accepts option fun content wire =>
    match content with
    | none => wire = [Tag.optionNone.byte]
    | some body => Tag.optionSome.ContainerForm body wire := by
  have present : Accepts (container .optionSome >>= fun body => pure (some body))
      fun content wire => ∃ body, Tag.optionSome.ContainerForm body wire ∧ some body = content :=
    (accepts_container .optionSome).map some
  intro view rest content
  refine peekTag_bind_eq_ok.trans ⟨?_, ?_⟩
  · rintro ⟨tag, tail, rfl, given⟩
    split at given
    · cases given
      exact ⟨_, rfl, rfl⟩
    · obtain ⟨front, ⟨body, shape, rfl⟩, same⟩ := (present _ _ _).mp given
      exact ⟨front, shape, same⟩
    · cases given
  · rintro ⟨front, shape, rfl⟩
    cases content with
    | none =>
      cases shape
      exact ⟨.optionNone, rest, rfl, rfl⟩
    | some body =>
      refine ⟨.optionSome, Bytes.ofLength body.length ++ (body ++ rest), ?_, ?_⟩
      · rw [shape.2, Tag.container_append]
      · exact (present _ _ _).mpr ⟨front, ⟨body, shape, rfl⟩, rfl⟩

/-- The name of a variant stands in front of its content, which is not read yet. -/
theorem accepts_variant : Accepts variant fun named wire =>
    ∃ front, Tag.string.BlobForm Varint.Denotes (Bytes.ofText named.1) front ∧
      Tag.variant.ContainerForm (front ++ named.2) wire := by
  have silent (body view rest : Bytes) (p : String × Bytes) : named body view = .ok p rest ↔
      (∃ front, Tag.string.BlobForm Varint.Denotes (Bytes.ofText p.1) front ∧
        body = front ++ p.2) ∧ view = rest := by
    have reads := accepts_str body p.2 p.1
    unfold named
    cases found : str body with
    | error e mid =>
      rw [found] at reads
      refine ⟨nofun, fun ⟨shape, _⟩ => ?_⟩
      cases reads.mpr shape
    | ok name mid =>
      rw [found] at reads
      constructor
      · intro given
        obtain ⟨rfl, rfl⟩ := pure_eq_ok.mp given
        exact ⟨reads.mp rfl, rfl⟩
      · rintro ⟨shape, rfl⟩
        cases reads.mpr shape
        rfl
  refine ((accepts_container .variant).settle silent).congr fun p wire => ?_
  constructor
  · rintro ⟨_, outer, front, shape, rfl⟩
    exact ⟨front, shape, outer⟩
  · rintro ⟨front, shape, outer⟩
    exact ⟨_, outer, front, shape, rfl⟩

/-! ## Values of any kind -/

/-- A form is read whatever follows it. -/
theorem Accepts.append (h : read.Accepts form) {front : Bytes} {a : α} (shape : form a front)
    (rest : Bytes) : read (front ++ rest) = .ok a rest :=
  (h _ _ _).mpr ⟨front, shape, rfl⟩

variable {rest : Bytes}

/-- A value of any kind is stepped over, in whatever form it is written. -/
theorem skip_form {v : Value} {wire : Bytes} (shape : v.Form Varint.Denotes wire) :
    skip (wire ++ rest) = .ok () rest := by
  have step {read : Decode Bytes} {data : Bytes} (reads : read (wire ++ rest) = .ok data rest) :
      (do let _ ← read : Decode Unit) (wire ++ rest) = .ok () rest :=
    bind_eq_ok.mpr ⟨data, rest, reads, rfl⟩
  unfold skip
  apply peekTag_bind_eq_ok.mpr
  cases v with
  | unit | none =>
    cases shape
    exact ⟨_, rest, rfl, rfl⟩
  | bool b =>
    cases shape
    cases b with
    | false => exact ⟨.boolFalse, rest, rfl, rfl⟩
    | true => exact ⟨.boolTrue, rest, rfl, rfl⟩
  | uint n =>
    obtain ⟨digits, denotes, rfl⟩ := shape
    refine ⟨.uint, digits ++ rest, rfl, bind_eq_ok.mpr ⟨(), digits ++ rest, rfl, ?_⟩⟩
    exact bind_eq_ok.mpr ⟨_, rest, accepts_varint.append denotes rest, rfl⟩
  | str text =>
    have reads : blob .string (wire ++ rest) = .ok _ rest := (accepts_blob .string).append shape rest
    obtain ⟨length, denotes, rfl⟩ := shape
    exact ⟨.string, _, rfl, step reads⟩
  | bytes data =>
    have reads : blob .bytes (wire ++ rest) = .ok _ rest := (accepts_blob .bytes).append shape rest
    obtain ⟨length, denotes, rfl⟩ := shape
    exact ⟨.bytes, _, rfl, step reads⟩
  | some content =>
    obtain ⟨body, -, outer⟩ := shape
    have reads : container .optionSome (wire ++ rest) = .ok body rest :=
      (accepts_container .optionSome).append outer rest
    obtain ⟨-, rfl⟩ := outer
    exact ⟨.optionSome, _, Tag.container_append _ _ _, step reads⟩
  | list items =>
    obtain ⟨body, -, outer⟩ := shape
    have reads : container .list (wire ++ rest) = .ok body rest :=
      (accepts_container .list).append outer rest
    obtain ⟨-, rfl⟩ := outer
    exact ⟨.list, _, Tag.container_append _ _ _, step reads⟩
  | variant name content =>
    obtain ⟨front, body, -, -, outer⟩ := shape
    have reads : container .variant (wire ++ rest) = .ok (front ++ body) rest :=
      (accepts_container .variant).append outer rest
    obtain ⟨-, rfl⟩ := outer
    exact ⟨.variant, _, Tag.container_append _ _ _, step reads⟩

/-- While there is something left of a list, its next item is what a step over it takes. -/
theorem nextItem_of_ne_nil {items : Bytes} (filled : items ≠ []) :
    nextItem items =
      match skip items with
      | .ok _ rest =>
        .ok (some (items.take (items.length - rest.length))) (items.drop (items.length - rest.length))
      | .error e _ => .error e items := by
  obtain ⟨b, tail, rfl⟩ := List.exists_cons_of_ne_nil filled
  rfl

theorem nextItem_append {item : Bytes} (filled : item ≠ []) (stepped : skip (item ++ rest) = .ok () rest) :
    nextItem (item ++ rest) = .ok (some item) rest := by
  rw [nextItem_of_ne_nil (List.append_ne_nil_of_left_ne_nil filled rest), stepped]
  simp only [List.length_append, Nat.add_sub_cancel, List.take_left, List.drop_left]

/-- The next item of a list is the value at its front, in whatever form it is written. -/
theorem nextItem_form {v : Value} {wire : Bytes} (shape : v.Form Varint.Denotes wire) :
    nextItem (wire ++ rest) = .ok (some wire) rest := by
  obtain ⟨b, tail, rfl⟩ := Value.exists_cons_of_form shape
  exact nextItem_append (List.cons_ne_nil _ _) (skip_form shape)

/-- An item is cut from the front of the list. -/
theorem eq_append_of_nextItem {items item : Bytes} (h : nextItem items = .ok (some item) rest) :
    items = item ++ rest := by
  unfold nextItem at h
  split at h
  · cases h
  · split at h
    · cases h
      exact (List.take_append_drop _ _).symm
    · cases h

theorem nextItem_eq_none {items : Bytes} : nextItem items = .ok none rest ↔ items = [] ∧ rest = [] := by
  unfold nextItem
  split
  · constructor
    · intro h
      cases h
      exact ⟨rfl, rfl⟩
    · rintro ⟨-, rfl⟩
      rfl
  · split
    · exact ⟨nofun, fun ⟨h, _⟩ => nomatch h⟩
    · exact ⟨nofun, fun ⟨h, _⟩ => nomatch h⟩

end Decode

end Wire

end Tether
