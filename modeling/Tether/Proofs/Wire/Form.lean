import Tether.Proofs.Wire.Encoding
import Tether.Proofs.Wire.Varint

/-!
# The forms of a value

A value has one encoding, but other bytes stand for it too: its numbers, and the lengths of its
blobs, may be any varints of theirs, and the lengths of the containers around follow suit. These
bytes are the forms of the value. They are said here without the readers, by recursion on the value,
with the varints that are allowed as a parameter: with the shortest ones alone, the encoding is the
only form.
-/

namespace Tether.Wire

/-- The varints that may stand for a number. -/
abbrev Spelling := Bytes → Nat → Prop

/-- The one varint that is written for a number. -/
def Varint.Shortest : Spelling := fun digits n => digits = Varint.encode n

namespace Tag

/-- Bytes with a length in front. -/
def BlobForm (spells : Spelling) (tag : Tag) (data bytes : Bytes) : Prop :=
  ∃ length, spells length data.length ∧ bytes = tag.byte :: (length ++ data)

/-- A container around a body that its length field can describe. -/
def ContainerForm (tag : Tag) (body bytes : Bytes) : Prop :=
  body.length ≤ Bytes.maxLength ∧ bytes = tag.container body

end Tag

namespace Value

mutual

/-- The bytes that stand for a value, with these varints. -/
def Form (spells : Spelling) : Value → Bytes → Prop
  | .unit, wire => wire = [Tag.unit.byte]
  | .bool b, wire => wire = [if b then Tag.boolTrue.byte else Tag.boolFalse.byte]
  | .uint n, wire => ∃ digits, spells digits n.toNat ∧ wire = Tag.uint.byte :: digits
  | .str text, wire => Tag.string.BlobForm spells (Bytes.ofText text) wire
  | .bytes data, wire => Tag.bytes.BlobForm spells data wire
  | .none, wire => wire = [Tag.optionNone.byte]
  | .some content, wire => ∃ body, content.Form spells body ∧ Tag.optionSome.ContainerForm body wire
  | .list items, wire => ∃ body, Forms spells items body ∧ Tag.list.ContainerForm body wire
  | .variant name content, wire =>
    ∃ front body, Tag.string.BlobForm spells (Bytes.ofText name) front ∧
      content.Form spells body ∧ Tag.variant.ContainerForm (front ++ body) wire

/-- The bytes that stand for values one after the other, with these varints. -/
def Forms (spells : Spelling) : List Value → Bytes → Prop
  | [], wire => wire = []
  | value :: values, wire =>
    ∃ front back, value.Form spells front ∧ Forms spells values back ∧ wire = front ++ back

end

variable {spells : Spelling}

theorem maxLength_lt_size : Bytes.maxLength < UInt64.size := by
  decide

theorem blobForm_blob (each : ∀ n < UInt64.size, spells (Varint.encode n) n) {tag : Tag}
    {data : Bytes} (fits : data.length ≤ Bytes.maxLength) :
    tag.BlobForm spells data (tag.blob data) :=
  ⟨_, each _ (Nat.lt_of_le_of_lt fits maxLength_lt_size), rfl⟩

mutual

/-- The encoding is one of the forms. -/
theorem form_encoding (each : ∀ n < UInt64.size, spells (Varint.encode n) n) (v : Value)
    (fits : v.Fits) : v.Form spells v.encoding := by
  match v with
  | .unit | .bool _ | .none => exact rfl
  | .uint n => exact ⟨_, each _ n.toNat_lt, rfl⟩
  | .str _ | .bytes _ => exact blobForm_blob each fits
  | .some content => exact ⟨_, form_encoding each content fits.1, fits.2, rfl⟩
  | .list items => exact ⟨_, forms_encodings each items fits.1, fits.2, rfl⟩
  | .variant name content =>
    exact ⟨_, _, blobForm_blob each fits.1.1, form_encoding each content fits.1.2, fits.2, rfl⟩

theorem forms_encodings (each : ∀ n < UInt64.size, spells (Varint.encode n) n) (vs : List Value)
    (fit : AllFit vs) : Forms spells vs (encodings vs) := by
  match vs with
  | [] => exact rfl
  | v :: vs => exact ⟨_, _, form_encoding each v fit.1, forms_encodings each vs fit.2, rfl⟩

end

mutual

/-- With the shortest varints alone, there is no other form. -/
theorem eq_encoding_of_form (v : Value) {wire : Bytes} (form : v.Form Varint.Shortest wire) :
    wire = v.encoding := by
  match v with
  | .unit | .bool _ | .none => exact form
  | .uint n =>
    obtain ⟨_, rfl, rfl⟩ := form
    rfl
  | .str _ | .bytes _ =>
    obtain ⟨_, rfl, rfl⟩ := form
    rfl
  | .some content =>
    obtain ⟨body, inner, -, rfl⟩ := form
    rw [encoding, eq_encoding_of_form content inner]
  | .list items =>
    obtain ⟨body, inner, -, rfl⟩ := form
    rw [encoding, eq_encodings_of_forms items inner]
  | .variant name content =>
    obtain ⟨_, body, ⟨_, rfl, rfl⟩, inner, -, rfl⟩ := form
    rw [encoding, eq_encoding_of_form content inner]
    rfl

theorem eq_encodings_of_forms (vs : List Value) {wire : Bytes}
    (forms : Forms Varint.Shortest vs wire) : wire = encodings vs := by
  match vs with
  | [] => exact forms
  | v :: vs =>
    obtain ⟨front, back, first, others, rfl⟩ := forms
    rw [encodings, eq_encoding_of_form v first, eq_encodings_of_forms vs others]

end

/-- The encoding is a form with any varints of its numbers. -/
theorem denotes_encoding {v : Value} (fits : v.Fits) : v.Form Varint.Denotes v.encoding :=
  form_encoding (fun _ => Varint.denotes_encode) v fits

end Value

end Tether.Wire
