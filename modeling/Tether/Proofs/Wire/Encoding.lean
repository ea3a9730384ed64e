import Tether.Wire.Value

/-!
# The bytes of a value

What the calls that write a value leave behind, said without the calls: each value has one encoding,
and writing it puts that encoding behind the items of the innermost container, as one more item.
The calls succeed exactly if there is room for one more item and every length in the value fits its
field.
-/

namespace Tether.Wire

namespace Tag

/-- A container around a body. -/
def container (tag : Tag) (body : Bytes) : Bytes :=
  tag.byte :: Bytes.ofLength body.length ++ body

/-- A body behind a length field that was never filled in. -/
def unfilled (tag : Tag) (body : Bytes) : Bytes :=
  tag.byte :: Bytes.ofLength 0 ++ body

/-- Bytes with their length in front. -/
def blob (tag : Tag) (data : Bytes) : Bytes :=
  tag.byte :: Varint.encode data.length ++ data

@[simp]
theorem length_container (tag : Tag) (body : Bytes) :
    (tag.container body).length = 5 + body.length := by
  simp only [container, List.length_append, List.length_cons, Bytes.length_ofLength]

@[simp]
theorem length_blob (tag : Tag) (data : Bytes) :
    (tag.blob data).length = 1 + (Varint.encode data.length).length + data.length := by
  simp only [blob, List.length_append, List.length_cons, Nat.add_comm 1]

end Tag

namespace Value

mutual

/-- The bytes that stand for a value. -/
def encoding : Value → Bytes
  | .unit => [Tag.unit.byte]
  | .bool b => [if b then Tag.boolTrue.byte else Tag.boolFalse.byte]
  | .uint n => Tag.uint.byte :: Varint.encode n.toNat
  | .str text => Tag.string.blob (Bytes.ofText text)
  | .bytes data => Tag.bytes.blob data
  | .none => [Tag.optionNone.byte]
  | .some content => Tag.optionSome.container content.encoding
  | .list items => Tag.list.container (encodings items)
  | .variant name content =>
    Tag.variant.container (Tag.string.blob (Bytes.ofText name) ++ content.encoding)

/-- The bytes that stand for values one after the other. -/
def encodings : List Value → Bytes
  | [] => []
  | value :: values => value.encoding ++ encodings values

end

mutual

/-- Whether every length in a value fits its field. -/
def Fits : Value → Prop
  | .unit | .bool _ | .uint _ | .none => True
  | .str text => (Bytes.ofText text).length ≤ Bytes.maxLength
  | .bytes data => data.length ≤ Bytes.maxLength
  | .some content => content.Fits ∧ content.encoding.length ≤ Bytes.maxLength
  | .list items => AllFit items ∧ (encodings items).length ≤ Bytes.maxLength
  | .variant name content =>
    ((Bytes.ofText name).length ≤ Bytes.maxLength ∧ content.Fits) ∧
      (Tag.string.blob (Bytes.ofText name) ++ content.encoding).length ≤ Bytes.maxLength

/-- Whether every length in some values fits its field. -/
def AllFit : List Value → Prop
  | [] => True
  | value :: values => value.Fits ∧ AllFit values

end

theorem encodings_append (vs ws : List Value) :
    encodings (vs ++ ws) = encodings vs ++ encodings ws := by
  induction vs with
  | nil => rfl
  | cons v vs ih =>
    show v.encoding ++ encodings (vs ++ ws) = v.encoding ++ encodings vs ++ encodings ws
    rw [ih, List.append_assoc]

theorem encodings_snoc (vs : List Value) (v : Value) :
    encodings (vs ++ [v]) = encodings vs ++ v.encoding := by
  rw [encodings_append, encodings, encodings, List.append_nil]

theorem AllFit.snoc {vs : List Value} {v : Value} (fit : AllFit vs) (fits : v.Fits) :
    AllFit (vs ++ [v]) := by
  induction vs with
  | nil => exact ⟨fits, trivial⟩
  | cons w vs ih => exact ⟨fit.1, ih fit.2⟩

end Value

namespace Encoder

/-- Whether the innermost container takes one more item. -/
def HasRoom (enc : Encoder) : Prop :=
  enc.top.scope.single = true → enc.top.count = 0

/-- The encoder with one more item. -/
def add (enc : Encoder) (bytes : Bytes) : Encoder :=
  { enc with top := { enc.top with count := enc.top.count + 1, body := enc.top.body ++ bytes } }

end Encoder

namespace Encode

/-- A sequence of two calls succeeds exactly if both do, one after the other. -/
theorem bind_eq_ok {α β : Type} {x : Encode α} {f : α → Encode β} {enc enc' : Encoder} {b : β} :
    (x >>= f) enc = .ok b enc' ↔ ∃ a mid, x enc = .ok a mid ∧ f a mid = .ok b enc' := by
  constructor
  · intro h
    cases hx : x enc with
    | ok a mid => exact ⟨a, mid, rfl, by simpa [bind, EStateM.bind, hx] using h⟩
    | error e mid => simp [bind, EStateM.bind, hx] at h
  · rintro ⟨a, mid, hx, h⟩
    simpa [bind, EStateM.bind, hx] using h

theorem beginItem_eq_ok {enc enc' : Encoder} :
    beginItem enc = .ok () enc' ↔
      enc.HasRoom ∧ { enc with top := { enc.top with count := enc.top.count + 1 } } = enc' := by
  unfold beginItem Encoder.HasRoom
  cases enc.top.scope.single <;> by_cases h : enc.top.count = 0 <;> simp [h, Nat.one_le_iff_ne_zero]

/-- A call that writes one item at once. -/
theorem item_eq_ok {bytes : Bytes} {enc enc' : Encoder} :
    (do beginItem; append bytes : Encode Unit) enc = .ok () enc' ↔
      enc.HasRoom ∧ enc.add bytes = enc' := by
  rw [bind_eq_ok]
  constructor
  · rintro ⟨⟨⟩, mid, h, last⟩
    obtain ⟨room, rfl⟩ := beginItem_eq_ok.mp h
    injection last with _ last
    exact ⟨room, last⟩
  · rintro ⟨room, rfl⟩
    exact ⟨(), _, beginItem_eq_ok.mpr ⟨room, rfl⟩, rfl⟩

theorem blob_eq_ok {tag : Tag} {data : Bytes} {enc enc' : Encoder} :
    blob tag data enc = .ok () enc' ↔
      data.length ≤ Bytes.maxLength ∧ enc.HasRoom ∧ enc.add (tag.blob data) = enc' := by
  unfold blob
  split
  · next long =>
    refine ⟨fun h => ?_, fun ⟨fits, _⟩ => absurd fits (Nat.not_le.mpr long)⟩
    obtain ⟨_, _, h, _⟩ := bind_eq_ok.mp h
    cases h
  · next short =>
    refine item_eq_ok.trans ⟨fun h => ⟨Nat.not_lt.mp short, h⟩, fun h => h.2⟩

theorem str_eq_ok {text : String} {enc enc' : Encoder} :
    str text enc = .ok () enc' ↔ (Bytes.ofText text).length ≤ Bytes.maxLength ∧ enc.HasRoom ∧
      enc.add (Tag.string.blob (Bytes.ofText text)) = enc' :=
  blob_eq_ok

/-- The encoder inside a container that was just opened, with some bytes in it that are no item. -/
def inside (scope : Scope) (front : Bytes) (enc : Encoder) : Encoder :=
  ⟨⟨scope, 0, front⟩, { enc.top with count := enc.top.count + 1 } :: enc.outer⟩

theorem beginScope_eq_ok {scope : Scope} {enc enc' : Encoder} :
    beginScope scope enc = .ok () enc' ↔ True ∧ enc.HasRoom ∧ inside scope [] enc = enc' := by
  rw [true_and]
  refine bind_eq_ok.trans ⟨?_, ?_⟩
  · rintro ⟨⟨⟩, mid, h, last⟩
    obtain ⟨room, rfl⟩ := beginItem_eq_ok.mp h
    injection last with _ last
    exact ⟨room, last⟩
  · rintro ⟨room, rfl⟩
    exact ⟨(), _, beginItem_eq_ok.mpr ⟨room, rfl⟩, rfl⟩

theorem variantBegin_eq_ok {name : String} {enc enc' : Encoder} :
    variantBegin name enc = .ok () enc' ↔
      (Bytes.ofText name).length ≤ Bytes.maxLength ∧ enc.HasRoom ∧
        inside .variant (Tag.string.blob (Bytes.ofText name)) enc = enc' := by
  refine bind_eq_ok.trans ⟨?_, ?_⟩
  · rintro ⟨⟨⟩, opened, h₁, h₂⟩
    obtain ⟨-, room, rfl⟩ := beginScope_eq_ok.mp h₁
    obtain ⟨⟨⟩, named, h₂, h₃⟩ := bind_eq_ok.mp h₂
    obtain ⟨short, -, rfl⟩ := str_eq_ok.mp h₂
    injection h₃ with _ h₃
    exact ⟨short, room, h₃⟩
  · rintro ⟨short, room, rfl⟩
    exact ⟨(), _, beginScope_eq_ok.mpr ⟨trivial, room, rfl⟩,
      bind_eq_ok.mpr ⟨(), _, str_eq_ok.mpr ⟨short, fun _ => rfl, rfl⟩, rfl⟩⟩

/-- A container that holds as many items as its kind asks for is closed, but its length may not fit
its field. -/
theorem endScope_nested {tag : Tag} {enc : Encoder} {around : OpenScope} {outer : List OpenScope}
    (single : enc.top.scope.single = true → enc.top.count = 1) (nested : enc.outer = around :: outer) :
    endScope enc.top.scope tag enc =
      if enc.top.body.length ≤ Bytes.maxLength then
        .ok () ⟨{ around with body := around.body ++ tag.container enc.top.body }, outer⟩
      else
        .error (.blobTooLarge enc.top.body.length)
          ⟨{ around with body := around.body ++ tag.unfilled enc.top.body }, outer⟩ := by
  have full : (enc.top.scope.single && decide (enc.top.count ≠ 1)) = false := by
    cases h : enc.top.scope.single
    · rfl
    · simp [single h]
  unfold endScope
  simp only [ne_eq, not_true_eq_false, if_false, full, Bool.false_eq_true, nested]
  rfl

theorem endScope_eq {scope : Scope} {tag : Tag} {enc : Encoder} {count : Nat} {body : Bytes}
    (single : scope.single = true → count = 1) :
    endScope scope tag
        ⟨⟨scope, count, body⟩, { enc.top with count := enc.top.count + 1 } :: enc.outer⟩ =
      if body.length ≤ Bytes.maxLength then .ok () (enc.add (tag.container body))
      else .error (.blobTooLarge body.length) (enc.add (tag.unfilled body)) :=
  @endScope_nested tag ⟨⟨scope, count, body⟩, _ :: _⟩ _ _ single rfl

theorem endScope_eq_ok {scope : Scope} {tag : Tag} {enc enc' : Encoder} {count : Nat} {body : Bytes}
    (single : scope.single = true → count = 1) :
    endScope scope tag
        ⟨⟨scope, count, body⟩, { enc.top with count := enc.top.count + 1 } :: enc.outer⟩ =
          .ok () enc' ↔
      body.length ≤ Bytes.maxLength ∧ enc.add (tag.container body) = enc' := by
  rw [endScope_eq single]
  split
  · next short => simp [short]
  · next long => simp [long]

/-- Writing a container, given what opening it does and what the calls inside of it do. -/
theorem container_eq_ok {scope : Scope} {tag : Tag} {opening calls : Encode Unit} {P Q : Prop}
    {count : Nat} {front body : Bytes} (single : scope.single = true → count = 1)
    (opens : ∀ {enc enc'}, opening enc = .ok () enc' ↔
      P ∧ enc.HasRoom ∧ inside scope front enc = enc')
    (fills : ∀ {outer enc'}, calls ⟨⟨scope, 0, front⟩, outer⟩ = .ok () enc' ↔
      Q ∧ ⟨⟨scope, count, front ++ body⟩, outer⟩ = enc') {enc enc' : Encoder} :
    (do opening; calls; endScope scope tag : Encode Unit) enc = .ok () enc' ↔
      ((P ∧ Q) ∧ (front ++ body).length ≤ Bytes.maxLength) ∧ enc.HasRoom ∧
        enc.add (tag.container (front ++ body)) = enc' := by
  simp only [bind_eq_ok]
  constructor
  · rintro ⟨⟨⟩, opened, h₁, ⟨⟩, filled, h₂, h₃⟩
    obtain ⟨first, room, rfl⟩ := opens.mp h₁
    obtain ⟨second, rfl⟩ := fills.mp h₂
    obtain ⟨short, rfl⟩ := (endScope_eq_ok single).mp h₃
    exact ⟨⟨⟨first, second⟩, short⟩, room, rfl⟩
  · rintro ⟨⟨⟨first, second⟩, short⟩, room, rfl⟩
    exact ⟨(), _, opens.mpr ⟨first, room, rfl⟩, (), _, fills.mpr ⟨second, rfl⟩,
      (endScope_eq_ok single).mpr ⟨short, rfl⟩⟩

end Encode

namespace Value

mutual

/-- Writing a value succeeds exactly if there is room and every length fits, and adds its encoding as
one item. -/
theorem write_eq_ok (v : Value) {enc enc' : Encoder} :
    v.write enc = .ok () enc' ↔ v.Fits ∧ enc.HasRoom ∧ enc.add v.encoding = enc' := by
  match v with
  | .unit | .bool _ | .uint _ | .none =>
    rw [Fits, true_and]
    exact Encode.item_eq_ok
  | .str _ | .bytes _ => exact Encode.blob_eq_ok
  | .some content =>
    rw [Fits, ← true_and content.Fits]
    exact Encode.container_eq_ok (fun _ => rfl) Encode.beginScope_eq_ok (write_single content)
  | .list items =>
    rw [Fits, ← true_and (AllFit items)]
    have fills {outer : List OpenScope} {enc' : Encoder} :
        writeAll items ⟨⟨.list, 0, []⟩, outer⟩ = .ok () enc' ↔
          AllFit items ∧ ⟨⟨.list, items.length, [] ++ encodings items⟩, outer⟩ = enc' := by
      rw [writeAll_eq_ok items rfl, Nat.zero_add]
    exact Encode.container_eq_ok (fun single => by cases single) Encode.beginScope_eq_ok fills
  | .variant name content =>
    exact Encode.container_eq_ok (fun _ => rfl) Encode.variantBegin_eq_ok (write_single content)

/-- Writing the one value of a container. -/
theorem write_single (v : Value) {scope : Scope} {front : Bytes} {outer : List OpenScope}
    {enc' : Encoder} : v.write ⟨⟨scope, 0, front⟩, outer⟩ = .ok () enc' ↔
      v.Fits ∧ ⟨⟨scope, 1, front ++ v.encoding⟩, outer⟩ = enc' :=
  (write_eq_ok v).trans (and_congr_right fun _ => and_iff_right fun _ => rfl)

/-- Writing values one after the other into a container that takes any number of items. -/
theorem writeAll_eq_ok (vs : List Value) {enc enc' : Encoder} (many : enc.top.scope.single = false) :
    writeAll vs enc = .ok () enc' ↔ AllFit vs ∧
      { enc with top := { enc.top with
        count := enc.top.count + vs.length
        body := enc.top.body ++ encodings vs } } = enc' := by
  match vs with
  | [] => simp [writeAll, AllFit, encodings, pure, EStateM.pure]
  | v :: vs =>
    have room : enc.HasRoom := fun single => by rw [many] at single; cases single
    have many' : (enc.add v.encoding).top.scope.single = false := many
    rw [writeAll, Encode.bind_eq_ok, AllFit]
    constructor
    · rintro ⟨⟨⟩, mid, h₁, h₂⟩
      obtain ⟨fits, -, rfl⟩ := (write_eq_ok v).mp h₁
      obtain ⟨fit, rfl⟩ := (writeAll_eq_ok vs many').mp h₂
      refine ⟨⟨fits, fit⟩, ?_⟩
      simp [Encoder.add, encodings, Nat.add_assoc, Nat.add_comm 1]
    · rintro ⟨⟨fits, fit⟩, rfl⟩
      refine ⟨(), _, (write_eq_ok v).mpr ⟨fits, room, rfl⟩, (writeAll_eq_ok vs many').mpr ⟨fit, ?_⟩⟩
      simp [Encoder.add, encodings, Nat.add_assoc, Nat.add_comm 1]

end

/-- What comes out of writing a value alone. -/
theorem run_write_eq_ok (v : Value) {bytes : Bytes} :
    Encode.run v.write = .ok bytes ↔ v.Fits ∧ v.encoding = bytes := by
  unfold Encode.run
  cases h : v.write Encoder.empty with
  | ok u enc =>
    obtain ⟨fits, -, rfl⟩ := (write_eq_ok v).mp h
    simp [Encoder.finish, Encoder.add, Encoder.empty, fits]
  | error e enc =>
    refine ⟨nofun, fun ⟨fits, _⟩ => ?_⟩
    have done := (write_eq_ok v).mpr ⟨fits, (nofun : Encoder.empty.HasRoom), rfl⟩
    rw [h] at done
    cases done

end Value

/-! ## Values that do not fit -/

namespace Encode

variable {enc enc' : Encoder}

theorem bind_error {α β : Type} {x : Encode α} {f : α → Encode β} {e : Error}
    (failed : x enc = .error e enc') : (x >>= f) enc = .error e enc' := by
  simp [bind, EStateM.bind, failed]

theorem blob_long {tag : Tag} {data : Bytes} (long : ¬data.length ≤ Bytes.maxLength) :
    blob tag data enc = .error (.blobTooLarge data.length) enc := by
  unfold blob
  rw [if_pos (Nat.not_le.mp long)]
  rfl

/-- A name that is too long is reported when the variant is already open. -/
theorem variantBegin_long {name : String} (room : enc.HasRoom)
    (long : ¬(Bytes.ofText name).length ≤ Bytes.maxLength) :
    variantBegin name enc =
      .error (.blobTooLarge (Bytes.ofText name).length) (inside .variant [] enc) := by
  have opened : beginScope .variant enc = .ok () (inside .variant [] enc) :=
    beginScope_eq_ok.mpr ⟨trivial, room, rfl⟩
  unfold variantBegin
  simp only [bind, EStateM.bind, opened, str, blob_long long]

/-- Writing a container fails on a length if the first failure of what is done for it is one. -/
theorem container_long {scope : Scope} {tag : Tag} {opening calls : Encode Unit} (count : Nat)
    {front body : Bytes} {fills : Prop} (single : scope.single = true → count = 1)
    (opens : opening enc = .ok () (inside scope front enc))
    (written : fills → calls (inside scope front enc) =
      .ok () ⟨⟨scope, count, front ++ body⟩, (inside scope front enc).outer⟩)
    (broken : ¬fills → ∃ n enc', Bytes.maxLength < n ∧
      calls (inside scope front enc) = .error (.blobTooLarge n) enc')
    (long : ¬(fills ∧ (front ++ body).length ≤ Bytes.maxLength)) :
    ∃ n enc', Bytes.maxLength < n ∧ (do opening; calls; endScope scope tag : Encode Unit) enc =
      .error (.blobTooLarge n) enc' := by
  by_cases inner : fills
  · have overflow : ¬(front ++ body).length ≤ Bytes.maxLength := fun short => long ⟨inner, short⟩
    refine ⟨(front ++ body).length, enc.add (tag.unfilled (front ++ body)), Nat.not_le.mp overflow, ?_⟩
    simp only [bind, EStateM.bind, opens, written inner]
    exact (endScope_eq single).trans (if_neg overflow)
  · obtain ⟨n, enc', overflow, failed⟩ := broken inner
    refine ⟨n, enc', overflow, ?_⟩
    simp only [bind, EStateM.bind, opens, failed]

end Encode

namespace Value

mutual

/-- Where there is room for a value, nothing but a length in it can keep it from being written. -/
theorem exists_write_eq_error (v : Value) {enc : Encoder} (room : enc.HasRoom) (long : ¬v.Fits) :
    ∃ n enc', Bytes.maxLength < n ∧ v.write enc = .error (.blobTooLarge n) enc' := by
  match v with
  | .unit | .bool _ | .uint _ | .none => exact absurd trivial long
  | .str _ | .bytes _ => exact ⟨_, _, Nat.not_le.mp long, Encode.blob_long long⟩
  | .some content =>
    exact Encode.container_long 1 (fun _ => rfl)
      (Encode.beginScope_eq_ok.mpr ⟨trivial, room, rfl⟩)
      (fun fits => (write_single content).mpr ⟨fits, rfl⟩)
      (exists_write_eq_error content fun _ => rfl) long
  | .list items =>
    refine Encode.container_long items.length nofun
      (Encode.beginScope_eq_ok.mpr ⟨trivial, room, rfl⟩)
      (fun fit => (writeAll_eq_ok items rfl).mpr ⟨fit, ?_⟩)
      (exists_writeAll_eq_error items rfl) long
    rw [Encode.inside, Nat.zero_add]
  | .variant name content =>
    by_cases named : (Bytes.ofText name).length ≤ Bytes.maxLength
    · exact Encode.container_long 1 (fun _ => rfl)
        (Encode.variantBegin_eq_ok.mpr ⟨named, room, rfl⟩)
        (fun fits => (write_single content).mpr ⟨fits, rfl⟩)
        (exists_write_eq_error content fun _ => rfl) fun fits => long ⟨⟨named, fits.1⟩, fits.2⟩
    · exact ⟨_, _, Nat.not_le.mp named, Encode.bind_error (Encode.variantBegin_long room named)⟩

theorem exists_writeAll_eq_error (vs : List Value) {enc : Encoder}
    (many : enc.top.scope.single = false) (long : ¬AllFit vs) :
    ∃ n enc', Bytes.maxLength < n ∧ writeAll vs enc = .error (.blobTooLarge n) enc' := by
  match vs with
  | [] => exact absurd trivial long
  | v :: vs =>
    have room : enc.HasRoom := fun single => by rw [many] at single; cases single
    by_cases fits : v.Fits
    · have listing : (enc.add v.encoding).top.scope.single = false := many
      obtain ⟨n, enc', overflow, failed⟩ :=
        exists_writeAll_eq_error vs listing fun fit => long ⟨fits, fit⟩
      refine ⟨n, enc', overflow, ?_⟩
      simp only [writeAll, bind, EStateM.bind, (write_eq_ok v).mpr ⟨fits, room, rfl⟩, failed]
    · obtain ⟨n, enc', overflow, failed⟩ := exists_write_eq_error v room fits
      exact ⟨n, enc', overflow, Encode.bind_error failed⟩

end

mutual

/-- No length in a value is more than that of the value. -/
theorem fits_of_length (v : Value) (short : v.encoding.length ≤ Bytes.maxLength) : v.Fits := by
  match v with
  | .unit | .bool _ | .uint _ | .none => trivial
  | .str text =>
    have length : (Tag.string.blob (Bytes.ofText text)).length ≤ Bytes.maxLength := short
    rw [Tag.length_blob] at length
    exact Nat.le_trans (Nat.le_add_left _ _) length
  | .bytes data =>
    have length : (Tag.bytes.blob data).length ≤ Bytes.maxLength := short
    rw [Tag.length_blob] at length
    exact Nat.le_trans (Nat.le_add_left _ _) length
  | .some content =>
    rw [encoding, Tag.length_container] at short
    have length : content.encoding.length ≤ Bytes.maxLength := by omega
    exact ⟨fits_of_length content length, length⟩
  | .list items =>
    rw [encoding, Tag.length_container] at short
    have length : (encodings items).length ≤ Bytes.maxLength := by omega
    exact ⟨allFit_of_length items length, length⟩
  | .variant name content =>
    rw [encoding, Tag.length_container] at short
    have length : (Tag.string.blob (Bytes.ofText name) ++ content.encoding).length ≤
        Bytes.maxLength := by omega
    have parts := length
    rw [List.length_append, Tag.length_blob] at parts
    exact ⟨⟨by omega, fits_of_length content (by omega)⟩, length⟩

theorem allFit_of_length (vs : List Value) (short : (encodings vs).length ≤ Bytes.maxLength) :
    AllFit vs := by
  match vs with
  | [] => trivial
  | v :: vs =>
    rw [encodings, List.length_append] at short
    exact ⟨fits_of_length v (by omega), allFit_of_length vs (by omega)⟩

end

/-- A list fits exactly if its body does. -/
theorem fits_list_iff {items : List Value} :
    (list items).Fits ↔ (list items).encoding.length ≤ 5 + Bytes.maxLength := by
  rw [encoding, Tag.length_container, Nat.add_le_add_iff_left]
  exact ⟨And.right, fun short => ⟨allFit_of_length items short, short⟩⟩

/-- What comes out of writing a value alone that does not fit. -/
theorem exists_run_write_eq_error {v : Value} (long : ¬v.Fits) :
    ∃ n, Bytes.maxLength < n ∧ Encode.run v.write = .error (.blobTooLarge n) := by
  obtain ⟨n, enc', overflow, failed⟩ := exists_write_eq_error v (nofun : Encoder.empty.HasRoom) long
  exact ⟨n, overflow, by rw [Encode.run, failed]⟩

end Value

end Tether.Wire
