import Tether.Proofs.Wire.Forest
import Tether.Session.Envelope

/-!
# Envelopes read back

An envelope is written as a value, so what is known of values tells when it can be packed and what
its bytes are. It is read through two mechanisms, the items of lists, which are cut out first, and the
bodies of variants, which are read in place; each has an end to check. One lemma for each says that the
read accepts the forms of the value that was written and no more, and these lemmas follow the nesting of
an envelope from the inside out.
-/

namespace Tether.Session

open Wire (Decode Value)

def Reason.value : Reason → Value
  | .closed => .variant "Closed" .unit
  | .gone => .variant "Gone" .unit
  | .off => .variant "Off" .unit
  | .protocol detail => .variant "Protocol" (.str detail)

def Content.value : Content → Value
  | .payload seq data => .variant "Payload" (.list [.uint seq, .bytes data])
  | .abort reason => .variant "Abort" reason.value

/-- The value that an envelope is written as. -/
def Envelope.value (e : Envelope) : Value :=
  .list [.uint e.conn.val, e.content.value]

theorem Reason.pack_eq_write (r : Reason) : r.pack = r.value.write := by
  cases r <;> rfl

theorem Content.pack_eq_write (c : Content) : c.pack = c.value.write := by
  cases c with
  | payload seq data => simp [pack, value, Value.write, Value.writeAll]
  | abort reason => simp only [pack, value, Value.write, reason.pack_eq_write]

theorem Envelope.pack_eq_write (e : Envelope) : e.pack = e.value.write := by
  simp [pack, value, Value.write, Value.writeAll, e.content.pack_eq_write]

/-- An envelope can be packed exactly if every length in it fits its field. -/
theorem Envelope.packed_eq_ok {e : Envelope} {bytes : Bytes} :
    e.packed = .ok bytes ↔ e.value.Fits ∧ e.value.encoding = bytes := by
  rw [packed, pack_eq_write, Value.run_write_eq_ok]

/-- That is a matter of how long the whole is. -/
theorem Envelope.fits_iff {e : Envelope} :
    e.value.Fits ↔ e.value.encoding.length ≤ 5 + Bytes.maxLength :=
  Value.fits_list_iff

/-- An envelope that is too long is refused for a length. -/
theorem Envelope.exists_packed_eq_error {e : Envelope}
    (long : 5 + Bytes.maxLength < e.value.encoding.length) :
    ∃ n, Bytes.maxLength < n ∧ e.packed = .error (.blobTooLarge n) := by
  rw [packed, pack_eq_write]
  exact Value.exists_run_write_eq_error (mt fits_iff.mp (Nat.not_le.mpr long))

/-! ## Reading -/

section Reading

variable {α β : Type} {read : Decode α} {first : Decode α} {second : Decode β}
  {f : α → Value} {g : β → Value}

/-- A read accepts the forms of the values that stand for what it gives. -/
def Reads (read : Decode α) (f : α → Value) : Prop :=
  read.Accepts fun a wire => (f a).Form Wire.Varint.Denotes wire

/-- An item of a list is one value that fills its view. -/
theorem reads_item (h : Reads read f) : Reads (item read) f := by
  intro view rest a
  rw [item, Decode.bind_eq_ok]
  constructor
  · rintro ⟨found, mid, cut, given⟩
    cases found with
    | none => cases given
    | some front =>
      obtain ⟨shape, rfl⟩ := h.within_eq_ok.mp given
      exact ⟨front, shape, Decode.eq_append_of_nextItem cut⟩
  · rintro ⟨front, shape, rfl⟩
    exact ⟨some front, rest, Decode.nextItem_form shape, h.within_eq_ok.mpr ⟨shape, rfl⟩⟩

theorem endOfList_eq_ok {view rest : Bytes} :
    endOfList view = .ok () rest ↔ view = [] ∧ rest = [] := by
  rw [endOfList, Decode.bind_eq_ok]
  constructor
  · rintro ⟨found, mid, cut, given⟩
    cases found with
    | none =>
      obtain ⟨-, rfl⟩ := Decode.pure_eq_ok.mp given
      exact Decode.nextItem_eq_none.mp cut
    | some extra => cases given
  · intro ended
    exact ⟨none, rest, Decode.nextItem_eq_none.mpr ended, rfl⟩

theorem inner_eq_ok {items view rest : Bytes} {a : α} :
    inner items read view = .ok a rest ↔ (∃ left, read items = .ok a left) ∧ view = rest := by
  unfold inner
  cases found : read items with
  | ok b left =>
    rw [Decode.pure_eq_ok]
    constructor
    · rintro ⟨rfl, rfl⟩
      exact ⟨⟨left, rfl⟩, rfl⟩
    · rintro ⟨⟨_, same⟩, rfl⟩
      cases same
      exact ⟨rfl, rfl⟩
  | error e left => exact ⟨nofun, fun ⟨⟨_, given⟩, _⟩ => nomatch given⟩

/-- A pair is a list of two items, no fewer and no more. -/
theorem reads_pair (h : Reads first f) (h' : Reads second g) :
    Reads (pair first second) fun p => .list [f p.1, g p.2] := by
  have items (body left : Bytes) (p : α × β) : (do
      let a ← item first
      let b ← item second
      endOfList
      return (a, b) : Decode (α × β)) body = .ok p left ↔
        Value.Forms Wire.Varint.Denotes [f p.1, g p.2] body ∧ left = [] := by
    simp only [Decode.bind_eq_ok]
    constructor
    · rintro ⟨a, mid, one, b, last, two, ⟨⟩, _, ended, given⟩
      obtain ⟨rfl, rfl⟩ := Decode.pure_eq_ok.mp given
      obtain ⟨rfl, rfl⟩ := endOfList_eq_ok.mp ended
      obtain ⟨front, shape, rfl⟩ := (reads_item h _ _ _).mp one
      obtain ⟨back, shape', rfl⟩ := (reads_item h' _ _ _).mp two
      exact ⟨⟨front, _, shape, ⟨back, [], shape', rfl, rfl⟩, rfl⟩, rfl⟩
    · rintro ⟨⟨front, _, shape, ⟨back, _, shape', rfl, rfl⟩, rfl⟩, rfl⟩
      exact ⟨p.1, back ++ [], (reads_item h).append shape _, p.2, [],
        (reads_item h').append shape' _, (), [], endOfList_eq_ok.mpr ⟨rfl, rfl⟩, rfl⟩
  refine ((Decode.accepts_container .list).settle fun _ _ _ _ => inner_eq_ok).congr
    fun p wire => ?_
  constructor
  · rintro ⟨body, outer, left, given⟩
    exact ⟨body, ((items _ _ _).mp given).1, outer⟩
  · rintro ⟨body, shapes, outer⟩
    exact ⟨body, outer, [], (items _ _ _).mpr ⟨shapes, rfl⟩⟩

/-- A variant is a name and one value that fills its body. -/
theorem reads_variant {read : String → Decode α} (variant : ∀ a, ∃ name v, f a = .variant name v)
    (h : ∀ name, (read name).Accepts fun a wire =>
      ∃ v, f a = .variant name v ∧ v.Form Wire.Varint.Denotes wire) :
    Reads (do
      let (name, body) ← Decode.variant
      Decode.within body (read name)) f := by
  have body (named : String × Bytes) (view rest : Bytes) (a : α) :
      Decode.within named.2 (read named.1) view = .ok a rest ↔
        (∃ v, f a = .variant named.1 v ∧ v.Form Wire.Varint.Denotes named.2) ∧ view = rest :=
    (h named.1).within_eq_ok
  refine (Decode.accepts_variant.settle body).congr fun a wire => ?_
  constructor
  · rintro ⟨⟨name, body⟩, ⟨front, named, outer⟩, v, same, inside⟩
    rw [same]
    exact ⟨front, body, named, inside, outer⟩
  · intro shape
    obtain ⟨name, v, same⟩ := variant a
    rw [same] at shape
    obtain ⟨front, body, named, inside, outer⟩ := shape
    exact ⟨(name, body), ⟨front, named, outer⟩, v, same, inside⟩

end Reading

/-- What may stand in the body of a reason's variant. -/
theorem Reason.accepts_unpackNamed (name : String) :
    (unpackNamed name).Accepts fun r wire =>
      ∃ v, r.value = .variant name v ∧ v.Form Wire.Varint.Denotes wire := by
  unfold unpackNamed
  split
  · refine (Decode.accepts_unit.map fun _ => closed).congr fun r wire => ?_
    cases r <;> simp [value]
  · refine (Decode.accepts_unit.map fun _ => gone).congr fun r wire => ?_
    cases r <;> simp [value]
  · refine (Decode.accepts_unit.map fun _ => off).congr fun r wire => ?_
    cases r <;> simp [value]
  · refine (Decode.accepts_str.map protocol).congr fun r wire => ?_
    cases r <;> simp [value]
  · refine (Decode.accepts_throw _).congr fun r wire => ⟨False.elim, ?_⟩
    rintro ⟨v, same, -⟩
    cases r <;> cases same <;> contradiction

theorem Reason.reads_unpack : Reads Reason.unpack value :=
  reads_variant (fun r => by cases r <;> exact ⟨_, _, rfl⟩) accepts_unpackNamed

/-- What may stand in the body of a content's variant. -/
theorem Content.accepts_unpackNamed (name : String) :
    (unpackNamed name).Accepts fun c wire =>
      ∃ v, c.value = .variant name v ∧ v.Form Wire.Varint.Denotes wire := by
  unfold unpackNamed
  split
  · have numbered := reads_pair Decode.accepts_uint Decode.accepts_bytes
    refine (numbered.map fun p => payload p.1 p.2).congr fun c wire => ?_
    cases c <;> simp [value]
  · refine (Reason.reads_unpack.map abort).congr fun c wire => ?_
    cases c <;> simp [value]
  · refine (Decode.accepts_throw _).congr fun c wire => ⟨False.elim, ?_⟩
    rintro ⟨v, same, -⟩
    cases c <;> cases same <;> contradiction

theorem Content.reads_unpack : Reads Content.unpack value :=
  reads_variant (fun c => by cases c <;> exact ⟨_, _, rfl⟩) accepts_unpackNamed

/-- An envelope is read from its forms. -/
theorem Envelope.reads_unpack : Reads Envelope.unpack value := by
  refine ((reads_pair Decode.accepts_uint Content.reads_unpack).map fun p =>
    Envelope.mk ⟨p.1⟩ p.2).congr fun e wire => ?_
  constructor
  · rintro ⟨p, shape, rfl⟩
    exact shape
  · intro shape
    exact ⟨(e.conn.val, e.content), shape, rfl⟩

/-- An envelope that can be packed is read back. -/
theorem Envelope.unpacked_of_packed {e : Envelope} {bytes : Bytes} (h : e.packed = .ok bytes) :
    Envelope.unpacked bytes = .ok e := by
  obtain ⟨fits, rfl⟩ := packed_eq_ok.mp h
  exact reads_unpack.whole_eq_ok.mpr (Value.denotes_encoding fits)

/-- Nothing but envelopes is read. An envelope is packed if every length in it fits its field, to the
form of its value with the shortest varints, and is read back from there. Bytes are read as an envelope
exactly if they are a form of its value, whatever varints they hold. So of all values, those of
envelopes alone are read, and only with nothing behind them. -/
theorem Envelope.unpacked_envelopes_alone (e : Envelope) :
    (∀ bytes, e.packed = .ok bytes ↔
        e.value.Fits ∧ e.value.Form Wire.Varint.Shortest bytes) ∧
      (∀ bytes, e.packed = .ok bytes → Envelope.unpacked bytes = .ok e) ∧
      (∀ bytes, Envelope.unpacked bytes = .ok e ↔ e.value.Form Wire.Varint.Denotes bytes) ∧
      ∀ (v : Value) wire extra, v.Form Wire.Varint.Denotes wire →
        (Envelope.unpacked (wire ++ extra) = .ok e ↔ v = e.value ∧ extra = []) := by
  have reads (bytes : Bytes) :
      Envelope.unpacked bytes = .ok e ↔ e.value.Form Wire.Varint.Denotes bytes :=
    reads_unpack.whole_eq_ok
  refine ⟨fun bytes => ?_, fun _ => unpacked_of_packed, reads, ?_⟩
  · rw [packed_eq_ok]
    apply and_congr_right
    intro fits
    constructor
    · rintro rfl
      exact Value.form_encoding (fun _ _ => rfl) _ fits
    · intro shape
      exact (Value.eq_encoding_of_form _ shape).symm
  · intro v wire extra shape
    rw [reads]
    constructor
    · intro whole
      exact Value.eq_of_form shape whole
    · rintro ⟨rfl, rfl⟩
      rwa [List.append_nil]

/-- A third item, behind the number and what is said. -/
example : Envelope.unpacked
    [0x20, 26, 0, 0, 0, 0x04, 1, 0x33, 18, 0, 0, 0, 0x10, 5, 0x41, 0x62, 0x6f, 0x72, 0x74,
      0x33, 6, 0, 0, 0, 0x10, 3, 0x4f, 0x66, 0x66, 0x01, 0x01] = .error (.trailingBytes 1) := by
  cbv

/-! ## How long envelopes are -/

theorem length_payloadName : (Wire.Tag.string.blob (Bytes.ofText "Payload")).length = 9 := by
  decide +kernel

/-- A payload is in its envelope with its length, its number and that of its connection. -/
theorem Envelope.length_payload (id : ConnId) (seq : UInt64) (data : Bytes) :
    (⟨id, .payload seq data⟩ : Envelope).value.encoding.length =
      27 + (Wire.Varint.encode id.val.toNat).length + (Wire.Varint.encode seq.toNat).length +
        (Wire.Varint.encode data.length).length + data.length := by
  simp only [value, Content.value, Value.encoding, Value.encodings, Wire.Tag.length_container,
    Wire.Tag.length_blob, List.length_append, List.length_cons, List.length_nil]
  have name := length_payloadName
  rw [Wire.Tag.length_blob] at name
  omega

theorem length_abortName : (Wire.Tag.string.blob (Bytes.ofText "Abort")).length = 7 := by
  decide +kernel

/-- An abort is as long as its reason and the number of its connection make it. -/
theorem Envelope.length_abort (id : ConnId) (reason : Reason) :
    (⟨id, .abort reason⟩ : Envelope).value.encoding.length =
      18 + (Wire.Varint.encode id.val.toNat).length + reason.value.encoding.length := by
  simp only [value, Content.value, Value.encoding, Value.encodings, Wire.Tag.length_container,
    List.length_append, List.length_cons, List.length_nil, length_abortName]
  omega

/-- An abort can be packed if its reason is short. -/
theorem Envelope.packed_abort (id : ConnId) {reason : Reason}
    (short : reason.value.encoding.length ≤ 255) :
    (⟨id, .abort reason⟩ : Envelope).packed =
      .ok (⟨id, .abort reason⟩ : Envelope).value.encoding := by
  refine Envelope.packed_eq_ok.mpr ⟨fits_iff.mpr ?_, rfl⟩
  have number := Wire.Varint.length_encode_toNat_le id.val
  rw [length_abort]
  unfold Wire.Varint.maxLength at number
  unfold Bytes.maxLength
  omega

/-- The reasons without a text are short. -/
theorem Reason.length_bare {reason : Reason} (bare : reason = .closed ∨ reason = .gone ∨ reason = .off) :
    reason.value.encoding.length ≤ 14 := by
  obtain rfl | rfl | rfl := bare <;> decide +kernel

/-- Such an abort can be packed, whatever the connection, and is short. -/
theorem Envelope.exists_packed_bare (id : ConnId) {reason : Reason}
    (bare : reason = .closed ∨ reason = .gone ∨ reason = .off) :
    ∃ bytes, (⟨id, .abort reason⟩ : Envelope).packed = .ok bytes ∧ bytes ≠ [] ∧
      bytes.length ≤ 42 := by
  have short := Reason.length_bare bare
  have length := length_abort id reason
  have number := Wire.Varint.length_encode_toNat_le id.val
  unfold Wire.Varint.maxLength at number
  exact ⟨_, packed_abort id (by omega), nofun, by omega⟩

/-- A reason with a short text is as long as the text makes it. -/
theorem Reason.length_protocol {detail : String} (short : detail.utf8ByteSize < 128) :
    (Reason.protocol detail).value.encoding.length = 17 + detail.utf8ByteSize := by
  have name : (Wire.Tag.string.blob (Bytes.ofText "Protocol")).length = 10 := by decide +kernel
  have text : (Wire.Tag.string.blob (Bytes.ofText detail)).length = 2 + detail.utf8ByteSize := by
    have one : Wire.Varint.encode detail.utf8ByteSize = [UInt8.ofNat detail.utf8ByteSize] := by
      rw [Wire.Varint.encode, if_pos short]
    rw [Wire.Tag.length_blob, Bytes.length_ofText, one]
    rfl
  change (Wire.Tag.variant.container (_ ++ Wire.Tag.string.blob (Bytes.ofText detail))).length = _
  rw [Wire.Tag.length_container, List.length_append, name, text]
  omega

end Tether.Session
