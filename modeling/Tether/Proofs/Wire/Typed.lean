import Tether.Proofs.Wire.Reading
import Tether.Wire.Typed

/-!
# Typed values read back

Packing a typed value writes the tree of the value, and unpacking reads the forms of such trees. So
a type is unpacked from exactly the bytes that packing writes, but for the choice of varints.
-/

namespace Tether.Wire

namespace Ty

/-- The tree of a typed value. -/
def value : (ty : Ty) → ty.Val → Value
  | unit, _ => .unit
  | bool, b => .bool b
  | u64, n => .uint n
  | u32, n => .uint n.toUInt64
  | string, text => .str text
  | bytes, data => .bytes data
  | option _, none => .none
  | option content, some v => .some (content.value v)

theorem pack_eq_write (ty : Ty) (v : ty.Val) : ty.pack v = (ty.value v).write := by
  induction ty with
  | unit | bool | u64 | u32 | string | bytes => rfl
  | option content ih =>
    cases v with
    | none => rfl
    | some v => simp only [pack, value, Value.write, ih]

theorem narrow_eq_ok (n : UInt64) (view rest : Bytes) (m : UInt32) :
    narrow n view = .ok m rest ↔ m.toUInt64 = n ∧ view = rest := by
  unfold narrow
  split
  · next fits =>
    have same : n.toUInt32 = m ↔ m.toUInt64 = n := by
      rw [← UInt32.toNat_inj, ← UInt64.toNat_inj, UInt64.toNat_toUInt32, UInt32.toNat_toUInt64,
        Nat.mod_eq_of_lt fits, eq_comm]
    rw [Decode.pure_eq_ok, same]
  · next long =>
    refine ⟨nofun, ?_⟩
    rintro ⟨rfl, -⟩
    exact absurd m.toNat_lt long

/-- The content of a present option is read in a view of its own. -/
theorem silent_unpack (content : Ty)
    (ih : Decode.Accepts content.unpack fun v wire => (content.value v).Form Varint.Denotes wire)
    (body : Option Bytes) (view rest : Bytes) (v : Option content.Val) :
    (match body with
        | none => pure none
        | some inner => do return some (← Decode.within inner content.unpack) :
          Decode (Option content.Val)) view = .ok v rest ↔
      (body = none ∧ v = none ∨ ∃ inner w, body = some inner ∧ v = some w ∧
        (content.value w).Form Varint.Denotes inner) ∧ view = rest := by
  cases body with
  | none =>
    refine Decode.pure_eq_ok.trans ⟨?_, ?_⟩
    · rintro ⟨rfl, rfl⟩
      exact ⟨.inl ⟨rfl, rfl⟩, rfl⟩
    · rintro ⟨⟨-, rfl⟩ | ⟨inner, w, none, -⟩, rfl⟩
      · exact ⟨rfl, rfl⟩
      · cases none
  | some inner =>
    refine Decode.bind_eq_ok.trans ⟨?_, ?_⟩
    · rintro ⟨w, mid, inside, last⟩
      obtain ⟨shape, rfl⟩ := ih.within_eq_ok.mp inside
      obtain ⟨rfl, rfl⟩ := Decode.pure_eq_ok.mp last
      exact ⟨.inr ⟨inner, w, rfl, rfl, shape⟩, rfl⟩
    · rintro ⟨⟨none, -⟩ | ⟨inner', w, same, rfl, shape⟩, rfl⟩
      · cases none
      · cases same
        exact ⟨w, view, ih.within_eq_ok.mpr ⟨shape, rfl⟩, rfl⟩

/-- A type is unpacked from the forms of its values. -/
theorem accepts_unpack (ty : Ty) :
    Decode.Accepts ty.unpack fun v wire => (ty.value v).Form Varint.Denotes wire := by
  induction ty with
  | unit => exact Decode.accepts_unit
  | bool => exact Decode.accepts_bool
  | u64 => exact Decode.accepts_uint
  | u32 =>
    refine (Decode.accepts_uint.settle narrow_eq_ok).congr fun m wire => ?_
    constructor
    · rintro ⟨_, shape, rfl⟩
      exact shape
    · intro shape
      exact ⟨_, shape, rfl⟩
  | string => exact Decode.accepts_str
  | bytes => exact Decode.accepts_bytes
  | option content ih =>
    refine (Decode.accepts_option.settle (content.silent_unpack ih)).congr fun v wire => ?_
    constructor
    · rintro ⟨body, shape, ⟨rfl, rfl⟩ | ⟨inner, w, rfl, rfl, inside⟩⟩
      · exact shape
      · exact ⟨inner, inside, shape⟩
    · intro shape
      cases v with
      | none => exact ⟨none, shape, .inl ⟨rfl, rfl⟩⟩
      | some w =>
        obtain ⟨inner, inside, outside⟩ := shape
        exact ⟨some inner, outside, .inr ⟨inner, w, rfl, rfl, inside⟩⟩

end Ty

/-- Unpacking takes exactly the forms of the values of a type. Packing writes the form with the
shortest varints, if every length in the value fits its field, so what was packed is unpacked; and
no bytes are forms of two values. -/
theorem unpacked_iff_form (ty : Ty) (v : ty.Val) :
    (∀ bytes, unpacked ty bytes = .ok v ↔ (ty.value v).Form Varint.Denotes bytes) ∧
      (∀ bytes, packed ty v = .ok bytes ↔
        (ty.value v).Fits ∧ (ty.value v).Form Varint.Shortest bytes) ∧
      (∀ bytes, packed ty v = .ok bytes → unpacked ty bytes = .ok v) ∧
      ∀ bytes w, (ty.value v).Form Varint.Denotes bytes → (ty.value w).Form Varint.Denotes bytes →
        v = w := by
  have unpacks : ∀ bytes (w : ty.Val),
      unpacked ty bytes = .ok w ↔ (ty.value w).Form Varint.Denotes bytes :=
    fun bytes w => ty.accepts_unpack.whole_eq_ok
  have packs : ∀ bytes, packed ty v = .ok bytes ↔
      (ty.value v).Fits ∧ (ty.value v).encoding = bytes := by
    intro bytes
    rw [packed, ty.pack_eq_write, Value.run_write_eq_ok]
  refine ⟨fun bytes => unpacks bytes v, fun bytes => ?_, fun bytes => ?_, fun bytes w => ?_⟩
  · rw [packs]
    constructor
    · rintro ⟨fits, rfl⟩
      exact ⟨fits, Value.form_encoding (fun _ _ => rfl) _ fits⟩
    · rintro ⟨fits, shape⟩
      exact ⟨fits, (Value.eq_encoding_of_form _ shape).symm⟩
  · intro written
    obtain ⟨fits, rfl⟩ := (packs bytes).mp written
    exact (unpacks _ v).mpr (Value.denotes_encoding fits)
  · intro shape shape'
    have same := ((unpacks bytes v).mpr shape).symm.trans ((unpacks bytes w).mpr shape')
    cases same
    rfl

/-- A present number under a varint that is longer than it needs to be. -/
example : unpacked (.option .u64) [0x30, 3, 0, 0, 0, 0x04, 0x81, 0x00] = .ok (some 1) := by
  cbv

end Tether.Wire
