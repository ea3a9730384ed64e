import Tether.Proofs.Wire.Varint
import Tether.Stream.Frame

/-!
# Frames read back

A frame whose number fits 64 bits is read back from its bytes. One whose number does not is refused,
so that the bytes of a frame are never taken for another frame.

The payload of a frame has no length of its own, so that the digits of the number alone say where it
begins. That is enough: a reader takes for a frame just the bytes of its kind, any varint of its number,
and its payload. `Faulty` says what is wrong with all other bytes.
-/

namespace Tether.Stream.Frame

open Wire (Varint.Denotes Varint.Broken)

def number : Frame → Nat
  | chunk seq _ => seq
  | sync count | ack count => count

def kind : Frame → UInt8
  | chunk _ _ => 0
  | sync _ => 1
  | ack _ => 2

def tail : Frame → Bytes
  | chunk _ payload => payload
  | sync _ | ack _ => []

theorem encode_eq (f : Frame) : f.encode = f.kind :: (Wire.Varint.encode f.number ++ f.tail) := by
  cases f with
  | chunk seq payload => rfl
  | sync count => simp only [encode, kind, number, tail, List.append_nil]
  | ack count => simp only [encode, kind, number, tail, List.append_nil]

@[simp]
theorem ofParts_self (f : Frame) : ofParts f.kind f.number f.tail = .ok f := by
  cases f <;> rfl

/-- A frame is read back if its number fits 64 bits. -/
theorem decode_encode {f : Frame} (h : f.number < UInt64.size) : decode f.encode = .ok f := by
  simp only [encode_eq, decode, Wire.Varint.decode_encode h, List.drop_left, ofParts_self]

/-- The bytes of a frame are refused if its number needs more than 64 bits. -/
theorem decode_encode_overflow {f : Frame} (h : UInt64.size ≤ f.number) :
    ∃ e, decode f.encode = .error e := by
  simp only [encode_eq, decode, Wire.Varint.decode_encode_overflow h]
  exact ⟨_, rfl⟩

/-- The bytes of a frame stand for no other frame. -/
theorem eq_of_decode_encode {f g : Frame} (h : decode f.encode = .ok g) : g = f := by
  by_cases fits : f.number < UInt64.size
  · rw [decode_encode fits] at h
    injection h with h
    exact h.symm
  · obtain ⟨e, refused⟩ := decode_encode_overflow (Nat.le_of_not_lt fits)
    rw [refused] at h
    cases h

/-! ## What is taken for a frame -/

theorem ofParts_eq_ok_iff {kind : UInt8} {n : Nat} {rest : Bytes} {f : Frame} :
    ofParts kind n rest = .ok f ↔ kind = f.kind ∧ n = f.number ∧ rest = f.tail := by
  constructor
  · intro made
    unfold ofParts at made
    split at made
    · next data =>
      cases made
      exact ⟨data, rfl, rfl⟩
    · split at made
      · next control =>
        split at made
        · cases made
        · next empty =>
          have none' : rest = [] := Decidable.not_not.mp empty
          split at made
          · next sync =>
            cases made
            exact ⟨sync, rfl, none'⟩
          · next other =>
            cases made
            exact ⟨control.resolve_left other, rfl, none'⟩
      · cases made
  · rintro ⟨rfl, rfl, rfl⟩
    exact ofParts_self f

/-- A reader takes for a frame its kind, a varint of its number, and its payload, and nothing else. -/
theorem decode_eq_ok_iff {bytes : Bytes} {f : Frame} :
    decode bytes = .ok f ↔
      ∃ digits, Varint.Denotes digits f.number ∧ bytes = f.kind :: (digits ++ f.tail) := by
  constructor
  · intro read
    unfold decode at read
    split at read
    · cases read
    · next kind rest =>
      split at read
      · cases read
      · next n used found =>
        obtain ⟨digits, rest, rfl, rfl, denotes⟩ := Wire.Varint.decode_eq_ok_iff.mp found
        rw [List.drop_left] at read
        obtain ⟨rfl, rfl, rfl⟩ := ofParts_eq_ok_iff.mp read
        exact ⟨digits, denotes, rfl⟩
  · rintro ⟨digits, denotes, rfl⟩
    have found := Wire.Varint.decode_eq_ok_iff.mpr ⟨digits, f.tail, rfl, rfl, denotes⟩
    simp only [decode, found, List.drop_left, ofParts_self]

/-- Bytes that are no frame, with what is wrong with them. -/
inductive Faulty : Bytes → String → Prop where
  | empty : Faulty [] "empty frame"
  /-- There is no number behind the kind. -/
  | header {kind : UInt8} {rest : Bytes} {e : Wire.Error}
    (broken : Varint.Broken Wire.Varint.maxLength rest e) :
    Faulty (kind :: rest) s!"bad frame header: {e.message}"
  /-- There is something behind a count. -/
  | trailing {kind : UInt8} {digits rest : Bytes} {n : Nat} (count : kind = 1 ∨ kind = 2)
    (denotes : Varint.Denotes digits n) (more : rest ≠ []) :
    Faulty (kind :: (digits ++ rest)) s!"{rest.length} trailing bytes after control frame"
  /-- There is a number, but no frame is of such a kind. -/
  | unknown {kind : UInt8} {digits rest : Bytes} {n : Nat} (other : ∀ f : Frame, f.kind ≠ kind)
    (denotes : Varint.Denotes digits n) :
    Faulty (kind :: (digits ++ rest)) s!"unknown frame kind {kind.toNat}"

theorem decode_of_faulty {bytes : Bytes} {detail : String} (faulty : Faulty bytes detail) :
    decode bytes = .error (.protocolViolation detail) := by
  cases faulty with
  | empty => rfl
  | header broken => simp only [decode, Wire.Varint.decode_eq_error_iff.mpr broken]
  | @trailing kind digits rest n count denotes more =>
    have found := Wire.Varint.decode_eq_ok_iff.mpr ⟨digits, rest, rfl, rfl, denotes⟩
    have notData : kind ≠ 0 := by rcases count with rfl | rfl <;> decide
    simp only [decode, found, List.drop_left, ofParts, if_neg notData, if_pos count, if_pos more]
  | @unknown kind digits rest n other denotes =>
    have found := Wire.Varint.decode_eq_ok_iff.mpr ⟨digits, rest, rfl, rfl, denotes⟩
    have notData : kind ≠ 0 := (other (.chunk 0 [])).symm
    have notCount : ¬(kind = 1 ∨ kind = 2) :=
      not_or.mpr ⟨(other (.sync 0)).symm, (other (.ack 0)).symm⟩
    simp only [decode, found, List.drop_left, ofParts, if_neg notData, if_neg notCount]

/-- Bytes are refused only if they are faulty, and the peer is accused of just that. -/
theorem decode_eq_error_iff {bytes : Bytes} {e : Error} :
    decode bytes = .error e ↔ ∃ detail, Faulty bytes detail ∧ e = .protocolViolation detail := by
  constructor
  · intro refused
    unfold decode at refused
    split at refused
    · cases refused
      exact ⟨_, .empty, rfl⟩
    · next kind rest =>
      split at refused
      · next e' broken =>
        cases refused
        exact ⟨_, .header (Wire.Varint.decode_eq_error_iff.mp broken), rfl⟩
      · next n used found =>
        obtain ⟨digits, rest, rfl, rfl, denotes⟩ := Wire.Varint.decode_eq_ok_iff.mp found
        rw [List.drop_left] at refused
        unfold ofParts at refused
        split at refused
        · cases refused
        · next notData =>
          split at refused
          · next count =>
            split at refused
            · next more =>
              cases refused
              exact ⟨_, .trailing count denotes more, rfl⟩
            · split at refused <;> cases refused
          · next notCount =>
            cases refused
            refine ⟨_, .unknown (fun f => ?_) denotes, rfl⟩
            cases f with
            | chunk => exact Ne.symm notData
            | sync => exact fun same => notCount (.inl same.symm)
            | ack => exact fun same => notCount (.inr same.symm)
  · rintro ⟨detail, faulty, rfl⟩
    exact decode_of_faulty faulty

/-- Frames are exact.

* The bytes of a frame are its kind, the shortest varint of its number, and its payload; a frame is read
  back from them if its number fits 64 bits.
* Bytes are taken for a frame if and only if they are its kind, a varint of at most ten bytes for its
  number, and its payload, of which a count has none.
* All other bytes are refused as a fault of the peer: there are none, no number stands behind the kind,
  something stands behind a count, or the kind is none of the three. -/
theorem decoded_frames_alone :
    (∀ f : Frame, f.encode = f.kind :: (Wire.Varint.encode f.number ++ f.tail) ∧
      (f.number < UInt64.size → decode f.encode = .ok f)) ∧
    (∀ bytes f, decode bytes = .ok f ↔
      ∃ digits, Varint.Denotes digits f.number ∧ bytes = f.kind :: (digits ++ f.tail)) ∧
    ∀ bytes e, decode bytes = .error e ↔
      ∃ detail, Faulty bytes detail ∧ e = .protocolViolation detail :=
  ⟨fun f => ⟨f.encode_eq, decode_encode⟩, fun _ _ => decode_eq_ok_iff,
    fun _ _ => decode_eq_error_iff⟩

/-- A payload that looks like more of a number is told from it. -/
example : decode [0, 0xac, 0x02, 0x80, 0x01] = .ok (.chunk 300 [0x80, 0x01]) := rfl

end Tether.Stream.Frame
