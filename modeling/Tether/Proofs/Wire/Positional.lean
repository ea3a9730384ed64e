import Mathlib.Algebra.BigOperators.Ring.Finset
import Mathlib.Tactic.Ring
import Tether.Proofs.Wire.Varint

/-!
# Varints place by place

Where a varint ends and what it is worth can be said by the places of the input alone: it ends at the
first byte below 128, and each byte counts seven bits with the weight of its place. The reader gives
just that, as an exact number, wherever ten places and 64 bits are enough; and whether it takes its
input for cut off or for too large is seen from the first ten bytes.

Reader and writer are said here a second time, as loops over a register of 64 bits that shift and
mask. The register never loses a bit: the loops compute what the exact ones do.
-/

namespace Tether.Wire.Varint

/-! ## Places -/

/-- The sum of the first `count` digits, each with the weight of its place. -/
def worth (bytes : Bytes) (count : Nat) : Nat :=
  ∑ i ∈ Finset.range count, (bytes.getD i 0).toNat % 128 * 128 ^ i

/-- The place of the last digit: the first byte without the high bit. -/
def lastPlace? (bytes : Bytes) : Option Nat :=
  bytes.findIdx? (· < 128)

theorem worth_cons (b : UInt8) (bytes : Bytes) (count : Nat) :
    worth (b :: bytes) (count + 1) = b.toNat % 128 + 128 * worth bytes count := by
  simp only [worth, Finset.sum_range_succ', List.getD_cons_succ, List.getD_cons_zero, pow_succ,
    pow_zero, Nat.mul_one, Finset.mul_sum]
  rw [Nat.add_comm]
  congr 1
  exact Finset.sum_congr rfl fun i _ => by ring

theorem lastPlace?_low {b : UInt8} (low : b < 128) (bytes : Bytes) :
    lastPlace? (b :: bytes) = some 0 := by
  simp [lastPlace?, List.findIdx?_cons, low]

theorem lastPlace?_marked {b : UInt8} (marked : ¬b < 128) (bytes : Bytes) :
    lastPlace? (b :: bytes) = (lastPlace? bytes).map (· + 1) := by
  simp [lastPlace?, List.findIdx?_cons, marked]

theorem worth_low {b : UInt8} (low : b < 128) (bytes : Bytes) : worth (b :: bytes) 1 = b.toNat := by
  rw [UInt8.lt_iff_toNat_lt] at low
  rw [worth_cons]
  simp only [worth, Finset.range_zero, Finset.sum_empty, Nat.mul_zero, Nat.add_zero]
  exact Nat.mod_eq_of_lt low

/-- Digits end at the first byte without the high bit, and are worth their number. -/
theorem Digits.places {digits : Bytes} {n : Nat} (spelled : Digits digits n) (rest : Bytes) :
    ∃ last, digits.length = last + 1 ∧ lastPlace? (digits ++ rest) = some last ∧
      n = worth (digits ++ rest) (last + 1) := by
  induction spelled with
  | @last b low => exact ⟨0, rfl, lastPlace?_low low rest, (worth_low low rest).symm⟩
  | @more b digits high marked spelled ih =>
    obtain ⟨last, length, found, rfl⟩ := ih
    refine ⟨last + 1, congrArg Nat.succ length, ?_, (worth_cons b _ _).symm⟩
    rw [List.cons_append, lastPlace?_marked marked, found]
    rfl

/-- The bytes up to the first one without the high bit are digits. -/
theorem digits_take {bytes : Bytes} {last : Nat} (found : lastPlace? bytes = some last) :
    last < bytes.length ∧ Digits (bytes.take (last + 1)) (worth bytes (last + 1)) := by
  induction bytes generalizing last with
  | nil => cases found
  | cons b bytes ih =>
    by_cases low : b < 128
    · rw [lastPlace?_low low] at found
      cases found
      rw [worth_low low]
      exact ⟨Nat.succ_pos _, .last low⟩
    · rw [lastPlace?_marked low] at found
      obtain ⟨before, earlier, rfl⟩ := Option.map_eq_some_iff.mp found
      obtain ⟨inside, spelled⟩ := ih earlier
      rw [worth_cons]
      exact ⟨Nat.succ_lt_succ inside, .more low spelled⟩

/-- What is read ends at the first byte without the high bit, if ten places and 64 bits are enough. -/
theorem decode_eq_ok_iff_places {bytes : Bytes} {n used : Nat} :
    decode bytes = .ok (n, used) ↔
      ∃ last, used = last + 1 ∧ used ≤ maxLength ∧ lastPlace? bytes = some last ∧
        n = worth bytes used ∧ n < UInt64.size := by
  rw [decode_eq_ok_iff]
  constructor
  · rintro ⟨digits, rest, rfl, rfl, spelled, short, fits⟩
    obtain ⟨last, length, found, worthy⟩ := spelled.places rest
    exact ⟨last, length, short, found, length ▸ worthy, fits⟩
  · rintro ⟨last, rfl, short, found, rfl, fits⟩
    obtain ⟨inside, spelled⟩ := digits_take found
    have length : (bytes.take (last + 1)).length = last + 1 := List.length_take_of_le inside
    exact ⟨_, _, (List.take_append_drop _ bytes).symm, length, spelled, length.symm ▸ short, fits⟩

/-! ## Refusals -/

theorem decode_eq_varintOverflow {bytes : Bytes} :
    decode bytes = .error .varintOverflow ↔
      ∃ tenth, bytes[9]? = some tenth ∧ 1 < tenth ∧ ∀ b ∈ bytes.take 9, 128 ≤ b := by
  simp only [decode_eq_error_iff, ← @UInt8.not_lt _ 128]
  constructor
  · rintro (_ | @⟨digits, rest, tenth, marked, last, big⟩)
    have nine : digits.length = 9 := Nat.succ.inj last
    refine ⟨tenth, ?_, big, ?_⟩
    · rw [← nine, List.getElem?_append_right (Nat.le_refl _), Nat.sub_self]
      rfl
    · rwa [← nine, List.take_left]
  · rintro ⟨tenth, found, big, marked⟩
    obtain ⟨inside, rfl⟩ := List.getElem?_eq_some_iff.mp found
    have split : bytes = bytes.take 9 ++ bytes[9] :: bytes.drop 10 := by
      rw [← List.drop_eq_getElem_cons inside, List.take_append_drop]
    rw [split]
    exact .overflows marked (by rw [List.length_take_of_le inside.le]; rfl) big

theorem decode_eq_unexpectedEnd {bytes : Bytes} :
    decode bytes = .error .unexpectedEnd ↔ bytes.length ≤ 9 ∧ ∀ b ∈ bytes, 128 ≤ b := by
  simp only [decode_eq_error_iff, ← @UInt8.not_lt _ 128]
  constructor
  · intro broken
    cases broken with
    | ends marked short => exact ⟨Nat.le_of_lt_succ short, marked⟩
  · rintro ⟨short, marked⟩
    exact .ends marked (Nat.lt_succ_of_le short)

theorem decode_cases (bytes : Bytes) :
    (∃ n used, decode bytes = .ok (n, used)) ∨ decode bytes = .error .varintOverflow ∨
      decode bytes = .error .unexpectedEnd := by
  cases read : decode bytes with
  | ok r => exact .inl ⟨r.1, r.2, rfl⟩
  | error e =>
    cases decode_eq_error_iff.mp read with
    | ends => exact .inr (.inr rfl)
    | overflows => exact .inr (.inl rfl)

/-- Too large is too large, whatever follows. -/
theorem decode_overflow_append {bytes : Bytes} (tooLarge : decode bytes = .error .varintOverflow)
    (more : Bytes) : decode (bytes ++ more) = .error .varintOverflow := by
  obtain ⟨tenth, found, big, marked⟩ := decode_eq_varintOverflow.mp tooLarge
  obtain ⟨inside, -⟩ := List.getElem?_eq_some_iff.mp found
  refine decode_eq_varintOverflow.mpr ⟨tenth, ?_, big, ?_⟩
  · rw [List.getElem?_append_left inside, found]
  · rwa [List.take_append_of_le_length inside.le]

/-- Bytes that leave a place free hold a varint once a zero is put behind them. -/
theorem decode_closed {bytes : Bytes} (short : bytes.length ≤ 9) :
    ∃ n used, decode (bytes ++ [0]) = .ok (n, used) := by
  obtain read | tooLarge | cutOff := decode_cases (bytes ++ [0])
  · exact read
  · obtain ⟨tenth, found, big, -⟩ := decode_eq_varintOverflow.mp tooLarge
    obtain nine | fewer := Nat.eq_or_lt_of_le short
    · rw [← nine, List.getElem?_concat_length] at found
      cases found
      exact absurd big (by decide)
    · rw [List.getElem?_eq_none (by simp; omega)] at found
      cases found
  · have := (decode_eq_unexpectedEnd.mp cutOff).2 0 (by simp)
    exact absurd this (by decide)

/-- Bytes are taken for cut off if and only if something can be put behind them, but nothing need be
taken away. -/
theorem decode_unexpectedEnd_iff_unfinished {bytes : Bytes} :
    decode bytes = .error .unexpectedEnd ↔
      (∃ more n used, decode (bytes ++ more) = .ok (n, used)) ∧
        ∀ front, front <+: bytes → ∀ n used, decode front ≠ .ok (n, used) := by
  constructor
  · intro cutOff
    obtain ⟨short, marked⟩ := decode_eq_unexpectedEnd.mp cutOff
    refine ⟨⟨[0], decode_closed short⟩, fun front within n used read => ?_⟩
    have again : decode front = .error .unexpectedEnd :=
      decode_eq_unexpectedEnd.mpr
        ⟨within.length_le.trans short, fun b mem => marked b (within.subset mem)⟩
    cases read.symm.trans again
  · rintro ⟨⟨more, n, used, read⟩, none'⟩
    obtain ⟨n, used, whole⟩ | tooLarge | cutOff := decode_cases bytes
    · exact absurd whole (none' bytes (List.prefix_refl _) n used)
    · cases read.symm.trans (decode_overflow_append tooLarge more)
    · exact cutOff

/-! ## The shortest form -/

theorem Digits.length_encode_le {digits : Bytes} {n : Nat} (spelled : Digits digits n) :
    (encode n).length ≤ digits.length := by
  induction spelled with
  | @last b low =>
    have small : b.toNat < 128 := UInt8.lt_iff_toNat_lt.mp low
    rw [encode, if_pos small]
    exact Nat.le_refl 1
  | @more b digits high marked spelled ih =>
    rw [encode]
    split
    · exact Nat.succ_pos _
    · have rest : (b.toNat % 128 + 128 * high) / 128 = high := by omega
      rw [rest]
      exact Nat.succ_le_succ ih

/-- No bytes that are read as a number are shorter than those that are written for it. -/
theorem length_encode_le_of_decode {bytes : Bytes} {n used : Nat}
    (read : decode bytes = .ok (n, used)) : (encode n).length ≤ bytes.length := by
  obtain ⟨digits, rest, rfl, -, spelled, -, -⟩ := decode_eq_ok_iff.mp read
  rw [List.length_append]
  exact spelled.length_encode_le.trans (Nat.le_add_right _ _)

/-! ## A register of 64 bits -/

namespace Register

theorem toNat_shiftRight_seven (v : UInt64) : (v >>> 7).toNat = v.toNat / 128 := by
  simp [UInt64.toNat_shiftRight, Nat.shiftRight_eq_div_pow]

/-- The writer's loop: the lowest seven bits go to the end of the buffer until no more are left. -/
def put (buffer : Bytes) (v : UInt64) : Bytes :=
  if 0x80 ≤ v then put (buffer ++ [v.toUInt8 ||| 0x80]) (v >>> 7) else buffer ++ [v.toUInt8]
termination_by v.toNat
decreasing_by
  next large =>
  have large : 128 ≤ v.toNat := UInt64.le_iff_toNat_le.mp large
  rw [toNat_shiftRight_seven]
  omega

/-- The reader's loop: each digit goes to its place in the register. -/
def read (value shift : UInt64) (index : Nat) : Bytes → Except Error (UInt64 × Nat)
  | [] => .error .unexpectedEnd
  | b :: rest =>
    if index = maxLength then .error .varintOverflow
    else if index = maxLength - 1 ∧ 1 < b then .error .varintOverflow
    else if b < 0x80 then .ok (value ||| (b.toUInt64 <<< shift), index + 1)
    else read (value ||| ((b &&& 0x7f).toUInt64 <<< shift)) (shift + 7) (index + 1) rest

/-- Setting the high bit marks the low seven bits. -/
theorem toUInt8_or_mark (v : UInt64) : v.toUInt8 ||| 0x80 = UInt8.ofNat (v.toNat % 128 + 128) := by
  have mark : ∀ n < 256, n ||| 128 = n % 128 + 128 := by decide +kernel
  rw [← UInt8.toNat_inj, UInt8.toNat_or, UInt64.toNat_toUInt8, toNat_ofNat_high]
  refine (mark _ (Nat.mod_lt _ (by decide))).trans ?_
  omega

/-- Masking the high bit leaves the digit. -/
theorem toNat_and_mask (b : UInt8) : (b &&& 0x7f).toUInt64.toNat = b.toNat % 128 := by
  rw [UInt8.toNat_toUInt64, UInt8.toNat_and]
  exact Nat.and_two_pow_sub_one_eq_mod b.toNat 7

/-- The loop of the writer puts the shortest varint behind what the buffer holds. -/
theorem put_eq_append_encode (buffer : Bytes) (v : UInt64) :
    put buffer v = buffer ++ encode v.toNat := by
  induction buffer, v using put.induct with
  | case1 buffer v large ih =>
    have high : ¬v.toNat < 128 := Nat.not_lt.mpr (UInt64.le_iff_toNat_le.mp large)
    rw [put, if_pos large, ih, toUInt8_or_mark, toNat_shiftRight_seven, List.append_assoc,
      List.singleton_append]
    congr 1
    rw [encode.eq_def v.toNat, if_neg high]
  | case2 buffer v small =>
    have low : v.toNat < 128 := UInt64.lt_iff_toNat_lt.mp (UInt64.not_le.mp small)
    rw [put, if_neg small, encode, if_pos low]
    rfl

variable {value shift : UInt64} {index : Nat}

/-- A digit that fits its place fills bits of the register that are still zero. -/
theorem toNat_or_shift {digit : UInt64} (place : index < maxLength)
    (filled : value.toNat < 128 ^ index) (shifted : shift.toNat = 7 * index)
    (fits : digit.toNat * 128 ^ index < UInt64.size) :
    (value ||| digit <<< shift).toNat = value.toNat + digit.toNat * 128 ^ index := by
  have base : (128 : Nat) ^ index = 2 ^ (7 * index) := (pow_mul 2 7 index).symm
  have inside : 7 * index < 64 := by
    unfold maxLength at place
    omega
  rw [base] at filled fits ⊢
  rw [UInt64.toNat_or, UInt64.toNat_shiftLeft, shifted, Nat.mod_eq_of_lt inside, Nat.shiftLeft_eq,
    Nat.mod_eq_of_lt fits, Nat.or_comm, Nat.mul_comm, ← Nat.two_pow_add_eq_or_of_lt filled,
    Nat.add_comm]

/-- A digit that its place allows fits the register. -/
theorem digit_fits {digit : Nat} (place : index < maxLength) (small : digit < 128)
    (last : index + 1 = maxLength → digit ≤ 1) : digit * 128 ^ index < UInt64.size := by
  unfold maxLength at place last
  by_cases tenth : index + 1 = 10
  · obtain rfl : index = 9 := Nat.succ.inj tenth
    calc digit * 128 ^ 9 ≤ 1 * 128 ^ 9 := Nat.mul_le_mul_right _ (last tenth)
      _ < UInt64.size := by decide
  · have below : 128 ^ index ≤ 128 ^ 8 := Nat.pow_le_pow_right (by decide) (by omega)
    calc digit * 128 ^ index ≤ 127 * 128 ^ 8 := Nat.mul_le_mul (Nat.le_of_lt_succ small) below
      _ < UInt64.size := by decide

/-- The digit of a byte that is not the last one stands behind the digits before it. -/
theorem toNat_or_digit (b : UInt8) (inside : index + 1 < maxLength)
    (filled : value.toNat < 128 ^ index) (shifted : shift.toNat = 7 * index) :
    (value ||| (b &&& 0x7f).toUInt64 <<< shift).toNat =
      value.toNat + b.toNat % 128 * 128 ^ index := by
  have place : index < maxLength := Nat.lt_of_succ_lt inside
  have digit := toNat_and_mask b
  have small : (b &&& 0x7f).toUInt64.toNat < 128 := digit ▸ Nat.mod_lt _ (by decide)
  have fits := digit_fits place small fun tenth => absurd tenth (Nat.ne_of_lt inside)
  rw [toNat_or_shift place filled shifted fits, digit]

/-- With one digit more the register holds no more than the places up to it. -/
theorem filled_succ {held digit : Nat} (filled : held < 128 ^ index) (small : digit < 128) :
    held + digit * 128 ^ index < 128 ^ (index + 1) := by
  have := Nat.mul_le_mul_right (128 ^ index) (Nat.le_of_lt_succ small)
  rw [pow_succ]
  omega

theorem toNat_shift_succ (place : index < maxLength) (shifted : shift.toNat = 7 * index) :
    (shift + 7).toNat = 7 * (index + 1) := by
  unfold maxLength at place
  rw [UInt64.toNat_add, shifted]
  exact Nat.mod_eq_of_lt (show 7 * index + 7 < _ by omega)

/-- From any place on, the loop of the reader adds the digits to what the register holds. The induction
is on the bytes; the register holds no more than the places before. -/
theorem read_eq_decodeFrom {bytes : Bytes} (place : index < maxLength)
    (filled : value.toNat < 128 ^ index) (shifted : shift.toNat = 7 * index) :
    read value shift index bytes = (decodeFrom index bytes).map fun (high, used) =>
      (UInt64.ofNat (value.toNat + high * 128 ^ index), index + used) := by
  induction bytes generalizing value shift index with
  | nil => rfl
  | cons b bytes ih =>
    have same : index = maxLength - 1 ↔ index + 1 = maxLength := by
      unfold maxLength
      omega
    rw [read, decodeFrom, if_neg (Nat.ne_of_lt place)]
    simp only [same]
    by_cases tooLarge : index + 1 = maxLength ∧ 1 < b
    · rw [if_pos tooLarge, if_pos tooLarge]
      rfl
    · rw [if_neg tooLarge, if_neg tooLarge]
      by_cases low : b < 128
      · have fits : b.toUInt64.toNat * 128 ^ index < UInt64.size := by
          refine digit_fits place (UInt8.lt_iff_toNat_lt.mp low) fun tenth => ?_
          exact Nat.le_of_not_lt fun big => tooLarge ⟨tenth, UInt8.lt_iff_toNat_lt.mpr big⟩
        have sum := toNat_or_shift place filled shifted fits
        rw [if_pos low, if_pos low, ← @UInt64.ofNat_toNat (value ||| _), sum]
        rfl
      · have more : 1 < b := by
          rw [UInt8.lt_iff_toNat_lt] at low ⊢
          exact Nat.lt_of_lt_of_le (by decide) (Nat.not_lt.mp low)
        -- In the last place a byte with the high bit set is above 1, hence refused before.
        have inside : index + 1 < maxLength :=
          Nat.lt_of_le_of_ne place fun tenth => tooLarge ⟨tenth, more⟩
        have sum := toNat_or_digit b inside filled shifted
        have filled' := sum ▸ filled_succ filled (Nat.mod_lt b.toNat (by decide))
        rw [if_neg low, if_neg low, ih inside filled' (toNat_shift_succ place shifted), sum]
        cases decodeFrom (index + 1) bytes with
        | error e => rfl
        | ok r =>
          have places : value.toNat + b.toNat % 128 * 128 ^ index + r.1 * 128 ^ (index + 1) =
              value.toNat + (b.toNat % 128 + 128 * r.1) * 128 ^ index := by ring
          have counted : index + 1 + r.2 = index + (r.2 + 1) := by omega
          simp only [Except.map, places, counted]

/-- The loop of the reader reads what the exact reader does. -/
theorem read_eq_decode (bytes : Bytes) :
    read 0 0 0 bytes = (decode bytes).map fun (n, used) => (UInt64.ofNat n, used) := by
  refine (read_eq_decodeFrom (by decide) (by decide) rfl).trans ?_
  simp only [UInt64.toNat_zero, pow_zero, Nat.mul_one, Nat.zero_add]
  rfl

end Register

/-- Varints are exact. Whatever the buffer holds and whatever follows, the writer puts 1 to 10 bytes
behind it, the reader gives the number and their count back, and no fewer bytes are read as that
number. Of any bytes, the reader takes the varint that ends at the first byte below 128, within ten
places, for the sum of its digits if that is below 2⁶⁴, and computes it in a register of 64 bits;
it finds it too large if nine bytes with the high bit set are followed by one above 1; and
it finds it cut off if there are at most nine bytes, all with the high bit set, that is, if more bytes
can complete it but no part of it is complete. -/
theorem written_and_read_exactly :
    (∀ (v : UInt64) (buffer rest : Bytes),
      Register.put buffer v = buffer ++ encode v.toNat ∧
      1 ≤ (encode v.toNat).length ∧ (encode v.toNat).length ≤ 10 ∧
      (∀ bytes used, decode bytes = .ok (v.toNat, used) →
        (encode v.toNat).length ≤ bytes.length) ∧
      decode (encode v.toNat ++ rest) = .ok (v.toNat, (encode v.toNat).length)) ∧
    ∀ bytes,
      (∀ n used, decode bytes = .ok (n, used) ↔
        ∃ last, used = last + 1 ∧ used ≤ 10 ∧ bytes.findIdx? (· < 128) = some last ∧
          n = ∑ i ∈ Finset.range used, (bytes.getD i 0).toNat % 128 * 128 ^ i ∧
          n < UInt64.size) ∧
      Register.read 0 0 0 bytes = (decode bytes).map (fun (n, used) => (UInt64.ofNat n, used)) ∧
      (decode bytes = .error .varintOverflow ↔
        ∃ tenth, bytes[9]? = some tenth ∧ 1 < tenth ∧ ∀ b ∈ bytes.take 9, 128 ≤ b) ∧
      (decode bytes = .error .unexpectedEnd ↔ bytes.length ≤ 9 ∧ ∀ b ∈ bytes, 128 ≤ b) ∧
      (decode bytes = .error .unexpectedEnd ↔
        (∃ more n used, decode (bytes ++ more) = .ok (n, used)) ∧
          ∀ front, front <+: bytes → ∀ n used, decode front ≠ .ok (n, used)) ∧
      ∀ e, decode bytes = .error e → e = .varintOverflow ∨ e = .unexpectedEnd := by
  refine ⟨fun v buffer rest => ?_, fun bytes => ?_⟩
  · exact ⟨Register.put_eq_append_encode buffer v, length_encode_pos _, length_encode_toNat_le v,
      fun _ _ => length_encode_le_of_decode, decode_encode v.toNat_lt rest⟩
  · refine ⟨fun _ _ => decode_eq_ok_iff_places, Register.read_eq_decode bytes,
      decode_eq_varintOverflow, decode_eq_unexpectedEnd, decode_unexpectedEnd_iff_unfinished,
      fun e refused => ?_⟩
    cases decode_eq_error_iff.mp refused with
    | ends => exact .inr rfl
    | overflows => exact .inl rfl

/-- The largest number of 64 bits takes all ten places, and one more in the last is too large. -/
example : decode (List.replicate 9 0xff ++ [0x01]) = .ok (18446744073709551615, 10) ∧
    decode (List.replicate 9 0xff ++ [0x02]) = .error .varintOverflow := by
  decide

end Tether.Wire.Varint
