import Tether.Wire.Varint

/-!
# What varints stand for

A reader of varints takes more than the writer emits: a number has many rows of digits, since the
last digits may be zero. The reader takes just the rows of at most ten digits whose number fits 64
bits, each from the front of whatever follows it; the writer emits one of them, the shortest.

The reader's ten places carry the argument. A number fits the places from `index` on if it is below
the span of `10 - index` digits, of which the last counts one bit.
-/

namespace Tether.Wire.Varint

/-- The digits of a number, least significant first. All but the last are marked by the high bit.
The last ones may be zero, so that a number has many rows of digits. -/
inductive Digits : Bytes → Nat → Prop where
  | last {b : UInt8} (low : b < 128) : Digits [b] b.toNat
  | more {b : UInt8} {rest : Bytes} {high : Nat} (marked : ¬b < 128) (digits : Digits rest high) :
      Digits (b :: rest) (b.toNat % 128 + 128 * high)

/-- Bytes that are a varint of a number: at most ten digits, of a number of 64 bits. -/
structure Denotes (bytes : Bytes) (n : Nat) : Prop where
  digits : Digits bytes n
  short : bytes.length ≤ maxLength
  fits : n < UInt64.size

/-- How many numbers the last `digits` places of the longest varint tell apart. -/
def span : Nat → Nat
  | 0 => 1
  | 1 => 2
  | digits + 2 => 128 * span (digits + 1)

theorem span_maxLength : span maxLength = UInt64.size :=
  rfl

/-- More than one place is left for a number whose last digit is not the last place. -/
private theorem span_le (digits : Nat) : 256 ≤ span (digits + 2) := by
  induction digits with
  | zero => simp [span]
  | succ digits ih =>
    have := ih
    simp only [span] at this ⊢
    omega

private theorem toNat_ofNat_low {n : Nat} (h : n < 128) : (UInt8.ofNat n).toNat = n := by
  rw [UInt8.toNat_ofNat']
  omega

theorem toNat_ofNat_high (n : Nat) :
    (UInt8.ofNat (n % 128 + 128)).toNat = n % 128 + 128 := by
  rw [UInt8.toNat_ofNat']
  omega

/-- The digits of a number that fits the places left are read, whatever follows them. -/
theorem decodeFrom_digits {digits : Bytes} {n : Nat} (spelled : Digits digits n) (rest : Bytes) :
    ∀ {index places : Nat}, index + places = maxLength → digits.length ≤ places →
      n < span places → decodeFrom index (digits ++ rest) = .ok (n, digits.length) := by
  induction spelled with
  | @last b low =>
    intro index places all short fits
    have inside : ¬(index + 1 = maxLength ∧ 1 < b) := by
      rintro ⟨tenth, big⟩
      obtain rfl : places = 1 := by omega
      rw [UInt8.lt_iff_toNat_lt] at big
      simp only [span, UInt8.reduceToNat] at fits big
      omega
    rw [List.singleton_append, decodeFrom, if_neg inside, if_pos low]
    rfl
  | @more b digits high marked spelled ih =>
    intro index places all short fits
    have nonempty : 0 < digits.length := by
      cases spelled <;> exact Nat.succ_pos _
    rw [List.length_cons] at short
    match places, short, fits with
    | 1, short, _ => omega
    | places + 2, short, fits =>
      have high_fits : high < span (places + 1) := by
        simp only [span] at fits
        omega
      rw [List.cons_append, decodeFrom, if_neg (by omega), if_neg marked,
        ih (by omega) (by omega) high_fits]
      rfl

/-- What is read are the digits of a number that fits the places left. The induction is on the
bytes; each marked digit takes one place. -/
theorem digits_of_decodeFrom {bytes : Bytes} :
    ∀ {index places n used : Nat}, index + places = maxLength → 0 < places →
      decodeFrom index bytes = .ok (n, used) →
        ∃ digits rest, bytes = digits ++ rest ∧ digits.length = used ∧ Digits digits n ∧
          used ≤ places ∧ n < span places := by
  induction bytes with
  | nil =>
    intro index places n used _ _ read
    cases read
  | cons b bytes ih =>
    intro index places n used all room read
    rw [decodeFrom] at read
    split at read
    · cases read
    · next inside =>
      split at read
      · next low =>
        cases read
        refine ⟨[b], bytes, rfl, rfl, .last low, room, ?_⟩
        match places, room with
        | 1, _ =>
          have small : ¬1 < b := fun big => inside ⟨all, big⟩
          rw [UInt8.lt_iff_toNat_lt] at small
          simp only [span, UInt8.reduceToNat] at small ⊢
          omega
        | places + 2, _ =>
          have := span_le places
          have := b.toNat_lt
          omega
      · next marked =>
        have more : 1 < b := by
          rw [UInt8.lt_iff_toNat_lt] at marked ⊢
          simp only [UInt8.reduceToNat] at marked ⊢
          omega
        split at read
        · next high count found =>
          cases read
          match places, room with
          | 1, _ => exact absurd ⟨all, more⟩ inside
          | places + 2, _ =>
            obtain ⟨digits, rest, rfl, rfl, spelled, short, fits⟩ :=
              @ih (index + 1) (places + 1) high count (by omega) (Nat.succ_pos _) found
            refine ⟨b :: digits, rest, rfl, rfl, .more marked spelled, by omega, ?_⟩
            simp only [span]
            omega
        · cases read

/-- A varint is read from the front of its input, and nothing else is. -/
theorem decode_eq_ok_iff {bytes : Bytes} {n used : Nat} :
    decode bytes = .ok (n, used) ↔
      ∃ digits rest, bytes = digits ++ rest ∧ digits.length = used ∧ Denotes digits n := by
  constructor
  · intro read
    obtain ⟨digits, rest, same, length, spelled, short, fits⟩ :=
      @digits_of_decodeFrom bytes 0 maxLength n used (Nat.zero_add _) (by decide) read
    exact ⟨digits, rest, same, length, spelled, length ▸ short, span_maxLength ▸ fits⟩
  · rintro ⟨digits, rest, rfl, rfl, spelled, short, fits⟩
    exact decodeFrom_digits spelled rest (Nat.zero_add _) short (span_maxLength ▸ fits)

/-- Bytes that open with a varint open with no other one. -/
theorem Denotes.unique {front back front' back' : Bytes} {m n : Nat} (denotes : Denotes front m)
    (denotes' : Denotes front' n) (same : front ++ back = front' ++ back') :
    front = front' ∧ back = back' ∧ m = n := by
  have read := decode_eq_ok_iff.mpr ⟨front, back, rfl, rfl, denotes⟩
  have read' := decode_eq_ok_iff.mpr ⟨front', back', same, rfl, denotes'⟩
  obtain ⟨value, length⟩ := Prod.mk.inj (Except.ok.inj (read.symm.trans read'))
  obtain ⟨fronts, backs⟩ := List.append_inj same length
  exact ⟨fronts, backs, value⟩

/-- Bytes at whose front no varint of at most so many digits stands, with the error that says why: they
end before its last digit, or the last place does not hold a digit that is allowed there. -/
inductive Broken (places : Nat) : Bytes → Error → Prop where
  | ends {bytes : Bytes} (marked : ∀ b ∈ bytes, ¬b < 128) (short : bytes.length < places) :
    Broken places bytes .unexpectedEnd
  | overflows {digits rest : Bytes} {b : UInt8} (marked : ∀ b ∈ digits, ¬b < 128)
    (last : digits.length + 1 = places) (big : 1 < b) :
    Broken places (digits ++ b :: rest) .varintOverflow

theorem broken_cons {places : Nat} {b : UInt8} {bytes : Bytes} {e : Error} :
    Broken (places + 1) (b :: bytes) e ↔
      places = 0 ∧ 1 < b ∧ e = .varintOverflow ∨ 0 < places ∧ ¬b < 128 ∧ Broken places bytes e := by
  constructor
  · generalize whole : b :: bytes = all
    rintro (⟨marked, short⟩ | @⟨digits, rest, c, marked, last, big⟩)
    · subst whole
      rw [List.length_cons] at short
      exact .inr ⟨by omega, marked b List.mem_cons_self,
        .ends (fun c mem => marked c (List.mem_cons_of_mem b mem)) (by omega)⟩
    · cases digits with
      | nil =>
        cases whole
        exact .inl ⟨(Nat.succ.inj last).symm, big, rfl⟩
      | cons d digits =>
        cases whole
        refine .inr ⟨?_, marked b List.mem_cons_self,
          .overflows (fun c mem => marked c (List.mem_cons_of_mem b mem)) (Nat.succ.inj last) big⟩
        rw [← Nat.succ.inj last]
        exact Nat.succ_pos _
  · rintro (⟨rfl, big, rfl⟩ | ⟨-, marked, broken⟩)
    · exact @Broken.overflows _ [] _ _ nofun rfl big
    · cases broken with
      | ends others short =>
        exact .ends (List.forall_mem_cons.mpr ⟨marked, others⟩) (Nat.succ_lt_succ short)
      | overflows others last big =>
        exact @Broken.overflows _ (b :: _) _ _ (List.forall_mem_cons.mpr ⟨marked, others⟩)
          (congrArg Nat.succ last) big

/-- From any place on, a varint is refused only if it is broken. -/
theorem decodeFrom_eq_error_iff {bytes : Bytes} {e : Error} :
    ∀ {index places : Nat}, index + places + 1 = maxLength →
      (decodeFrom index bytes = .error e ↔ Broken (places + 1) bytes e) := by
  induction bytes with
  | nil =>
    intro index places _
    constructor
    · intro refused
      cases refused
      exact .ends nofun (Nat.succ_pos _)
    · generalize empty : ([] : Bytes) = none'
      rintro (- | -)
      · subst empty
        rfl
      · simp at empty
  | cons b bytes ih =>
    intro index places all
    rw [broken_cons, decodeFrom]
    by_cases last : places = 0
    · have tenth : index + 1 = maxLength := by omega
      by_cases big : 1 < b
      · simp [tenth, last, big, eq_comm]
      · have low : b < 128 := by
          rw [UInt8.lt_iff_toNat_lt] at big ⊢
          simp only [UInt8.reduceToNat] at big ⊢
          omega
        simp [last, big, low]
    · have inside : ¬(index + 1 = maxLength ∧ 1 < b) := by omega
      obtain ⟨places, rfl⟩ := Nat.exists_eq_succ_of_ne_zero last
      rw [if_neg inside]
      by_cases low : b < 128
      · simp [low]
      · rw [if_neg low, ← @ih (index + 1) places (by omega)]
        cases decodeFrom (index + 1) bytes <;> simp [low]

/-- Bytes are refused only if no varint stands at their front. -/
theorem decode_eq_error_iff {bytes : Bytes} {e : Error} :
    decode bytes = .error e ↔ Broken maxLength bytes e :=
  decodeFrom_eq_error_iff rfl

/-- From any place on, a number too large for the places left is refused. -/
theorem decodeFrom_encode_overflow (n : Nat) (rest : Bytes) :
    ∀ index digits, index + digits = maxLength → span digits ≤ n → 0 < digits →
      decodeFrom index (encode n ++ rest) = .error .varintOverflow := by
  induction n using encode.induct with
  | case1 n small =>
    intro index digits places tooLarge room
    have low := toNat_ofNat_low small
    match digits, tooLarge, room with
    | digits + 2, tooLarge, _ =>
      have := span_le digits
      omega
    | 1, tooLarge, _ =>
      have last : index + 1 = maxLength ∧ 1 < UInt8.ofNat n := by
        refine ⟨places, ?_⟩
        rw [UInt8.lt_iff_toNat_lt, low]
        exact tooLarge
      rw [encode, if_pos small, List.singleton_append, decodeFrom, if_pos last]
  | case2 n large ih =>
    intro index digits places tooLarge room
    have high := toNat_ofNat_high n
    rw [encode, if_neg large, List.cons_append, decodeFrom]
    match digits, tooLarge, room with
    | 1, _, _ =>
      have last : index + 1 = maxLength ∧ 1 < UInt8.ofNat (n % 128 + 128) := by
        refine ⟨places, ?_⟩
        rw [UInt8.lt_iff_toNat_lt, high]
        simp only [UInt8.reduceToNat]
        omega
      rw [if_pos last]
    | digits + 2, tooLarge, _ =>
      have inner : ¬(index + 1 = maxLength ∧ 1 < UInt8.ofNat (n % 128 + 128)) := by omega
      have goesOn : ¬UInt8.ofNat (n % 128 + 128) < 128 := by
        rw [UInt8.lt_iff_toNat_lt, high]
        simp
      have tooLarge' : span (digits + 1) ≤ n / 128 := by
        simp only [span] at tooLarge
        omega
      rw [if_neg inner, if_neg goesOn, ih (index + 1) (digits + 1) (by omega) tooLarge' (by omega)]

/-- The varint of a larger number is refused. -/
theorem decode_encode_overflow {n : Nat} (h : UInt64.size ≤ n) (rest : Bytes) :
    decode (encode n ++ rest) = .error .varintOverflow :=
  decodeFrom_encode_overflow n rest 0 maxLength rfl (span_maxLength ▸ h) (by decide)

/-- A number that fits the places left takes no more than those. -/
theorem length_encode_le (n : Nat) :
    ∀ digits, n < span digits → 0 < digits → (encode n).length ≤ digits := by
  induction n using encode.induct with
  | case1 n small =>
    intro digits fits room
    rw [encode, if_pos small]
    exact room
  | case2 n large ih =>
    intro digits fits room
    match digits, fits, room with
    | 1, fits, _ => simp only [span] at fits; omega
    | digits + 2, fits, _ =>
      have fits' : n / 128 < span (digits + 1) := by
        simp only [span] at fits
        omega
      rw [encode, if_neg large]
      exact Nat.succ_le_succ (ih (digits + 1) fits' (Nat.succ_pos _))

theorem length_encode_pos (n : Nat) : 0 < (encode n).length := by
  unfold encode
  split <;> exact Nat.succ_pos _

/-- A number of 64 bits takes no more than the longest varint. -/
theorem length_encode_toNat_le (n : UInt64) : (encode n.toNat).length ≤ maxLength :=
  length_encode_le _ _ (span_maxLength ▸ n.toNat_lt) (by decide)

theorem digits_encode (n : Nat) : Digits (encode n) n := by
  induction n using encode.induct with
  | case1 n small =>
    have same := toNat_ofNat_low small
    have low : UInt8.ofNat n < 128 := by
      rw [UInt8.lt_iff_toNat_lt, same]
      exact small
    have spelled := Digits.last low
    rw [same] at spelled
    rw [encode, if_pos small]
    exact spelled
  | case2 n large ih =>
    have same := toNat_ofNat_high n
    have marked : ¬UInt8.ofNat (n % 128 + 128) < 128 := by
      rw [UInt8.lt_iff_toNat_lt, same]
      simp
    have spelled := Digits.more marked ih
    have whole : (n % 128 + 128) % 128 + 128 * (n / 128) = n := by omega
    rw [same, whole] at spelled
    rw [encode, if_neg large]
    exact spelled

/-- What the writer emits for a number of 64 bits is a varint of it. -/
theorem denotes_encode {n : Nat} (h : n < UInt64.size) : Denotes (encode n) n where
  digits := digits_encode n
  short := length_encode_le n maxLength (span_maxLength ▸ h) (by decide)
  fits := h

/-- A number of 64 bits is read back from its varint, whatever follows. -/
theorem decode_encode {n : Nat} (h : n < UInt64.size) (rest : Bytes) :
    decode (encode n ++ rest) = .ok (n, (encode n).length) :=
  decode_eq_ok_iff.mpr ⟨encode n, rest, rfl, rfl, denotes_encode h⟩

end Tether.Wire.Varint
