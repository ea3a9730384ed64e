import Tether.Chain.Handshake
import Tether.Proofs.Wire.Varint

/-!
# Dials are two varints

A dial puts two numbers behind each other with nothing between them. They are told apart all the same,
since no varint goes on as another one: the first ends where its digits end, whatever follows, and the
second has to use up the rest. So the reader takes the bytes that split into two varints, each in the
one way that they split.
-/

namespace Tether.Chain.Dial

open Wire.Varint

/-- A dial is read from two varints, and from nothing else. -/
theorem decode?_eq_some_iff {bytes : Bytes} {d : Dial} :
    decode? bytes = some d ↔
      ∃ front back, bytes = front ++ back ∧ Denotes front d.id.val.toNat ∧ Denotes back d.seq := by
  constructor
  · intro read
    unfold decode? at read
    split at read
    · cases read
    · next id n first =>
      obtain ⟨front, back, rfl, rfl, denotes⟩ := decode_eq_ok_iff.mp first
      rw [List.drop_left] at read
      split at read
      · cases read
      · next seq m second =>
        obtain ⟨back, rest, rfl, rfl, denotes'⟩ := decode_eq_ok_iff.mp second
        split at read
        · next all =>
          cases read
          have used : rest = [] := by
            simp only [List.length_append] at all
            exact List.length_eq_zero_iff.mp (by omega)
          subst used
          refine ⟨front, back, by rw [List.append_nil], ?_, denotes'⟩
          rwa [UInt64.toNat_ofNat_of_lt' denotes.fits]
        · cases read
  · rintro ⟨front, back, rfl, denotes, denotes'⟩
    have first := decode_eq_ok_iff.mpr ⟨front, back, rfl, rfl, denotes⟩
    have second := decode_eq_ok_iff.mpr ⟨back, [], (List.append_nil _).symm, rfl, denotes'⟩
    unfold decode?
    simp only [first, List.drop_left, second]
    rw [if_pos List.length_append.symm, UInt64.ofNat_toNat]

theorem decode?_encode {d : Dial} (fits : d.seq < UInt64.size) : decode? d.encode = some d :=
  decode?_eq_some_iff.mpr
    ⟨_, _, rfl, denotes_encode d.id.val.toNat_lt, denotes_encode fits⟩

/-- Dials are exact. A dial of any two numbers of 64 bits is read back as it was written. Any bytes are
read as a dial if and only if they are one varint of its name and one of its number, each of at most ten
bytes and not necessarily the shortest; they split so in one way only, and bytes that do not are no
dial. -/
theorem decoded_dials_alone :
    (∀ id seq : UInt64, decode? (encode ⟨⟨id⟩, seq.toNat⟩) = some ⟨⟨id⟩, seq.toNat⟩) ∧
    (∀ bytes d, decode? bytes = some d ↔
      ∃ front back, bytes = front ++ back ∧ Denotes front d.id.val.toNat ∧ Denotes back d.seq) ∧
    (∀ front back front' back' m n m' n', Denotes front m → Denotes back n →
      Denotes front' m' → Denotes back' n' → front ++ back = front' ++ back' →
        front = front' ∧ back = back' ∧ m = m' ∧ n = n') ∧
    ∀ bytes, decode? bytes = none ↔
      ¬∃ front back m n, bytes = front ++ back ∧ Denotes front m ∧ Denotes back n := by
  refine ⟨fun id seq => decode?_encode seq.toNat_lt, fun _ _ => decode?_eq_some_iff, ?_, ?_⟩
  · intro front back front' back' m n m' n' denotes second denotes' second' same
    obtain ⟨fronts, rfl, ids⟩ := denotes.unique denotes' same
    have seqs := second.unique second' (Eq.refl (back ++ []))
    exact ⟨fronts, rfl, ids, seqs.2.2⟩
  · intro bytes
    rw [Option.eq_none_iff_forall_ne_some, not_exists]
    constructor
    · rintro none' front ⟨back, m, n, whole, denotes, denotes'⟩
      refine none' ⟨⟨UInt64.ofNat m⟩, n⟩ (decode?_eq_some_iff.mpr ⟨front, back, whole, ?_, denotes'⟩)
      rwa [UInt64.toNat_ofNat_of_lt' denotes.fits]
    · intro none' d read
      obtain ⟨front, back, whole, denotes, denotes'⟩ := decode?_eq_some_iff.mp read
      exact none' front ⟨back, _, _, whole, denotes, denotes'⟩

/-- A name under a varint that is longer than it needs to be, and a number that is cut off. -/
example : decode? [0x81, 0x00, 0x02] = some ⟨⟨1⟩, 2⟩ ∧ decode? [0x01, 0x82] = none := by
  decide

end Tether.Chain.Dial
