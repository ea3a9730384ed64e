import Tether.Chain.Registry
import Tether.Proofs.Chain.Handshake

/-!
# How a listener judges

A dial is read back as it was sent. What the register knows of a name is the highest number
admitted for it, and while no chain was killed the verdict on a dial depends on that number alone: a
dial with a higher number is admitted, one with a lower number or the same is a duplicate, and of an
unknown name only the first attempt is admitted.
-/

namespace Tether.Chain

namespace Registry

/-- The highest number admitted for a name. -/
def top? (r : Registry) (id : Id) : Option Nat :=
  (r.slot? id).map (·.lastSeq)

/-- Raising the number of a name is what the register then knows of it. -/
theorem top?_raise {r : Registry} {id : Id} {slot : Slot} (known : r.slot? id = some slot)
    (seq : Nat) :
    top? (r.map fun s => if s.id = id then { s with lastSeq := seq } else s) id = some seq := by
  unfold top? slot? at *
  induction r with
  | nil => cases known
  | cons s r ih =>
    by_cases own : s.id = id
    · simp [own]
    · rw [List.find?_cons_of_neg (by simpa using own)] at known
      rw [List.map_cons, if_neg own, List.find?_cons_of_neg (by simpa using own)]
      exact ih known

/-- The verdict on a dial while no chain was killed. -/
theorem judge_cases {r r' : Registry} {fresh : ChainId} {d : Dial} {v : Verdict}
    (judged : r.judge (fun _ => false) fresh d = (r', v)) :
    (∃ n, r.top? d.id = some n ∧ d.seq ≤ n) ∧ r' = r ∧ v.answer = .duplicate ∨
      (∀ n, r.top? d.id = some n → n < d.seq) ∧ r'.top? d.id = some d.seq ∧ v.answer = .ok ∨
      r.top? d.id = none ∧ r' = r ∧ v.answer = .closedChain := by
  unfold judge at judged
  cases known : r.slot? d.id with
  | some slot =>
    have top : r.top? d.id = some slot.lastSeq := by rw [top?, known, Option.map_some]
    simp only [known, Bool.false_eq_true, if_false] at judged
    split at judged
    · next low =>
      cases judged
      exact .inl ⟨⟨_, top, low⟩, rfl, rfl⟩
    · next high =>
      cases judged
      refine .inr (.inl ⟨fun n same => ?_, top?_raise known _, rfl⟩)
      rw [top] at same
      cases same
      omega
  | none =>
    have top : r.top? d.id = none := by rw [top?, known, Option.map_none]
    simp only [known] at judged
    split at judged
    · cases judged
      refine .inr (.inl ⟨fun n same => ?_, ?_, rfl⟩)
      · rw [top] at same
        cases same
      · simp [top?, slot?]
    · cases judged
      exact .inr (.inr ⟨top, rfl, rfl⟩)

theorem judgeMessage_encode {r : Registry} {dead : ChainId → Bool} {fresh : ChainId} {d : Dial}
    (positive : 0 < d.seq) (fits : d.seq < UInt64.size) :
    r.judgeMessage dead fresh d.encode = r.judge dead fresh d := by
  unfold judgeMessage
  rw [Dial.decode?_encode fits]
  exact if_neg (Nat.ne_of_gt positive)

end Registry

end Tether.Chain
