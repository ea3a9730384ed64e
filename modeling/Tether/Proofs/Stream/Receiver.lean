import Tether.Stream.Receiver

/-!
# What the receiver does about a unit

A unit is accepted if it is the one expected and the end marker has not come; a unit from elsewhere
changes at most which gap the peer was told of, and is answered at most by a request to resend from
where the receiver stands.
-/

namespace Tether.Stream.Receiver

variable {r : Receiver} {ackFrequency seq : Nat} {payload : Bytes}

/-- What passing a unit over may do. -/
structure Passes (r : Receiver) (receipt : Receipt) : Prop where
  expected : receipt.receiver.expected = r.expected
  unacked : receipt.receiver.unacked = r.unacked
  peerEnded : receipt.receiver.peerEnded = r.peerEnded
  accepted : receipt.accepted = none
  reply : ∀ f ∈ receipt.reply, f = .sync r.expected

theorem chunk_cases {receipt : Receipt} (taken : r.chunk ackFrequency seq payload = .ok receipt) :
    seq ≠ r.expected ∧ r.Passes receipt ∨
      seq = r.expected ∧ r.peerEnded = false ∧ receipt = r.accept ackFrequency payload := by
  unfold chunk at taken
  split at taken
  · next below =>
    cases taken
    exact .inl ⟨by omega, rfl, rfl, rfl, rfl, nofun⟩
  · split at taken
    · next above =>
      refine .inl ⟨by omega, ?_⟩
      split at taken <;> cases taken
      · exact ⟨rfl, rfl, rfl, rfl, nofun⟩
      · exact ⟨rfl, rfl, rfl, rfl, fun f mem => (Option.mem_some_iff.mp mem).symm⟩
    · split at taken
      · cases taken
      · next notEnded =>
        cases taken
        exact .inr ⟨by omega, by simpa using notEnded, rfl⟩

/-- A unit is refused only if it follows the end marker. -/
theorem chunk_eq_error {e : Error} (refused : r.chunk ackFrequency seq payload = .error e) :
    seq = r.expected ∧ r.peerEnded = true := by
  unfold chunk at refused
  split at refused
  · cases refused
  · split at refused
    · split at refused <;> cases refused
    · split at refused
      · next ended => exact ⟨by omega, ended⟩
      · cases refused

@[simp]
theorem accept_expected (r : Receiver) (ackFrequency : Nat) (payload : Bytes) :
    (r.accept ackFrequency payload).receiver.expected = r.expected + 1 :=
  rfl

@[simp]
theorem accept_peerEnded (r : Receiver) (ackFrequency : Nat) (payload : Bytes) :
    (r.accept ackFrequency payload).receiver.peerEnded = (r.peerEnded || decide (payload = [])) :=
  rfl

/-- Either an acknowledgment is due and starts the count anew, or the count goes up and stays below
what makes one due. -/
theorem accept_cases (r : Receiver) (ackFrequency : Nat) (payload : Bytes) :
    (r.accept ackFrequency payload).reply = some (.ack (r.expected + 1)) ∧
        (r.accept ackFrequency payload).receiver.unacked = 0 ∨
      (r.accept ackFrequency payload).reply = none ∧ payload ≠ [] ∧
        (r.accept ackFrequency payload).receiver.unacked = r.unacked + 1 ∧
        r.unacked + 1 < max ackFrequency 1 := by
  cases due : decide (payload = []) || decide (max ackFrequency 1 ≤ r.unacked + 1) with
  | true => exact .inl (by simp only [accept, due, if_true, and_self])
  | false =>
    obtain ⟨nonempty, below⟩ := Bool.or_eq_false_iff.mp due
    refine .inr ⟨?_, of_decide_eq_false nonempty, ?_, ?_⟩
    · simp only [accept, due, Bool.false_eq_true, if_false]
    · simp only [accept, due, Bool.false_eq_true, if_false]
    · exact Nat.not_le.mp (of_decide_eq_false below)

end Tether.Stream.Receiver
