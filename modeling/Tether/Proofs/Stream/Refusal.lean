import Tether.Proofs.Stream.Ledger

/-!
# Refused calls

What a buffer refuses, and why, is said here without its calls. A call fails for just that reason, and a
call that fails has changed nothing. An abort is a reason for almost every call: after the first one the
buffer never changes again, so that whatever is called later, its error is the answer.
-/

namespace Tether.Stream.Buffer

open Desk (Event Shift)

/-- Why a call is refused, if it is. -/
def refusal? (b : Buffer) : Call → Option Error
  | .write chunk =>
    if chunk = [] then some .emptyChunk
    else b.aborted.or (if b.closed then some .closed else none)
  | .next | .close => b.aborted
  | .seek count | .ack count =>
    b.aborted.or
      (if count < b.acked ∨ b.total < count then
        some (.protocolViolation s!"acknowledged {count} outside [{b.acked}, {b.total}]")
      else none)
  | .abort _ | .cancel _ => none

variable {b b' : Buffer} {e : Error}

theorem write?_eq_error_iff (chunk : Bytes) :
    b.write? chunk = some (b', .error e) ↔ b' = b ∧ b.refusal? (.write chunk) = some e := by
  rw [eq_comm (a := b')]
  unfold write? refusal?
  by_cases empty : chunk = []
  · simp [empty]
  · cases b.aborted with
    | some cause => simp [empty]
    | none =>
      cases b.closed with
      | true => simp [empty]
      | false => cases b.hasRoom <;> simp [empty]

theorem next?_eq_error_iff :
    b.next? = some (b', .error e) ↔ b' = b ∧ b.refusal? .next = some e := by
  rw [eq_comm (a := b')]
  unfold next? refusal?
  cases b.aborted with
  | some cause => simp
  | none => cases b.units[b.cursor - b.acked]? <;> simp

theorem close_eq_error_iff : b.close = (b', .error e) ↔ b' = b ∧ b.refusal? .close = some e := by
  rw [eq_comm (a := b')]
  unfold close refusal?
  cases b.aborted with
  | some cause => simp
  | none => cases b.closed <;> simp

theorem take_eq_error_iff (count cursor : Nat) :
    b.take count cursor = (b', .error e) ↔ b' = b ∧ b.refusal? (.seek count) = some e := by
  rw [eq_comm (a := b')]
  unfold take releaseBelow refusal?
  cases b.aborted with
  | some cause => simp
  | none => by_cases outside : count < b.acked ∨ b.total < count <;> simp [outside]

/-- A call that waited fails just when it is refused, and changes nothing then. -/
theorem attempt_eq_failed (w : Waiting) :
    b.attempt w = some (b', .failed e) ↔ b' = b ∧ b.refusal? w.call = some e := by
  cases w with
  | write chunk =>
    rw [attempt, Option.map_eq_some_iff, Waiting.call, ← write?_eq_error_iff]
    constructor
    · rintro ⟨⟨_, r⟩, written, same⟩
      cases r <;> cases same
      exact written
    · intro written
      exact ⟨_, written, rfl⟩
  | next =>
    rw [attempt, Option.map_eq_some_iff, Waiting.call, ← next?_eq_error_iff]
    constructor
    · rintro ⟨⟨_, r⟩, handed, same⟩
      cases r <;> cases same
      exact handed
    · intro handed
      exact ⟨_, handed, rfl⟩

/-- A call fails just when it is refused, and changes nothing then. -/
theorem arrive_eq_failed (c : Call) :
    b.arrive c = .answers b' (.failed e) ↔ b' = b ∧ b.refusal? c = some e := by
  have waits (w : Waiting) :
      arrive.orWaits b w = .answers b' (.failed e) ↔ b' = b ∧ b.refusal? w.call = some e := by
    rw [← attempt_eq_failed]
    unfold arrive.orWaits
    cases b.attempt w <;> simp [Prod.ext_iff]
  have plain (r : Buffer × Except Error Unit) :
      arrive.plain r = .answers b' (.failed e) ↔ r = (b', .error e) := by
    obtain ⟨b₁, r⟩ := r
    cases r <;> simp [arrive.plain, Answer.ofResult]
  cases c with
  | write chunk => exact waits (.write chunk)
  | next => exact waits .next
  | close => exact (plain _).trans close_eq_error_iff
  | seek count => exact (plain _).trans (take_eq_error_iff count count)
  | ack count => exact (plain _).trans (take_eq_error_iff count _)
  | abort e => simp [arrive, refusal?]
  | cancel number => simp [arrive, refusal?]

/-! ## After an abort -/

/-- An abort leaves an error behind, the first one. -/
theorem abort_eq (b : Buffer) (e : Error) :
    b.abort e = { b with aborted := some (b.aborted.getD e) } := by
  obtain ⟨acked, units, cursor, capacity, closed, aborted⟩ := b
  cases aborted <;> rfl

/-- The calls that an abort fails: all but aborts, calls that give up another, and empty writes, which fail
in any case. -/
def Call.Heeds : Call → Prop
  | .write chunk => chunk ≠ []
  | .next | .close | .seek _ | .ack _ => True
  | .abort _ | .cancel _ => False

theorem refusal?_of_aborted (aborted : b.aborted = some e) {c : Call} (heeds : c.Heeds) :
    b.refusal? c = some e := by
  cases c with
  | write chunk =>
    have filled : chunk ≠ [] := heeds
    simp [refusal?, aborted, filled]
  | next | close => exact aborted
  | seek count | ack count => simp [refusal?, aborted]
  | abort e | cancel number => exact heeds.elim

/-- A call that waits is not an empty write, so an abort fails it. -/
theorem heeds_of_attempt_eq_none {w : Waiting} (stuck : b.attempt w = none) : w.call.Heeds := by
  cases w with
  | write chunk =>
    intro empty
    simp [attempt, write?, empty] at stuck
  | next => trivial

theorem attempt_of_arrive {c : Call} {w : Waiting} (arrives : b.arrive c = .waits w) :
    b.attempt w = none := by
  have same {w' : Waiting} (now : arrive.orWaits b w' = .waits w) : b.attempt w = none := by
    unfold arrive.orWaits at now
    split at now
    · cases now
    · next stuck =>
      cases now
      exact stuck
  cases c with
  | write chunk => exact same arrives
  | next => exact same arrives
  | close | seek count | ack count | abort e | cancel number => cases arrives

/-- An aborted buffer does not change when a call is made. -/
theorem state_of_arrive {c : Call} {a : Answer} (aborted : b.aborted = some e)
    (arrives : b.arrive c = .answers b' a) : b' = b := by
  by_cases heeds : c.Heeds
  · have failed := (arrive_eq_failed c).mpr ⟨rfl, refusal?_of_aborted aborted heeds⟩
    rw [failed] at arrives
    cases arrives
    rfl
  · cases c with
    | write chunk =>
      have empty : chunk = [] := Decidable.not_not.mp heeds
      have failed := (arrive_eq_failed (b := b) (.write chunk)).mpr ⟨rfl, if_pos empty⟩
      rw [failed] at arrives
      cases arrives
      rfl
    | next | close | seek count | ack count => exact absurd trivial heeds
    | abort e' =>
      cases arrives
      rw [abort, aborted]
    | cancel number => cases arrives

theorem heeds_step {s s' : Shift Buffer Waiting Answer Call}
    (h : ∀ p ∈ s.desk.waiting, p.2.call.Heeds) (step : s.Steps attempt arrive s') :
    ∀ p ∈ s'.desk.waiting, p.2.call.Heeds := by
  cases step with
  | rests => exact h
  | goesOn line goes =>
    intro p waits
    apply h p
    rw [line]
    exact List.mem_append.mpr ((List.mem_append.mp waits).imp_right (List.mem_cons_of_mem _))
  | answers arrives => exact h
  | waits arrives =>
    intro p waits
    obtain before | new := List.mem_append.mp waits
    · exact h p before
    · cases List.mem_singleton.mp new
      exact heeds_of_attempt_eq_none (attempt_of_arrive arrives)
  | withdraws arrives => exact fun p waits => h p (List.mem_filter.mp waits).1

/-- No call that waits is an empty write. -/
theorem heeds_shift (capacity : Nat) (events : List (Event Call)) :
    ∀ p ∈ (shift capacity events).desk.waiting, p.2.call.Heeds := by
  refine Shift.run_induction (P := fun s : Shift Buffer Waiting Answer Call =>
    ∀ p ∈ s.desk.waiting, p.2.call.Heeds) ?_ heeds_step events
  intro p waits
  cases waits

/-- An aborted buffer does not change in a step. -/
theorem state_step {s s' : Shift Buffer Waiting Answer Call}
    (h : ∀ p ∈ s.desk.waiting, p.2.call.Heeds) (aborted : s.desk.state.aborted = some e)
    (step : s.Steps attempt arrive s') : s'.desk.state = s.desk.state := by
  cases step with
  | rests | waits | withdraws => rfl
  | @goesOn before after number waiting state answer line goes =>
    have heeds : waiting.call.Heeds :=
      h (number, waiting) (line ▸ List.mem_append_right _ List.mem_cons_self)
    have failed := (attempt_eq_failed waiting).mpr ⟨rfl, refusal?_of_aborted aborted heeds⟩
    rw [failed] at goes
    cases goes
    rfl
  | answers arrives => exact state_of_arrive aborted arrives

/-- After an abort, whatever happens, the buffer stays as it is. -/
theorem run_of_aborted {s : Shift Buffer Waiting Answer Call}
    (heeds : ∀ p ∈ s.desk.waiting, p.2.call.Heeds) (aborted : s.desk.state.aborted = some e)
    (later : List (Event Call)) :
    (s.run attempt arrive later).desk.state = s.desk.state ∧
      ∀ p ∈ (s.run attempt arrive later).desk.waiting, p.2.call.Heeds := by
  refine Shift.run_induction (P := fun t => t.desk.state = s.desk.state ∧
    ∀ p ∈ t.desk.waiting, p.2.call.Heeds) ⟨rfl, heeds⟩ ?_ later
  intro t t' ⟨same, heeds⟩ step
  have aborted' : t.desk.state.aborted = some e := same ▸ aborted
  exact ⟨(state_step heeds aborted' step).trans same, heeds_step heeds step⟩

/-- Calls that fail change nothing, and aborts stick. In every shift:

* a call, and a call that waited, fails just when the buffer refuses it, for that reason, and leaves the
  buffer as it was;
* after an abort, whatever happens later, other aborts included, the buffer stays as the abort left it,
  with the error that came first. Every call that heeds an abort is answered with that error at once, and
  so is every call that still waits when it is tried again. -/
theorem refused_calls_change_nothing (capacity : Nat) (before later : List (Event Call))
    (e : Error) :
    let s := shift capacity before
    let b := s.desk.state
    let s' := shift capacity (before ++ .call (.abort e) :: later)
    (∀ c b' cause, b.arrive c = .answers b' (.failed cause) ↔ b' = b ∧ b.refusal? c = some cause) ∧
      (∀ w b' cause, b.attempt w = some (b', .failed cause) ↔
        b' = b ∧ b.refusal? w.call = some cause) ∧
      s'.desk.state = { b with aborted := some (b.aborted.getD e) } ∧
      (∀ c, c.Heeds →
        s'.desk.state.arrive c = .answers s'.desk.state (.failed (b.aborted.getD e))) ∧
      ∀ p ∈ s'.desk.waiting,
        s'.desk.state.attempt p.2 = some (s'.desk.state, .failed (b.aborted.getD e)) := by
  intro s b s'
  let s₁ := s.step attempt arrive (.call (.abort e))
  have split : s' = s₁.run attempt arrive later := Shift.run_append _ _ _
  have first : s₁.desk.state = { b with aborted := some (b.aborted.getD e) } := b.abort_eq e
  have heeds₁ : ∀ p ∈ s₁.desk.waiting, p.2.call.Heeds :=
    heeds_step (heeds_shift capacity before) (s.steps_step _)
  have kept : s'.desk.state = s₁.desk.state ∧ ∀ p ∈ s'.desk.waiting, p.2.call.Heeds := by
    rw [split]
    exact run_of_aborted heeds₁ (congrArg Buffer.aborted first) later
  have aborted : s'.desk.state.aborted = some (b.aborted.getD e) := by
    rw [kept.1, first]
  refine ⟨fun c _ _ => arrive_eq_failed c, fun w _ _ => attempt_eq_failed w,
    kept.1.trans first, fun c heeds => ?_, fun p waits => ?_⟩
  · exact (arrive_eq_failed c).mpr ⟨rfl, refusal?_of_aborted aborted heeds⟩
  · exact (attempt_eq_failed p.2).mpr ⟨rfl, refusal?_of_aborted aborted (kept.2 p waits)⟩

end Tether.Stream.Buffer
