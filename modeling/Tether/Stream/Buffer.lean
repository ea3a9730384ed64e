import Tether.Desk
import Tether.Stream.Error

/-!
# The retransmission buffer

The sending side of a stream holds every unit that the peer has not acknowledged, numbered without
gaps, and a cursor that hands them to the link of the moment. The peer's counts release units from
the front; a request to resend also moves the cursor back. Writes wait while the buffer is full, the
cursor's reader while it has handed out everything. The end marker is an empty unit, and is taken
even when the buffer is full.

An abort ends the buffer: every call from then on fails with its error, waiting ones included. Calls
that fail change nothing.
-/

namespace Tether.Stream

/-- The units of a stream that the peer has not acknowledged yet. -/
structure Buffer where
  /-- The number of the first unit held. All units below it were acknowledged. -/
  acked : Nat := 0
  units : List Bytes := []
  /-- The number of the next unit to hand to the link. -/
  cursor : Nat := 0
  capacity : Nat
  closed : Bool := false
  aborted : Option Error := none
  deriving DecidableEq, Repr

namespace Buffer

/-- An empty buffer. A capacity of zero counts as one. -/
def new (capacity : Nat) : Buffer :=
  { capacity := max capacity 1 }

/-- The number that the next unit will get. -/
def total (b : Buffer) : Nat :=
  b.acked + b.units.length

/-- Whether a write can go on now. -/
def hasRoom (b : Buffer) : Bool :=
  b.units.length < b.capacity

/-- Appends a chunk, giving its number. No answer means that the write has to wait for room. -/
def write? (b : Buffer) (chunk : Bytes) : Option (Buffer × Except Error Nat) :=
  if chunk = [] then some (b, .error .emptyChunk)
  else
    match b.aborted with
    | some e => some (b, .error e)
    | none =>
      if b.closed then some (b, .error .closed)
      else if b.hasRoom then some ({ b with units := b.units ++ [chunk] }, .ok b.total)
      else none

/-- Appends the end marker, once. -/
def close (b : Buffer) : Buffer × Except Error Unit :=
  match b.aborted with
  | some e => (b, .error e)
  | none =>
    if b.closed then (b, .ok ())
    else ({ b with closed := true, units := b.units ++ [[]] }, .ok ())

/-- Hands out the unit under the cursor, with its number. No answer means that there is none yet. -/
def next? (b : Buffer) : Option (Buffer × Except Error (Nat × Bytes)) :=
  match b.aborted with
  | some e => some (b, .error e)
  | none =>
    match b.units[b.cursor - b.acked]? with
    | some unit => some ({ b with cursor := b.cursor + 1 }, .ok (b.cursor, unit))
    | none => none

/-- Releases the units below `count`, which must be a count that the peer can have reached. -/
def releaseBelow (b : Buffer) (count : Nat) : Except Error Buffer :=
  if count < b.acked ∨ b.total < count then
    .error (.protocolViolation s!"acknowledged {count} outside [{b.acked}, {b.total}]")
  else .ok { b with acked := count, units := b.units.drop (count - b.acked) }

/-- A release happens exactly for the counts that the peer can have reached. -/
theorem releaseBelow_eq_ok {b released : Buffer} {count : Nat} :
    b.releaseBelow count = .ok released ↔
      b.acked ≤ count ∧ count ≤ b.total ∧
        released = { b with acked := count, units := b.units.drop (count - b.acked) } := by
  unfold releaseBelow
  split
  · next h => exact ⟨nofun, fun ⟨h₁, h₂, _⟩ => by omega⟩
  · next h => exact ⟨fun e => ⟨by omega, by omega, by injection e with e; exact e.symm⟩,
      fun ⟨_, _, e⟩ => e ▸ rfl⟩

/-- A release changes no numbers. -/
theorem total_of_releaseBelow {b released : Buffer} {count : Nat}
    (h : b.releaseBelow count = .ok released) : released.total = b.total := by
  obtain ⟨h₁, h₂, rfl⟩ := releaseBelow_eq_ok.mp h
  simp only [total, List.length_drop] at h₂ ⊢
  omega

/-- Takes a count from the peer and then adjusts the cursor. -/
def take (b : Buffer) (count : Nat) (cursor : Nat) : Buffer × Except Error Unit :=
  match b.aborted with
  | some e => (b, .error e)
  | none =>
    match b.releaseBelow count with
    | .ok released => ({ released with cursor }, .ok ())
    | .error e => (b, .error e)

/-- The peer holds every unit below `count` and wants the others again. -/
def seek (b : Buffer) (count : Nat) : Buffer × Except Error Unit :=
  b.take count count

/-- The peer holds every unit below `count`. -/
def ack (b : Buffer) (count : Nat) : Buffer × Except Error Unit :=
  b.take count (max b.cursor count)

/-- Ends the buffer. The first error stays. -/
def abort (b : Buffer) (e : Error) : Buffer :=
  match b.aborted with
  | some _ => b
  | none => { b with aborted := some e }

/-- Whether the end marker was written and the peer has acknowledged everything. -/
def drained (b : Buffer) : Bool :=
  b.closed && b.units.isEmpty

/-! ## Calls that may wait -/

/-- A call that is kept while it cannot go on. -/
inductive Waiting where
  | write (chunk : Bytes)
  | next
  deriving DecidableEq, Repr

/-- What a call answers. -/
inductive Answer where
  | done
  | seq (n : Nat)
  | unit (n : Nat) (data : Bytes)
  | failed (e : Error)
  /-- The answer to a cancellation: whether the call was still waiting. -/
  | wasWaiting (b : Bool)
  deriving DecidableEq, Repr

/-- The answer to a call without a value. -/
def Answer.ofResult : Except Error Unit → Answer
  | .ok () => done
  | .error e => failed e

/-- Tries a call that may have to wait. -/
def attempt (b : Buffer) : Waiting → Option (Buffer × Answer)
  | .write chunk =>
    (b.write? chunk).map fun (b, r) =>
      match r with
      | .ok n => (b, .seq n)
      | .error e => (b, .failed e)
  | .next =>
    b.next?.map fun (b, r) =>
      match r with
      | .ok (n, data) => (b, .unit n data)
      | .error e => (b, .failed e)

/-- Any call on a buffer. -/
inductive Call where
  | write (chunk : Bytes)
  | next
  | close
  | seek (count : Nat)
  | ack (count : Nat)
  | abort (e : Error)
  /-- Gives up the waiting call that was made as the `number`-th. -/
  | cancel (number : Nat)
  deriving DecidableEq, Repr

/-- What becomes of a call when it is made. -/
def arrive (b : Buffer) : Call → Desk.Arrival Buffer Waiting Answer
  | .write chunk => orWaits (.write chunk)
  | .next => orWaits .next
  | .close => plain b.close
  | .seek count => plain (b.seek count)
  | .ack count => plain (b.ack count)
  | .abort e => .answers (b.abort e) .done
  | .cancel number => .withdraws number .wasWaiting
where
  plain (r : Buffer × Except Error Unit) : Desk.Arrival Buffer Waiting Answer :=
    .answers r.1 (Answer.ofResult r.2)
  orWaits (call : Waiting) : Desk.Arrival Buffer Waiting Answer :=
    match b.attempt call with
    | some (b, answer) => .answers b answer
    | none => .waits call

/-- Makes calls in turn on a new buffer. -/
def run (capacity : Nat) (calls : List Call) : List (Desk.Reply Buffer Answer) :=
  Desk.run attempt arrive { state := .new capacity } calls

end Buffer

end Tether.Stream
