import Tether.Proofs.Desk.Shift
import Tether.Proofs.Stream.Log

/-!
# The ledger behind a buffer

A ledger forgets nothing. It keeps every unit that was ever appended, with two marks on them: how many the
peer has acknowledged, and which one is handed out next. It answers the calls of a buffer from these alone.

A buffer is what is left of a ledger when the acknowledged units are dropped. Every call commutes with
that, so in any shift, whatever is called, given up or tried again and whenever, the two give the same
answers (`shift_eq_map_held`). What is to be known of buffers is then said of ledgers, where every number
is a place in one list.
-/

namespace Tether.Stream

open Buffer (Call Waiting Answer)
open Desk (Arrival Event Shift)

structure Ledger where
  /-- Every unit ever appended. The place of a unit is its number. -/
  units : List Bytes := []
  acked : Nat := 0
  cursor : Nat := 0
  capacity : Nat
  closed : Bool := false
  aborted : Option Error := none

/-- A shift at a new buffer. -/
def Buffer.shift (capacity : Nat) (events : List (Event Call)) :
    Shift Buffer Waiting Answer Call :=
  (Shift.mk { state := .new capacity } [] []).run Buffer.attempt Buffer.arrive events

/-- The call that waits. -/
def Buffer.Waiting.call : Waiting → Call
  | .write chunk => .write chunk
  | .next => .next

/-- The number that a completed write was given. -/
def Buffer.Answer.seq? : Answer → Option Nat
  | .seq n => some n
  | .done | .unit _ _ | .failed _ | .wasWaiting _ => none

namespace Ledger

/-- An empty ledger. A capacity of zero counts as one. -/
def new (capacity : Nat) : Ledger :=
  { capacity := max capacity 1 }

/-! ## Calls -/

def write? (l : Ledger) (chunk : Bytes) : Option (Ledger × Except Error Nat) :=
  if chunk = [] then some (l, .error .emptyChunk)
  else
    match l.aborted with
    | some e => some (l, .error e)
    | none =>
      if l.closed then some (l, .error .closed)
      else if l.units.length < l.acked + l.capacity then
        some ({ l with units := l.units ++ [chunk] }, .ok l.units.length)
      else none

def close (l : Ledger) : Ledger × Except Error Unit :=
  match l.aborted with
  | some e => (l, .error e)
  | none =>
    if l.closed then (l, .ok ())
    else ({ l with closed := true, units := l.units ++ [[]] }, .ok ())

def next? (l : Ledger) : Option (Ledger × Except Error (Nat × Bytes)) :=
  match l.aborted with
  | some e => some (l, .error e)
  | none =>
    match l.units[l.cursor]? with
    | some unit => some ({ l with cursor := l.cursor + 1 }, .ok (l.cursor, unit))
    | none => none

/-- Moves both marks, to a count that the peer can have reached. -/
def mark (l : Ledger) (count cursor : Nat) : Ledger × Except Error Unit :=
  match l.aborted with
  | some e => (l, .error e)
  | none =>
    if count < l.acked ∨ l.units.length < count then
      (l, .error (.protocolViolation
        s!"acknowledged {count} outside [{l.acked}, {l.units.length}]"))
    else ({ l with acked := count, cursor }, .ok ())

def seek (l : Ledger) (count : Nat) : Ledger × Except Error Unit :=
  l.mark count count

def ack (l : Ledger) (count : Nat) : Ledger × Except Error Unit :=
  l.mark count (max l.cursor count)

def abort (l : Ledger) (e : Error) : Ledger :=
  { l with aborted := some (l.aborted.getD e) }

def attempt (l : Ledger) : Waiting → Option (Ledger × Answer)
  | .write chunk =>
    (l.write? chunk).map fun (l, r) =>
      match r with
      | .ok n => (l, .seq n)
      | .error e => (l, .failed e)
  | .next =>
    l.next?.map fun (l, r) =>
      match r with
      | .ok (n, data) => (l, .unit n data)
      | .error e => (l, .failed e)

def arrive (l : Ledger) : Call → Arrival Ledger Waiting Answer
  | .write chunk => orWaits (.write chunk)
  | .next => orWaits .next
  | .close => plain l.close
  | .seek count => plain (l.seek count)
  | .ack count => plain (l.ack count)
  | .abort e => .answers (l.abort e) .done
  | .cancel number => .withdraws number .wasWaiting
where
  plain (r : Ledger × Except Error Unit) : Arrival Ledger Waiting Answer :=
    .answers r.1 (Answer.ofResult r.2)
  orWaits (call : Waiting) : Arrival Ledger Waiting Answer :=
    match l.attempt call with
    | some (l, answer) => .answers l answer
    | none => .waits call

/-- A shift at a new ledger. -/
def shift (capacity : Nat) (events : List (Event Call)) : Shift Ledger Waiting Answer Call :=
  (Shift.mk { state := .new capacity } [] []).run attempt arrive events

/-! ## What is left of a ledger -/

/-- The buffer that has dropped the units acknowledged. -/
def held (l : Ledger) : Buffer :=
  { acked := l.acked
    units := l.units.drop l.acked
    cursor := l.cursor
    capacity := l.capacity
    closed := l.closed
    aborted := l.aborted }

/-- The marks stand in the ledger, in order, and what is not acknowledged is no more than the capacity
and an end marker, which is the last unit and the only one that is empty. -/
structure Sound (l : Ledger) : Prop where
  acked_le : l.acked ≤ l.cursor
  cursor_le : l.cursor ≤ l.units.length
  room : l.units.length ≤ l.acked + l.capacity + l.closed.toNat
  marker : ∀ n, l.units[n]? = some [] ↔ l.closed = true ∧ n + 1 = l.units.length

variable {l l' : Ledger}

theorem Sound.holds (h : l.Sound) : l.held.Holds l.units :=
  ⟨rfl, h.acked_le, h.cursor_le⟩

theorem held_write? (h : l.Sound) (chunk : Bytes) :
    l.held.write? chunk = (l.write? chunk).map (Prod.map held id) := by
  have acked := h.acked_le
  have cursor := h.cursor_le
  have room : l.held.hasRoom = decide (l.units.length < l.acked + l.capacity) := by
    simp only [Buffer.hasRoom, held, List.length_drop, decide_eq_decide]
    omega
  simp only [Buffer.write?, write?, room, h.holds.total, h.holds.append chunk]
  by_cases empty : chunk = []
  · simp [empty, held]
  · cases aborted : l.aborted with
    | some e => simp [empty, aborted, held]
    | none =>
      by_cases full : l.units.length < l.acked + l.capacity <;>
        cases closed : l.closed <;> simp [empty, aborted, closed, full, held]

theorem held_close (h : l.Sound) : l.held.close = Prod.map held id l.close := by
  simp only [Buffer.close, close, h.holds.append []]
  cases aborted : l.aborted with
  | some e => simp [aborted, held]
  | none => cases closed : l.closed <;> simp [aborted, closed, held]

theorem held_next? (h : l.Sound) : l.held.next? = l.next?.map (Prod.map held id) := by
  have unit : l.held.units[l.held.cursor - l.held.acked]? = l.units[l.cursor]? := by
    simp only [held, List.getElem?_drop, Nat.add_sub_cancel' h.acked_le]
  simp only [Buffer.next?, next?, unit]
  cases aborted : l.aborted with
  | some e => simp [aborted, held]
  | none => cases found : l.units[l.cursor]? <;> simp [aborted, held]

theorem held_mark (h : l.Sound) (count cursor : Nat) :
    l.held.take count cursor = Prod.map held id (l.mark count cursor) := by
  have total : l.held.total = l.units.length := h.holds.total
  simp only [Buffer.take, Buffer.releaseBelow, mark, total]
  cases aborted : l.aborted with
  | some e => simp [aborted, held]
  | none =>
    by_cases outside : count < l.acked ∨ l.units.length < count
    · simp [aborted, held, outside]
    · have lower : l.acked ≤ count := by omega
      simp [aborted, held, outside, Nat.add_sub_cancel' lower]

theorem held_abort (e : Error) : l.held.abort e = (l.abort e).held := by
  cases aborted : l.aborted <;> simp [Buffer.abort, abort, held, aborted]

theorem held_attempt (h : l.Sound) (w : Waiting) :
    l.held.attempt w = (l.attempt w).map (Prod.map held id) := by
  cases w with
  | write chunk =>
    simp only [Buffer.attempt, attempt, held_write? h, Option.map_map]
    congr 1
    funext p
    obtain ⟨_, r⟩ := p
    cases r <;> rfl
  | next =>
    simp only [Buffer.attempt, attempt, held_next? h, Option.map_map]
    congr 1
    funext p
    obtain ⟨_, r⟩ := p
    cases r <;> rfl

theorem held_arrive (h : l.Sound) (c : Call) :
    l.held.arrive c = Shift.image held (l.arrive c) := by
  have waits (w : Waiting) :
      Buffer.arrive.orWaits l.held w = Shift.image held (arrive.orWaits l w) := by
    simp only [Buffer.arrive.orWaits, arrive.orWaits, held_attempt h]
    cases l.attempt w <;> rfl
  cases c with
  | write chunk => exact waits (.write chunk)
  | next => exact waits .next
  | close => simp only [Buffer.arrive, Buffer.arrive.plain, held_close h]; rfl
  | seek count =>
    simp only [Buffer.arrive, Buffer.arrive.plain, Buffer.seek, held_mark h]
    rfl
  | ack count =>
    simp only [Buffer.arrive, Buffer.arrive.plain, Buffer.ack, held_mark h]
    rfl
  | abort e => simp only [Buffer.arrive, held_abort]; rfl
  | cancel number => rfl

/-! ## What a call does -/

/-- Everything that a call can do when it answers. -/
inductive Does (l : Ledger) : Call → Ledger → Answer → Prop where
  | writes {chunk : Bytes} (filled : chunk ≠ []) (opened : l.closed = false)
    (room : l.units.length < l.acked + l.capacity) :
    Does l (.write chunk) { l with units := l.units ++ [chunk] } (.seq l.units.length)
  | hands {data : Bytes} (found : l.units[l.cursor]? = some data) :
    Does l .next { l with cursor := l.cursor + 1 } (.unit l.cursor data)
  | closes (opened : l.closed = false) :
    Does l .close { l with closed := true, units := l.units ++ [[]] } .done
  | marks {c : Call} {count cursor : Nat} (lower : l.acked ≤ count) (ahead : count ≤ cursor)
    (upper : cursor ≤ l.units.length) : Does l c { l with acked := count, cursor } .done
  | aborts {e : Error} : Does l (.abort e) (l.abort e) .done
  | rests {c : Call} : Does l c l .done
  | refuses {c : Call} {e : Error} : Does l c l (.failed e)
  | withdraws {number : Nat} {waited : Bool} : Does l (.cancel number) l (.wasWaiting waited)

theorem does_attempt {w : Waiting} {a : Answer} (h : l.attempt w = some (l', a)) :
    l.Does w.call l' a := by
  cases w with
  | write chunk =>
    obtain ⟨⟨_, r⟩, written, same⟩ := Option.map_eq_some_iff.mp h
    unfold write? at written
    split at written
    · cases written; cases same; exact .refuses
    · next filled =>
      split at written
      · cases written; cases same; exact .refuses
      · split at written
        · cases written; cases same; exact .refuses
        · next opened =>
          split at written
          · next room =>
            cases written
            cases same
            exact .writes filled (by simpa using opened) room
          · cases written
  | next =>
    obtain ⟨⟨_, r⟩, handed, same⟩ := Option.map_eq_some_iff.mp h
    unfold next? at handed
    split at handed
    · cases handed; cases same; exact .refuses
    · split at handed
      · next data found => cases handed; cases same; exact .hands found
      · cases handed

theorem does_mark {c : Call} {count cursor : Nat} (ahead : count ≤ cursor)
    (upper : count ≤ l.units.length → cursor ≤ l.units.length) :
    l.Does c (l.mark count cursor).1 (Answer.ofResult (l.mark count cursor).2) := by
  unfold mark
  split
  · exact .refuses
  · split
    · exact .refuses
    · exact .marks (by omega) ahead (upper (by omega))

theorem does_arrive (h : l.Sound) {c : Call} {a : Answer} (arrives : l.arrive c = .answers l' a) :
    l.Does c l' a := by
  have waits {w : Waiting} (now : arrive.orWaits l w = .answers l' a) : l.Does w.call l' a := by
    unfold arrive.orWaits at now
    split at now
    · next goes => cases now; exact does_attempt goes
    · cases now
  cases c with
  | write chunk => exact waits arrives
  | next => exact waits arrives
  | close =>
    cases arrives
    unfold close
    split
    · exact .refuses
    · split
      · exact .rests
      · next opened => exact .closes (by simpa using opened)
  | seek count => cases arrives; exact does_mark (Nat.le_refl _) id
  | ack count =>
    cases arrives
    exact does_mark (Nat.le_max_right _ _) fun bound => Nat.max_le.mpr ⟨h.cursor_le, bound⟩
  | abort e => cases arrives; exact .aborts
  | cancel number => cases arrives

theorem waiting_of_arrive {c : Call} {w : Waiting} (arrives : l.arrive c = .waits w) :
    w.call = c := by
  have same {w' : Waiting} (now : arrive.orWaits l w' = .waits w) : w' = w := by
    unfold arrive.orWaits at now
    split at now
    · cases now
    · cases now; rfl
  cases c with
  | write chunk => rw [← same arrives]; rfl
  | next => rw [← same arrives]; rfl
  | close | seek count | ack count | abort e | cancel number => cases arrives

theorem withdraws_of_arrive {c : Call} {number : Nat} {answer : Bool → Answer} {waited : Bool}
    (arrives : l.arrive c = .withdraws number answer) : l.Does c l (answer waited) := by
  have never {w : Waiting} (now : arrive.orWaits l w = .withdraws number answer) : False := by
    unfold arrive.orWaits at now
    split at now <;> cases now
  cases c with
  | write chunk => exact (never arrives).elim
  | next => exact (never arrives).elim
  | cancel number => cases arrives; exact .withdraws
  | close | seek count | ack count | abort e => cases arrives

theorem sound_new (capacity : Nat) : (new capacity).Sound :=
  ⟨Nat.le_refl 0, Nat.le_refl 0, Nat.zero_le _, by simp [new]⟩

theorem Sound.does {c : Call} {a : Answer} (h : l.Sound) (does : l.Does c l' a) : l'.Sound := by
  obtain ⟨acked, cursor, room, marker⟩ := h
  cases does with
  | writes filled opened free =>
    refine ⟨acked, ?_, ?_, fun n => ?_⟩
    · show l.cursor ≤ (l.units ++ [_]).length
      rw [List.length_append]
      omega
    · show (l.units ++ [_]).length ≤ l.acked + l.capacity + l.closed.toNat
      rw [List.length_append, List.length_singleton]
      omega
    · have before := marker n
      rw [List.getElem?_append]
      split <;> grind
  | hands found =>
    obtain ⟨bound, -⟩ := List.getElem?_eq_some_iff.mp found
    exact ⟨Nat.le_succ_of_le acked, bound, room, marker⟩
  | closes opened =>
    refine ⟨acked, ?_, ?_, fun n => ?_⟩
    · show l.cursor ≤ (l.units ++ [[]]).length
      rw [List.length_append]
      omega
    · show (l.units ++ [[]]).length ≤ l.acked + l.capacity + true.toNat
      rw [opened] at room
      rw [List.length_append, List.length_singleton]
      exact Nat.succ_le_succ room
    · have before := marker n
      rw [List.getElem?_append]
      split <;> grind
  | marks lower ahead upper =>
    exact ⟨ahead, upper,
      Nat.le_trans room (Nat.add_le_add_right (Nat.add_le_add_right lower _) _), marker⟩
  | aborts | rests | refuses | withdraws => exact ⟨acked, cursor, room, marker⟩

end Ledger

end Tether.Stream
