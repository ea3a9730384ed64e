import Tether.Proofs.Stream.Bookkeeping
import Tether.Proofs.Stream.Waking

/-!
# No call waits in vain

A buffer that settles after every call leaves no one waiting who could go on. A write waits for room in an
open buffer, a reader for the next unit, and nothing else makes a call wait.

When room is made, the writes that take it are the oldest ones, one for each place. All of them go on in
the first round: a write that finds no room leaves none to those behind it, and readers take no room
(`admits_round`). Later rounds can answer readers only.
-/

namespace Tether.Stream.Buffer

open Desk (Round Stuck)

variable {b b' : Buffer} {w : Waiting} {a : Answer} {chunk : Bytes}

/-! ## Who waits -/

/-- Once aborted, a buffer keeps no one waiting. -/
theorem alive_of_attempt_eq_none (waits : b.attempt w = none) : b.aborted = none := by
  cases w with
  | write chunk => exact (attempt_write_eq_none_iff.mp waits).2.1
  | next => exact (attempt_next_eq_none_iff.mp waits).1

/-- A call that waited neither closes a buffer nor aborts it. -/
theorem attempt_keeps (goes : b.attempt w = some (b', a)) :
    b'.closed = b.closed ∧ b'.aborted = b.aborted := by
  cases goesOn_of_attempt goes <;> exact ⟨rfl, rfl⟩

/-! ## Who takes the room -/

/-- The writes that wait, oldest first. -/
def writes (line : List (Nat × Waiting)) : List (Nat × Bytes) :=
  line.filterMap fun p =>
    match p.2 with
    | .write chunk => some (p.1, chunk)
    | .next => none

/-- The writes that were completed, each with the number that its chunk was given. -/
def completed (answered : List (Nat × Answer)) : List (Nat × Nat) :=
  answered.filterMap fun p => p.2.seq?.map (p.1, ·)

/-- How many of the waiting writes there is room for. -/
def places (b : Buffer) (line : List (Nat × Waiting)) : Nat :=
  min (b.capacity - b.units.length) (writes line).length

/-- The oldest writes were let in, one for each place, and given the numbers that come next. Nothing else
has changed, but for what readers were handed. -/
structure Admits (b : Buffer) (line : List (Nat × Waiting)) (r : Round Buffer Waiting Answer) :
    Prop where
  state : r.state =
    { b with
      units := b.units ++ ((writes line).take (b.places line)).map (·.2)
      cursor := r.state.cursor }
  completed : completed r.answered =
    (((writes line).take (b.places line)).zipIdx b.total).map fun p => (p.1.1, p.2)
  waiting : writes r.waiting = (writes line).drop (b.places line)

section Admits

variable {line : List (Nat × Waiting)} {r s : Round Buffer Waiting Answer} {n : Nat}

theorem writes_nil_of_closed (waits : Stuck attempt b line)
    (ended : b.closed = true ∨ b.aborted ≠ none) : writes line = [] := by
  apply List.filterMap_eq_nil_iff.mpr
  rintro ⟨n, w⟩ here
  cases w with
  | write chunk =>
    obtain ⟨-, alive, opened, -⟩ := attempt_write_eq_none_iff.mp (waits _ here)
    obtain closed | aborted := ended
    · rw [opened] at closed
      cases closed
    · exact absurd alive aborted
  | next => rfl

theorem places_write (room : b.units.length < b.capacity) :
    b.places ((n, .write chunk) :: line) =
      places { b with units := b.units ++ [chunk] } line + 1 := by
  show min _ ((writes line).length + 1) =
    min (b.capacity - (b.units ++ [chunk]).length) (writes line).length + 1
  rw [List.length_append, List.length_singleton]
  omega

theorem places_full (full : b.capacity ≤ b.units.length) : b.places line = 0 := by
  unfold places
  omega

theorem Admits.nil : Admits b [] ⟨b, [], []⟩ := by
  have none_waits : writes [] = [] := rfl
  refine ⟨?_, ?_, ?_⟩ <;> simp [none_waits, Buffer.completed]

theorem Admits.write (room : b.units.length < b.capacity)
    (rest : Admits { b with units := b.units ++ [chunk] } line r) :
    Admits b ((n, .write chunk) :: line) { r with answered := (n, .seq b.total) :: r.answered } := by
  have total : total { b with units := b.units ++ [chunk] } = b.total + 1 := by
    simp only [Buffer.total, List.length_append, List.length_singleton]
    omega
  refine ⟨?_, ?_, ?_⟩ <;> rw [places_write room]
  · rw [rest.state]
    simp [writes]
  · show (n, b.total) :: Buffer.completed r.answered = _
    rw [rest.completed, total]
    rfl
  · exact rest.waiting

theorem Admits.full (full : b.capacity ≤ b.units.length) (rest : Admits b line r) :
    Admits b ((n, .write chunk) :: line) { r with waiting := (n, .write chunk) :: r.waiting } := by
  obtain ⟨state, completed, waiting⟩ := rest
  rw [places_full full] at state completed waiting
  refine ⟨?_, ?_, ?_⟩ <;> rw [places_full full]
  · exact state
  · exact completed
  · exact congrArg ((n, chunk) :: ·) waiting

theorem Admits.hand {data : Bytes} (rest : Admits { b with cursor := b.cursor + 1 } line r) :
    Admits b ((n, .next) :: line)
      { r with answered := (n, .unit b.cursor data) :: r.answered } :=
  ⟨rest.state, rest.completed, rest.waiting⟩

theorem Admits.idle (rest : Admits b line r) :
    Admits b ((n, .next) :: line) { r with waiting := (n, .next) :: r.waiting } :=
  ⟨rest.state, rest.completed, rest.waiting⟩

/-- Those who come back later find no room. -/
theorem Admits.trans (first : Admits b line r) (again : Admits r.state r.waiting s) :
    Admits b line { s with answered := r.answered ++ s.answered } := by
  have taken : places r.state r.waiting = 0 := by
    unfold places
    rw [first.waiting, first.state]
    simp only [places, List.length_append, List.length_map, List.length_take, List.length_drop]
    omega
  obtain ⟨state, completed, waiting⟩ := again
  rw [taken] at state completed waiting
  refine ⟨?_, ?_, ?_⟩
  · show s.state = _
    rw [state, first.state]
    simp
  · show Buffer.completed (r.answered ++ s.answered) = _
    rw [Buffer.completed, List.filterMap_append]
    show Buffer.completed r.answered ++ Buffer.completed s.answered = _
    rw [completed, first.completed]
    exact List.append_nil _
  · exact waiting.trans first.waiting

/-- One round lets in all the writes that there is room for. -/
theorem admits_round (alive : b.aborted = none) (opened : b.closed = true → writes line = [])
    (heeds : ∀ p ∈ line, p.2.call.Heeds) : Admits b line (Desk.round attempt b line) := by
  induction line generalizing b with
  | nil => exact .nil
  | cons head line ih =>
    obtain ⟨n, w⟩ := head
    obtain ⟨filled, rest⟩ := List.forall_mem_cons.mp heeds
    cases w with
    | write chunk =>
      have opened : b.closed = false := by
        cases closed : b.closed with
        | false => rfl
        | true => cases opened closed
      have still : b.closed = true → writes line = [] := by
        rw [opened]
        nofun
      have filled : chunk ≠ [] := filled
      by_cases room : b.units.length < b.capacity
      · have goes : b.attempt (.write chunk) =
            some ({ b with units := b.units ++ [chunk] }, .seq b.total) := by
          simp [attempt, write?, filled, alive, opened, hasRoom, room]
        simp only [Desk.round, goes]
        exact .write room (ih alive still rest)
      · have full : b.capacity ≤ b.units.length := by omega
        have waits := attempt_write_eq_none_iff.mpr ⟨filled, alive, opened, full⟩
        simp only [Desk.round, waits]
        exact .full full (ih alive still rest)
    | next =>
      have found : b.attempt .next = b.units[b.cursor - b.acked]?.map fun data =>
          ({ b with cursor := b.cursor + 1 }, .unit b.cursor data) := by
        simp only [attempt, next?, alive]
        cases b.units[b.cursor - b.acked]? <;> rfl
      cases unit : b.units[b.cursor - b.acked]? with
      | none =>
        simp only [Desk.round, found, unit, Option.map_none]
        exact .idle (ih alive opened rest)
      | some data =>
        simp only [Desk.round, found, unit, Option.map_some]
        exact .hand (ih alive opened rest)

/-- To settle is to let in as many of the oldest writes as there is room for. -/
theorem admits_settle (alive : b.aborted = none) (opened : b.closed = true → writes line = [])
    (heeds : ∀ p ∈ line, p.2.call.Heeds) : Admits b line (Desk.settle attempt b line) := by
  induction b, line using Desk.settle.induct attempt with
  | case1 b line r still =>
    rw [Desk.settle, if_pos still]
    exact admits_round alive opened heeds
  | case2 b line r moved ih =>
    have first : Admits b line r := admits_round alive opened heeds
    have alive' : r.state.aborted = none := by
      rw [first.state]
      exact alive
    have opened' (closed : r.state.closed = true) : writes r.waiting = [] := by
      rw [first.state] at closed
      rw [first.waiting, opened closed, List.drop_nil]
    have heeds' : ∀ p ∈ r.waiting, p.2.call.Heeds := fun p waits =>
      heeds p (Desk.waiting_round_sublist.subset waits)
    rw [Desk.settle, if_neg moved]
    exact first.trans (ih alive' opened' heeds')

end Admits

/-! ## A desk at a buffer -/

/-- A buffer and those who wait on it, between calls. -/
structure Settled (capacity : Nat) (d : Desk Buffer Waiting) : Prop where
  stuck : Stuck attempt d.state d.waiting
  holds : ∃ log, d.state.Holds log
  capacity : d.state.capacity = max capacity 1
  heeds : ∀ p ∈ d.waiting, p.2.call.Heeds

/-- The desk after calls on a new buffer. -/
def served (capacity : Nat) (calls : List Call) : Desk Buffer Waiting :=
  Desk.serve attempt arrive { state := .new capacity } calls

theorem settled_served (capacity : Nat) (calls : List Call) :
    Settled capacity (served capacity calls) := by
  obtain ⟨events, reached, -⟩ := @Desk.exists_shift _ _ _ _ attempt arrive
    (Desk.Shift.mk { state := .new capacity } [] []) calls
  change (shift capacity events).desk = served capacity calls at reached
  have kept := Ledger.kept_shift capacity events
  have same := Ledger.shift_eq_map_held capacity events
  have nobody : Stuck attempt (Buffer.new capacity) [] := List.forall_mem_nil _
  refine ⟨Desk.stuck_serve nobody calls, ?_, ?_, ?_⟩
  · rw [← reached, same]
    exact ⟨_, kept.sound.holds⟩
  · rw [← reached, same]
    exact kept.capacity
  · rw [← reached]
    exact heeds_shift capacity events

section Settled

variable {capacity : Nat} {d : Desk Buffer Waiting} {n : Nat}

theorem Settled.write_waits (h : Settled capacity d) (waits : (n, .write chunk) ∈ d.waiting) :
    d.state.closed = false ∧ d.state.aborted = none ∧ max capacity 1 ≤ d.state.units.length := by
  obtain ⟨-, alive, opened, full⟩ := attempt_write_eq_none_iff.mp (h.stuck _ waits)
  exact ⟨opened, alive, h.capacity ▸ full⟩

theorem Settled.next_waits (h : Settled capacity d) (waits : (n, .next) ∈ d.waiting) :
    d.state.aborted = none ∧ d.state.cursor = d.state.total := by
  obtain ⟨log, holds⟩ := h.holds
  exact holds.next?_eq_none.mp (Option.map_eq_none_iff.mp (h.stuck _ waits))

/-- After an abort no one waits: all who did were failed with its error, oldest first. -/
theorem Settled.settle_abort (h : Settled capacity d) (e : Error) :
    Desk.settle attempt (d.state.abort e) d.waiting =
      ⟨d.state.abort e, [], d.waiting.map fun p => (p.1, .failed e)⟩ := by
  apply Desk.settle_of_all
  intro p waits
  have alive := alive_of_attempt_eq_none (h.stuck p waits)
  have aborted : (d.state.abort e).aborted = some e := by
    rw [abort_aborted, alive]
    rfl
  exact (attempt_eq_failed p.2).mpr ⟨rfl, refusal?_of_aborted aborted (h.heeds p waits)⟩

/-- A close fails every write that waits. -/
theorem Settled.failed_of_close (h : Settled capacity d) (waits : (n, .write chunk) ∈ d.waiting) :
    (n, .failed .closed) ∈ (Desk.settle attempt d.state.close.1 d.waiting).answered := by
  obtain ⟨filled, alive, opened, -⟩ := attempt_write_eq_none_iff.mp (h.stuck _ waits)
  apply Desk.mem_answered_settle
  refine Desk.mem_answered_round (P := fun b : Buffer => b.closed = true ∧ b.aborted = none)
    ?_ ?_ waits ?_
  · intro b b' w a ⟨closed, alive⟩ goes
    obtain ⟨closed', alive'⟩ := attempt_keeps goes
    exact ⟨closed'.trans closed, alive'.trans alive⟩
  · simp [close, alive, opened]
  · intro b ⟨closed, alive⟩
    refine ⟨b, (attempt_eq_failed (.write chunk)).mpr ⟨rfl, ?_⟩⟩
    simp [refusal?, Waiting.call, filled, alive, closed]

/-- Once closed or aborted, a buffer leaves no write waiting. -/
theorem writes_settle_close (b : Buffer) (line : List (Nat × Waiting)) :
    writes (Desk.settle attempt b.close.1 line).waiting = [] := by
  apply writes_nil_of_closed (Desk.stuck_settle attempt b.close.1 line)
  refine Desk.Stable.settle (P := fun b : Buffer => b.closed = true ∨ b.aborted ≠ none) ?_ ?_
  · intro b b' w a ended goes
    obtain ⟨closed, aborted⟩ := attempt_keeps goes
    rw [closed, aborted]
    exact ended
  · unfold close
    cases aborted : b.aborted with
    | some e => simp [aborted]
    | none => cases closed : b.closed <;> simp [closed]

/-- The room that a count of the peer makes is taken by the oldest writes. -/
theorem Settled.admits_take {count cursor : Nat} (h : Settled capacity d)
    (taken : d.state.take count cursor = (b, .ok ())) :
    b.capacity = max capacity 1 ∧ Admits b d.waiting (Desk.settle attempt b d.waiting) := by
  obtain ⟨e, -, failed⟩ | ⟨alive, -, -, done⟩ | ⟨-, -, detail, failed⟩ :=
    take_cases d.state count cursor
  · rw [failed] at taken
    cases taken
  · rw [done] at taken
    cases taken
    refine ⟨h.capacity, admits_settle alive (fun closed => ?_) h.heeds⟩
    exact writes_nil_of_closed h.stuck (.inl closed)
  · rw [failed] at taken
    cases taken

/-- A call that is made at a desk, and the desk that it leaves. -/
structure Unblocks (capacity : Nat) (d : Desk Buffer Waiting) (c : Call) (d' : Desk Buffer Waiting)
    (reply : Desk.Reply Buffer Answer) : Prop where
  /-- A write waits only in an open buffer that is not aborted and holds its capacity. -/
  write_waits : ∀ n chunk, (n, .write chunk) ∈ d.waiting →
    d.state.closed = false ∧ d.state.aborted = none ∧ max capacity 1 ≤ d.state.units.length
  /-- A reader waits only where everything was handed out and nothing aborted. -/
  next_waits : ∀ n, (n, .next) ∈ d.waiting →
    d.state.aborted = none ∧ d.state.cursor = d.state.total
  /-- A close leaves no write waiting, and fails those that did. -/
  close : c = .close → writes d'.waiting = [] ∧
    ∀ n chunk, (n, .write chunk) ∈ d.waiting → (n, .failed .closed) ∈ reply.answered
  /-- An abort leaves no call waiting, and fails those that did with its error. -/
  abort : ∀ e, c = .abort e →
    d'.waiting = [] ∧ reply.answered = d.waiting.map fun p => (p.1, .failed e)
  /-- Where a count of the peer makes room, as many of the oldest writes as there is room for are completed,
  with the numbers that come next, and the other writes wait on. -/
  room : ∀ n b, c = .seek n ∧ d.state.seek n = (b, .ok ()) ∨ c = .ack n ∧ d.state.ack n = (b, .ok ()) →
    let k := min (max capacity 1 - b.units.length) (writes d.waiting).length
    let oldest := (writes d.waiting).take k
    completed reply.answered = (oldest.zipIdx b.total).map (fun p => (p.1.1, p.2)) ∧
      d'.state.units = b.units ++ oldest.map (·.2) ∧ writes d'.waiting = (writes d.waiting).drop k
  /-- The rounds of trying end, after no more of them than there are calls to try. -/
  ends : ∃ rounds ≤ d.waiting.length + 1,
    let (state, line, _) := d.enter (arrive d.state c)
    Desk.rounds attempt rounds state line = ⟨d'.state, d'.waiting, reply.answered⟩ ∧
      Desk.round attempt d'.state d'.waiting = ⟨d'.state, d'.waiting, []⟩

theorem Settled.unblocks {c : Call} (h : Settled capacity d) :
    Unblocks capacity d c (d.call attempt (arrive d.state c)).1
      (d.call attempt (arrive d.state c)).2 where
  write_waits := fun _ _ => h.write_waits
  next_waits := fun _ => h.next_waits
  close := by
    rintro rfl
    exact ⟨writes_settle_close d.state d.waiting, fun _ _ => h.failed_of_close⟩
  abort := by
    rintro e rfl
    have all := h.settle_abort e
    exact ⟨congrArg Round.waiting all, congrArg Round.answered all⟩
  room := by
    rintro n b counts k oldest
    have admits : b.capacity = max capacity 1 ∧
        Admits b d.waiting ⟨(d.call attempt (arrive d.state c)).1.state,
          (d.call attempt (arrive d.state c)).1.waiting,
          (d.call attempt (arrive d.state c)).2.answered⟩ := by
      obtain ⟨rfl, taken⟩ | ⟨rfl, taken⟩ := counts
      · have same : (d.state.seek n).1 = b := congrArg Prod.fst taken
        show _ ∧ Admits b d.waiting (Desk.settle attempt (d.state.seek n).1 d.waiting)
        rw [same]
        exact h.admits_take taken
      · have same : (d.state.ack n).1 = b := congrArg Prod.fst taken
        show _ ∧ Admits b d.waiting (Desk.settle attempt (d.state.ack n).1 d.waiting)
        rw [same]
        exact h.admits_take taken
    obtain ⟨capacity_eq, state, completed, waiting⟩ := admits
    have room : b.places d.waiting = k := by
      rw [places, capacity_eq]
    rw [room] at state completed waiting
    exact ⟨completed, congrArg Buffer.units state, waiting⟩
  ends := by
    let e := d.enter (arrive d.state c)
    obtain ⟨n, few, same⟩ := Desk.exists_settle_eq_rounds attempt e.1 e.2.1
    have short : e.2.1.length ≤ d.waiting.length + 1 := d.length_enter (arrive d.state c)
    exact ⟨n, by omega, same.symm, (Desk.stuck_settle attempt e.1 e.2.1).round⟩

end Settled

/-- No call waits that could go on. Whatever was called, the next call leaves no one waiting in vain, and
lets those go on who can, in the order of their age. It is enough for that to try those who wait when they
are told of a change. -/
theorem no_call_waits_in_vain (capacity : Nat) (calls : List Call) (c : Call) :
    let d := served capacity calls
    let d' := served capacity (calls ++ [c])
    ∃ reply, d.call attempt (arrive d.state c) = (d', reply) ∧ told d c = (d', reply) ∧
      run capacity (calls ++ [c]) = run capacity calls ++ [reply] ∧ Unblocks capacity d c d' reply := by
  intro d d'
  have h : Settled capacity d := settled_served capacity calls
  have same : d' = (d.call attempt (arrive d.state c)).1 := Desk.serve_concat _ _ _ _ _
  rw [same]
  exact ⟨_, rfl, told_eq_call h.stuck c, Desk.run_concat _ _ _ _ _, h.unblocks⟩

example : (run 2 [.write [1], .write [2], .write [3], .next, .next, .next, .write [4], .ack 2]).map
    (·.answered) = [[], [], [], [], [], [], [], [(2, .seq 2), (5, .unit 2 [3]), (6, .seq 3)]] := by
  cbv

end Tether.Stream.Buffer
