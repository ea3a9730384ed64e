import Tether.Proofs.Stream.Ledger

/-!
# A buffer keeps its books

The law of retransmission buffers, over every shift: a buffer acts as the ledger behind it does. Its marks
stand in order, what it holds is the ledger from the first mark on, and every answer that it ever gave is
an entry of the ledger. The writes that were completed have the numbers from zero on, in the order in which
they were completed; so those that failed or were given up have left no hole.
-/

namespace Tether.Stream

open Buffer (Call Waiting Answer)
open Desk (Event Shift)

namespace Ledger

variable {l l' : Ledger} {c : Call} {a : Answer} {n : Nat}

/-- A ledger only grows, by one unit at a time. -/
theorem Does.grows (does : l.Does c l' a) :
    ∃ more, l'.units = l.units ++ more ∧ more.length ≤ 1 := by
  cases does with
  | writes => exact ⟨_, rfl, Nat.le_refl 1⟩
  | closes => exact ⟨_, rfl, Nat.le_refl 1⟩
  | hands | marks | aborts | rests | refuses | withdraws =>
    exact ⟨[], (List.append_nil _).symm, Nat.zero_le 1⟩

theorem Does.capacity (does : l.Does c l' a) : l'.capacity = l.capacity := by
  cases does <;> rfl

/-- The answers given are entries of the ledger, each to the call that it was given to. -/
structure Recorded (made : List Call) (answered : List (Nat × Answer)) (l : Ledger) : Prop where
  numbered : ∃ k, answered.filterMap (·.2.seq?) = List.range k ∧
    l.units.length = k + l.closed.toNat
  wrote : ∀ {n k}, (n, .seq k) ∈ answered →
    ∃ chunk, made[n]? = some (.write chunk) ∧ l.units[k]? = some chunk
  handed : ∀ {n k data}, (n, .unit k data) ∈ answered →
    made[n]? = some .next ∧ l.units[k]? = some data

section Recorded

variable {made : List Call} {answered : List (Nat × Answer)}

theorem Recorded.calls (h : Recorded made answered l) (c : Call) :
    Recorded (made ++ [c]) answered l := by
  have still {n : Nat} {c' : Call} (known : made[n]? = some c') : (made ++ [c])[n]? = some c' := by
    rw [List.getElem?_append_left (List.getElem?_eq_some_iff.mp known).1, known]
  refine ⟨h.numbered, fun wrote => ?_, fun handed => ?_⟩
  · obtain ⟨chunk, known, found⟩ := h.wrote wrote
    exact ⟨chunk, still known, found⟩
  · obtain ⟨known, found⟩ := h.handed handed
    exact ⟨still known, found⟩

/-- One more answer, to a call that was made. -/
theorem Recorded.does (h : Recorded made answered l) (called : made[n]? = some c)
    (does : l.Does c l' a) : Recorded made (answered ++ [(n, a)]) l' := by
  obtain ⟨more, grown, -⟩ := does.grows
  have still {k : Nat} {unit : Bytes} (found : l.units[k]? = some unit) :
      l'.units[k]? = some unit := by
    rw [grown, List.getElem?_append_left (List.getElem?_eq_some_iff.mp found).1, found]
  refine ⟨?_, fun wrote => ?_, fun handed => ?_⟩
  · obtain ⟨k, numbers, length⟩ := h.numbered
    rw [List.filterMap_append, numbers]
    cases does with
    | writes filled opened room =>
      rw [opened, Bool.toNat_false, Nat.add_zero] at length
      refine ⟨k + 1, ?_, ?_⟩
      · rw [List.range_succ, length]
        rfl
      · show (l.units ++ [_]).length = k + 1 + l.closed.toNat
        rw [List.length_append, length, opened]
        rfl
    | closes opened =>
      refine ⟨k, List.append_nil _, ?_⟩
      show (l.units ++ [[]]).length = k + true.toNat
      rw [List.length_append, length, opened]
      rfl
    | hands | marks | aborts | rests | refuses | withdraws =>
      exact ⟨k, List.append_nil _, length⟩
  · obtain before | new := List.mem_append.mp wrote
    · obtain ⟨chunk, known, found⟩ := h.wrote before
      exact ⟨chunk, known, still found⟩
    · cases List.mem_singleton.mp new
      cases does with
      | @writes chunk => exact ⟨chunk, called, List.getElem?_concat_length⟩
  · obtain before | new := List.mem_append.mp handed
    · obtain ⟨known, found⟩ := h.handed before
      exact ⟨known, still found⟩
    · cases List.mem_singleton.mp new
      cases does with
      | hands found => exact ⟨called, found⟩

end Recorded

/-- What a shift keeps. Calls that wait are known by their numbers, and every unit has taken a call of its
own, which does not wait any more. -/
structure Kept (capacity : Nat) (s : Shift Ledger Waiting Answer Call) : Prop where
  counted : s.desk.made = s.made.length
  line : ∀ p ∈ s.desk.waiting, s.made[p.1]? = some p.2.call
  sound : s.desk.state.Sound
  capacity : s.desk.state.capacity = max capacity 1
  few : s.desk.state.units.length + s.desk.waiting.length ≤ s.made.length
  recorded : Recorded s.made s.answered s.desk.state

theorem kept_shift (capacity : Nat) (events : List (Event Call)) :
    Kept capacity (shift capacity events) := by
  refine Shift.run_induction ?_ ?_ events
  · exact ⟨rfl, nofun, sound_new capacity, rfl, Nat.le_refl 0, ⟨0, rfl, rfl⟩, nofun, nofun⟩
  · intro s s' h step
    have made (c : Call) : (s.made ++ [c])[s.desk.made]? = some c := by
      rw [h.counted, List.getElem?_concat_length]
    have line (c : Call) : ∀ p ∈ s.desk.waiting, (s.made ++ [c])[p.1]? = some p.2.call := by
      intro p waits
      have known := h.line p waits
      rw [List.getElem?_append_left (List.getElem?_eq_some_iff.mp known).1, known]
    have counted (c : Call) : s.desk.made + 1 = (s.made ++ [c]).length := by
      rw [List.length_append, List.length_singleton, h.counted]
    have few := h.few
    cases step with
    | rests => exact h
    | @goesOn before after number waiting state answer same goes =>
      have does := does_attempt goes
      obtain ⟨more, grown, short⟩ := does.grows
      have known : s.made[number]? = some waiting.call :=
        h.line (number, waiting) (same ▸ List.mem_append_right _ List.mem_cons_self)
      refine ⟨h.counted, fun p waits => h.line p ?_, h.sound.does does,
        does.capacity.trans h.capacity, ?_, h.recorded.does known does⟩
      · rw [same]
        exact List.mem_append.mpr ((List.mem_append.mp waits).imp_right (List.mem_cons_of_mem _))
      · show state.units.length + (before ++ after).length ≤ s.made.length
        rw [same] at few
        simp only [grown, List.length_append, List.length_cons] at few ⊢
        omega
    | @answers c state answer arrives =>
      have does := does_arrive h.sound arrives
      obtain ⟨more, grown, short⟩ := does.grows
      refine ⟨counted c, line c, h.sound.does does, does.capacity.trans h.capacity, ?_,
        (h.recorded.calls c).does (made c) does⟩
      show state.units.length + s.desk.waiting.length ≤ (s.made ++ [c]).length
      simp only [grown, List.length_append, List.length_cons, List.length_nil]
      omega
    | @waits c waiting arrives =>
      refine ⟨counted c, fun p waits => ?_, h.sound, h.capacity, ?_, h.recorded.calls c⟩
      · obtain before | new := List.mem_append.mp waits
        · exact line c p before
        · cases List.mem_singleton.mp new
          show (s.made ++ [c])[s.desk.made]? = some waiting.call
          rw [made, waiting_of_arrive arrives]
      · show s.desk.state.units.length + (s.desk.waiting ++ [_]).length ≤ (s.made ++ [c]).length
        simp only [List.length_append, List.length_cons, List.length_nil]
        omega
    | @withdraws c number answer arrives =>
      refine ⟨counted c, fun p waits => line c p (List.mem_filter.mp waits).1, h.sound,
        h.capacity, ?_, (h.recorded.calls c).does (made c) (withdraws_of_arrive arrives)⟩
      have shorter : (s.desk.waiting.filter (·.1 ≠ number)).length ≤ s.desk.waiting.length :=
        List.length_filter_le _ _
      show s.desk.state.units.length + _ ≤ (s.made ++ [c]).length
      simp only [List.length_append, List.length_cons, List.length_nil]
      omega

/-- In every shift a buffer is what is left of its ledger, and gives the same answers. -/
theorem shift_eq_map_held (capacity : Nat) (events : List (Event Call)) :
    Buffer.shift capacity events = (shift capacity events).map held := by
  have reached (earlier : List (Event Call)) : (Shift.run attempt arrive
      (Shift.mk { state := new capacity } [] []) earlier).desk.state.Sound :=
    (kept_shift capacity earlier).sound
  exact Shift.run_map reached held_attempt held_arrive events

end Ledger

namespace Buffer

/-- A buffer follows a log of all the units appended: what it holds, and what its calls do, is said by the
log and two marks on it. -/
structure Follows (b : Buffer) (capacity : Nat) (log : List Bytes) : Prop where
  acked_le : b.acked ≤ b.cursor
  cursor_le : b.cursor ≤ b.total
  total_eq : b.total = log.length
  units_eq : b.units = log.drop b.acked
  few : b.units.length ≤ max capacity 1 + b.closed.toNat
  /-- The end marker is the only empty unit, and the last one. -/
  marker : ∀ n, log[n]? = some [] ↔ b.closed = true ∧ n + 1 = log.length
  drained : b.drained = true ↔ b.closed = true ∧ b.acked = log.length
  write : ∀ chunk n b', b.write? chunk = some (b', .ok n) →
    n = log.length ∧ b' = { b with units := (log ++ [chunk]).drop b.acked }
  /-- The unit that is handed out is among those held. -/
  next : b.aborted = none → b.cursor < b.total →
    ∃ inside : b.cursor - b.acked < b.units.length,
      log[b.cursor]? = some b.units[b.cursor - b.acked] ∧
      b.next? = some ({ b with cursor := b.cursor + 1 },
        .ok (b.cursor, b.units[b.cursor - b.acked]))
  waits : b.next? = none ↔ b.aborted = none ∧ b.cursor = b.total
  seek : ∀ n b', b.seek n = (b', .ok ()) →
    b' = { b with acked := n, cursor := n, units := log.drop n }
  ack : ∀ n b', b.ack n = (b', .ok ()) →
    b' = { b with acked := n, cursor := max b.cursor n, units := log.drop n }

variable {b b' : Buffer} {log : List Bytes}

/-- A reader waits just when it has been handed everything. -/
theorem Holds.next?_eq_none (h : b.Holds log) :
    b.next? = none ↔ b.aborted = none ∧ b.cursor = b.total := by
  have cursor := h.cursor_le
  unfold next?
  rw [h.getElem?_units, h.total]
  split
  · next e aborted => simp [aborted]
  · next aborted =>
    split
    · next unit found =>
      obtain ⟨bound, -⟩ := List.getElem?_eq_some_iff.mp found
      refine ⟨nofun, fun ⟨_, all⟩ => ?_⟩
      omega
    · next missing =>
      have beyond := List.getElem?_eq_none_iff.mp missing
      exact ⟨fun _ => ⟨aborted, by omega⟩, fun _ => rfl⟩

theorem Holds.take_eq_ok {count cursor : Nat} (h : b.Holds log)
    (taken : b.take count cursor = (b', .ok ())) :
    b' = { b with acked := count, cursor, units := log.drop count } := by
  obtain ⟨e, -, failed⟩ | ⟨-, lower, -, done⟩ | ⟨-, -, detail, failed⟩ := take_cases b count cursor
  · rw [failed] at taken
    cases taken
  · rw [done, h.units, List.drop_drop, Nat.add_sub_cancel' lower] at taken
    cases taken
    rfl
  · rw [failed] at taken
    cases taken

/-- While there is more to hand out, the unit under the cursor is among those held. -/
theorem Holds.next?_eq_some (h : b.Holds log) (alive : b.aborted = none)
    (more : b.cursor < b.total) : ∃ inside : b.cursor - b.acked < b.units.length,
      log[b.cursor]? = some b.units[b.cursor - b.acked] ∧
      b.next? = some ({ b with cursor := b.cursor + 1 },
        .ok (b.cursor, b.units[b.cursor - b.acked])) := by
  have inside : b.cursor - b.acked < b.units.length := by
    have := h.acked_le
    rw [Buffer.total] at more
    omega
  have found := List.getElem?_eq_getElem inside
  refine ⟨inside, ?_, ?_⟩
  · rw [← h.getElem?_units, found]
  · simp only [next?, alive, found]

theorem Holds.drained_iff (h : b.Holds log) :
    b.drained = true ↔ b.closed = true ∧ b.acked = log.length := by
  have acked := h.acked_le
  have cursor := h.cursor_le
  simp only [drained, Bool.and_eq_true, List.isEmpty_iff, ← List.length_eq_zero_iff, h.length_units]
  apply and_congr_right
  intro _
  omega

theorem Holds.follows {capacity : Nat} (h : b.Holds log)
    (room : log.length ≤ b.acked + max capacity 1 + b.closed.toNat)
    (marker : ∀ n, log[n]? = some [] ↔ b.closed = true ∧ n + 1 = log.length) :
    b.Follows capacity log where
  acked_le := h.acked_le
  cursor_le := h.total ▸ h.cursor_le
  total_eq := h.total
  units_eq := h.units
  few := by rw [h.length_units]; omega
  marker := marker
  drained := h.drained_iff
  write := by
    intro chunk n b' written
    obtain ⟨-, -, -, -, rfl, rfl⟩ := write?_eq_ok.mp written
    rw [h.total, h.append]
    exact ⟨rfl, rfl⟩
  next := h.next?_eq_some
  waits := h.next?_eq_none
  seek := fun _ _ => h.take_eq_ok
  ack := fun _ _ => h.take_eq_ok

end Buffer

/-- In every shift a buffer acts as a plain log of all units ever appended. It gives the answers of its
ledger, and follows the log that the ledger keeps. The writes completed were given the numbers from
zero on, in the order in which they were completed, and each put its chunk in the place of its number;
behind them the log holds the end marker, if the buffer was closed, and nothing else. Whatever was
handed out is the unit of its number. No number is higher than the count of the calls made. -/
theorem Buffer.acts_as_ledger (capacity : Nat) (events : List (Event Call)) :
    let s := Buffer.shift capacity events
    let t := Ledger.shift capacity events
    let log := t.desk.state.units
    s = t.map Ledger.held ∧ s.desk.state.Follows capacity log ∧
      (∃ k, s.answered.filterMap (·.2.seq?) = List.range k ∧
        log.length = k + s.desk.state.closed.toNat) ∧
      (∀ n k, (n, .seq k) ∈ s.answered →
        ∃ chunk, s.made[n]? = some (.write chunk) ∧ log[k]? = some chunk) ∧
      (∀ n k data, (n, .unit k data) ∈ s.answered →
        s.made[n]? = some .next ∧ log[k]? = some data) ∧
      log.length ≤ s.made.length := by
  intro s t log
  have same : s = t.map Ledger.held := Ledger.shift_eq_map_held capacity events
  have kept : Ledger.Kept capacity t := Ledger.kept_shift capacity events
  have room : log.length ≤ t.desk.state.acked + max capacity 1 + t.desk.state.closed.toNat := by
    rw [← kept.capacity]
    exact kept.sound.room
  rw [same]
  exact ⟨rfl, kept.sound.holds.follows room kept.sound.marker, kept.recorded.numbered,
    fun _ _ => kept.recorded.wrote, fun _ _ _ => kept.recorded.handed,
    Nat.le_of_add_right_le kept.few⟩

end Tether.Stream
