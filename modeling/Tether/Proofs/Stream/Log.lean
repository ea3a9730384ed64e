import Tether.Stream.Buffer

/-!
# The buffer as the tail of a log

Think of a log of every unit ever written. The buffer holds what the peer has not acknowledged of
it, and its cursor stands somewhere in that part. Each call either appends to the log, or moves the
two marks on it, or changes nothing that counts. One lemma for each call says which.
-/

namespace Tether.Stream.Buffer

/-- The buffer holds what is left of a log. -/
structure Holds (b : Buffer) (log : List Bytes) : Prop where
  units : b.units = log.drop b.acked
  acked_le : b.acked ≤ b.cursor
  cursor_le : b.cursor ≤ log.length

variable {b b' : Buffer} {log : List Bytes}

theorem holds_new (capacity : Nat) : (new capacity).Holds [] :=
  ⟨rfl, Nat.le_refl 0, Nat.le_refl 0⟩

theorem Holds.total (h : b.Holds log) : b.total = log.length := by
  have := h.acked_le
  have := h.cursor_le
  simp only [Buffer.total, h.units, List.length_drop]
  omega

theorem Holds.length_units (h : b.Holds log) : b.units.length = log.length - b.acked := by
  rw [h.units, List.length_drop]

theorem Holds.append (h : b.Holds log) (unit : Bytes) :
    b.units ++ [unit] = (log ++ [unit]).drop b.acked := by
  have := h.acked_le
  have := h.cursor_le
  rw [List.drop_append_of_le_length (by omega), h.units]

/-! ## Writing -/

/-- When a write is taken, and what it does then. -/
theorem write?_eq_ok {chunk : Bytes} {n : Nat} :
    b.write? chunk = some (b', .ok n) ↔
      chunk ≠ [] ∧ b.aborted = none ∧ b.closed = false ∧ b.hasRoom = true ∧ n = b.total ∧
        b' = { b with units := b.units ++ [chunk] } := by
  unfold write?
  split
  · simp_all
  · split
    · simp_all
    · split
      · simp_all
      · split
        · simp_all
          constructor <;> rintro ⟨rfl, rfl⟩ <;> exact ⟨rfl, rfl⟩
        · simp_all

theorem write?_eq_error {chunk : Bytes} {e : Error} (h : b.write? chunk = some (b', .error e)) :
    b' = b := by
  unfold write? at h
  split at h
  · cases h; rfl
  · split at h
    · cases h; rfl
    · split at h
      · cases h; rfl
      · split at h <;> cases h

/-- With room, every write answers. -/
theorem isSome_write? {chunk : Bytes} (h : b.hasRoom = true) : (b.write? chunk).isSome := by
  simp only [write?, h, if_true]
  split
  · rfl
  · split
    · rfl
    · split <;> rfl

theorem Holds.write {chunk : Bytes} {n : Nat} (h : b.Holds log)
    (written : b.write? chunk = some (b', .ok n)) : b'.Holds (log ++ [chunk]) := by
  obtain ⟨-, -, -, -, -, rfl⟩ := write?_eq_ok.mp written
  refine ⟨h.append chunk, h.acked_le, ?_⟩
  have := h.cursor_le
  simp only [List.length_append, List.length_singleton]
  omega

theorem close_cases (b : Buffer) :
    (b.close.1 = b ∧ (b.aborted.isSome ∨ b.closed = true)) ∨
      (b.aborted = none ∧ b.closed = false ∧
        b.close.1 = { b with closed := true, units := b.units ++ [[]] }) := by
  unfold close
  split
  · next e aborted => exact .inl ⟨rfl, .inl (by simp [aborted])⟩
  · next aborted =>
    split
    · next closed => exact .inl ⟨rfl, .inr closed⟩
    · next opened => exact .inr ⟨aborted, by simpa using opened, rfl⟩

/-! ## Handing out -/

/-- When a unit is handed out, and which. -/
theorem next?_eq_ok {seq : Nat} {unit : Bytes} :
    b.next? = some (b', .ok (seq, unit)) ↔
      b.aborted = none ∧ seq = b.cursor ∧ b.units[b.cursor - b.acked]? = some unit ∧
        b' = { b with cursor := b.cursor + 1 } := by
  unfold next?
  cases b.aborted with
  | some e => simp
  | none =>
    cases b.units[b.cursor - b.acked]? with
    | none => simp
    | some data =>
      simp only [Option.some.injEq, Prod.mk.injEq, Except.ok.injEq, true_and]
      constructor
      · rintro ⟨rfl, rfl, rfl⟩
        exact ⟨rfl, rfl, rfl⟩
      · rintro ⟨rfl, rfl, rfl⟩
        exact ⟨rfl, rfl, rfl⟩

theorem Holds.getElem?_units (h : b.Holds log) : b.units[b.cursor - b.acked]? = log[b.cursor]? := by
  rw [h.units, List.getElem?_drop, Nat.add_sub_cancel' h.acked_le]

/-- What is handed out is the unit of the log under the cursor. -/
theorem Holds.next {seq : Nat} {unit : Bytes} (h : b.Holds log)
    (handed : b.next? = some (b', .ok (seq, unit))) :
    seq = b.cursor ∧ log[b.cursor]? = some unit ∧ b.aborted = none ∧
      b' = { b with cursor := b.cursor + 1 } := by
  obtain ⟨aborted, number, found, same⟩ := next?_eq_ok.mp handed
  exact ⟨number, h.getElem?_units ▸ found, aborted, same⟩

theorem Holds.advance {unit : Bytes} (h : b.Holds log) (found : log[b.cursor]? = some unit) :
    Holds { b with cursor := b.cursor + 1 } log := by
  obtain ⟨bound, -⟩ := List.getElem?_eq_some_iff.mp found
  exact ⟨h.units, Nat.le_succ_of_le h.acked_le, bound⟩

/-! ## Counts of the peer -/

/-- What becomes of a count: an ended buffer refuses it, and so does one that it is not for. -/
theorem take_cases (b : Buffer) (count cursor : Nat) :
    (∃ e, b.aborted = some e ∧ b.take count cursor = (b, .error e)) ∨
      (b.aborted = none ∧ b.acked ≤ count ∧ count ≤ b.total ∧
        b.take count cursor =
          ({ b with acked := count, units := b.units.drop (count - b.acked), cursor }, .ok ())) ∨
      (b.aborted = none ∧ (count < b.acked ∨ b.total < count) ∧
        ∃ detail, b.take count cursor = (b, .error (.protocolViolation detail))) := by
  unfold take
  split
  · next e aborted => exact .inl ⟨e, aborted, rfl⟩
  · next aborted =>
    by_cases outside : count < b.acked ∨ b.total < count
    · refine .inr (.inr ⟨aborted, outside, ?_⟩)
      simp only [releaseBelow, if_pos outside]
      exact ⟨_, rfl⟩
    · refine .inr (.inl ⟨aborted, by omega, by omega, ?_⟩)
      simp only [releaseBelow, if_neg outside]

theorem Holds.release {count cursor : Nat} (h : b.Holds log) (lower : b.acked ≤ count)
    (ahead : count ≤ cursor) (upper : cursor ≤ log.length) :
    Holds { b with acked := count, units := b.units.drop (count - b.acked), cursor } log := by
  refine ⟨?_, ahead, upper⟩
  rw [h.units, List.drop_drop, Nat.add_sub_cancel' lower]

/-! ## Ending -/

@[simp]
theorem abort_acked (b : Buffer) (e : Error) : (b.abort e).acked = b.acked := by
  unfold abort; split <;> rfl

@[simp]
theorem abort_units (b : Buffer) (e : Error) : (b.abort e).units = b.units := by
  unfold abort; split <;> rfl

@[simp]
theorem abort_cursor (b : Buffer) (e : Error) : (b.abort e).cursor = b.cursor := by
  unfold abort; split <;> rfl

@[simp]
theorem abort_closed (b : Buffer) (e : Error) : (b.abort e).closed = b.closed := by
  unfold abort; split <;> rfl

@[simp]
theorem abort_capacity (b : Buffer) (e : Error) : (b.abort e).capacity = b.capacity := by
  unfold abort; split <;> rfl

@[simp]
theorem abort_aborted (b : Buffer) (e : Error) :
    (b.abort e).aborted = some (b.aborted.getD e) := by
  unfold abort; split <;> simp_all

theorem Holds.abort (h : b.Holds log) (e : Error) : (b.abort e).Holds log :=
  ⟨by simp [h.units], by simp [h.acked_le], by simp [h.cursor_le]⟩

end Tether.Stream.Buffer
