import Tether.Link.Pipe

/-!
# What waits in a pipe

Receiving takes from the queue of one direction and leaves the other; sending adds at most its own
chunk; letting go of an end empties the queue towards it and keeps the one from it. What one end
does, short of receiving, leaves alone what the other end has sent to it.

Short of sending and receiving, a pipe only fades: it is cut and its halves are let go. None of this is
undone, and nothing comes into a queue by it.
-/

namespace Tether.Link

theorem Side.eq_or_eq_opposite (side s : Side) : s = side ∨ s = side.opposite := by
  cases side <;> cases s <;> simp [opposite]

namespace Pipe

variable {p p' : Pipe} {side : Side}

theorem recv?_queues {r : Except Error (Option Bytes)} (taken : p.recv? side = some (p', r)) :
    p'.outgoing side = p.outgoing side ∧
      (p'.incoming side).queue ⊆ (p.incoming side).queue ∧
      ∀ m, r = .ok (some m) → m ∈ (p.incoming side).queue := by
  unfold recv? at taken
  split at taken
  · cases taken
    exact ⟨rfl, List.Subset.refl _, nofun⟩
  · simp only at taken
    split at taken
    · next chunk rest queue =>
      cases taken
      rw [outgoing_setIncoming, incoming_setIncoming, queue]
      refine ⟨rfl, List.subset_cons_self _ _, fun m same => ?_⟩
      cases same
      exact List.mem_cons_self
    · split at taken <;> cases taken
      exact ⟨rfl, List.Subset.refl _, nofun⟩

theorem send_queues (p : Pipe) (side : Side) (fault : Bool) (m : Bytes) :
    (p.send side fault m).1.incoming side = p.incoming side ∧
      ∀ x ∈ ((p.send side fault m).1.outgoing side).queue, x ∈ (p.outgoing side).queue ∨ x = m := by
  unfold send
  split
  · exact ⟨rfl, fun x mem => .inl mem⟩
  · split
    · refine ⟨?_, fun x mem => .inl ?_⟩ <;> cases side <;> first | rfl | exact mem
    · simp only
      split
      · rw [incoming_setOutgoing, outgoing_setOutgoing]
        refine ⟨rfl, fun x mem => ?_⟩
        exact (List.mem_append.mp mem).imp id List.mem_singleton.mp
      · exact ⟨rfl, fun x mem => .inl mem⟩

theorem dropEnd_queues (p : Pipe) (side : Side) :
    ((p.dropEnd side).outgoing side).queue = (p.outgoing side).queue ∧
      ((p.dropEnd side).incoming side).queue = [] := by
  cases side <;> exact ⟨rfl, rfl⟩

theorem recv?_eq_some_chunk {chunk : Bytes} (taken : p.recv? side = some (p', .ok (some chunk))) :
    p.cut = false ∧ ∃ rest, (p.incoming side).queue = chunk :: rest ∧
      p' = p.setIncoming side { p.incoming side with queue := rest } := by
  unfold recv? at taken
  split at taken
  · cases taken
  · next uncut =>
    simp only at taken
    split at taken
    · next first rest queue =>
      cases taken
      exact ⟨Bool.eq_false_iff.mpr uncut, rest, queue, rfl⟩
    · split at taken <;> cases taken

theorem recv?_eq_chunk {chunk : Bytes} (taken : p.recv? side = some (p', .ok (some chunk))) :
    (p.incoming side).queue = chunk :: (p'.incoming side).queue := by
  obtain ⟨-, rest, queue, rfl⟩ := recv?_eq_some_chunk taken
  rw [incoming_setIncoming, queue]

theorem recv?_eq_end {r : Except Error (Option Bytes)} (taken : p.recv? side = some (p', r))
    (none : ∀ chunk, r ≠ .ok (some chunk)) : p' = p := by
  unfold recv? at taken
  split at taken
  · cases taken
    rfl
  · simp only at taken
    split at taken
    · cases taken
      exact absurd rfl (none _)
    · split at taken <;> cases taken
      rfl

theorem send_opposite_eq_ok {fault : Bool} {m : Bytes}
    (sent : p.send side.opposite fault m = (p', .ok ())) :
    (p'.incoming side).queue = (p.incoming side).queue ++ [m] := by
  unfold send at sent
  split at sent
  · cases sent
  · split at sent
    · cases sent
    · simp only at sent
      split at sent
      · cases sent
        rw [incoming, outgoing_setOutgoing, incoming]
      · cases sent

theorem send_opposite_eq_error {fault : Bool} {m : Bytes} {e : Error}
    (failed : p.send side.opposite fault m = (p', .error e)) :
    p'.incoming side = p.incoming side := by
  unfold send at failed
  split at failed
  · cases failed
    rfl
  · split at failed
    · cases failed
      cases side <;> rfl
    · simp only at failed
      split at failed
      · cases failed
      · cases failed
        rfl

@[simp]
theorem incoming_dropSender (p : Pipe) (side : Side) :
    (p.dropSender side).incoming side = p.incoming side :=
  p.incoming_setOutgoing side _

@[simp]
theorem queue_dropSender_opposite (p : Pipe) (side : Side) :
    ((p.dropSender side.opposite).incoming side).queue = (p.incoming side).queue := by
  cases side <;> rfl

@[simp]
theorem incoming_dropReceiver_opposite (p : Pipe) (side : Side) :
    (p.dropReceiver side.opposite).incoming side = p.incoming side := by
  cases side <;> rfl

@[simp]
theorem incoming_cut (p : Pipe) (cut : Bool) (side : Side) :
    incoming { p with cut } side = p.incoming side := by
  cases side <;> rfl

@[simp]
theorem incoming_opposite (p : Pipe) (side : Side) :
    p.incoming side.opposite = p.outgoing side := by
  cases side <;> rfl

/-! ## Sends that succeed and sends that fail -/

theorem send_eq_ok {fault : Bool} {m : Bytes} (sent : p.send side fault m = (p', .ok ())) :
    p.cut = false ∧ fault = false ∧ (p.outgoing side).receiving = true ∧
      p' = p.setOutgoing side
        { p.outgoing side with queue := (p.outgoing side).queue ++ [m] } := by
  unfold send at sent
  split at sent
  · cases sent
  · next uncut =>
    split at sent
    · cases sent
    · next lucky =>
      simp only at sent
      split at sent
      · next heard =>
        cases sent
        exact ⟨Bool.eq_false_iff.mpr uncut, Bool.eq_false_iff.mpr lucky, heard, rfl⟩
      · cases sent

/-- A send that fails leaves the pipe as it was, or cuts it. -/
theorem send_eq_error {fault : Bool} {m : Bytes} {e : Error}
    (failed : p.send side fault m = (p', .error e)) :
    p' = p ∨ p.cut = false ∧ fault = true ∧ p' = { p with cut := true } := by
  unfold send at failed
  split at failed
  · cases failed
    exact .inl rfl
  · next uncut =>
    split at failed
    · next unlucky =>
      cases failed
      exact .inr ⟨Bool.eq_false_iff.mpr uncut, unlucky, rfl⟩
    · simp only at failed
      split at failed <;> cases failed
      exact .inl rfl

/-- When a send succeeds. -/
theorem send_eq_ok_iff {fault : Bool} {m : Bytes} :
    (p.send side fault m).2 = .ok () ↔
      p.cut = false ∧ fault = false ∧ (p.outgoing side).receiving = true := by
  constructor
  · intro ok
    have sent : p.send side fault m = ((p.send side fault m).1, .ok ()) := Prod.ext rfl ok
    have ⟨uncut, lucky, heard, _⟩ := send_eq_ok sent
    exact ⟨uncut, lucky, heard⟩
  · rintro ⟨uncut, rfl, heard⟩
    simp only [send, uncut, heard, Bool.false_eq_true, if_false, if_true]

/-- Only a fault is told as one. -/
theorem send_fault_iff {fault : Bool} {m : Bytes} :
    (p.send side fault m).2 = .error (.io "pipe cut by fault injection") ↔
      p.cut = false ∧ fault = true := by
  constructor
  · intro struck
    unfold send at struck
    split at struck
    · exact absurd struck (by simp)
    · next uncut =>
      split at struck
      · next unlucky => exact ⟨Bool.eq_false_iff.mpr uncut, unlucky⟩
      · simp only at struck
        split at struck
        · cases struck
        · exact absurd struck (by simp)
  · rintro ⟨uncut, rfl⟩
    simp only [send, uncut, Bool.false_eq_true, if_false, if_true]

/-- A fault cuts the pipe. -/
theorem cut_of_fault {fault : Bool} {m : Bytes}
    (struck : (p.send side fault m).2 = .error (.io "pipe cut by fault injection")) :
    (p.send side fault m).1.cut = true := by
  obtain ⟨uncut, rfl⟩ := send_fault_iff.mp struck
  simp only [send, uncut, Bool.false_eq_true, if_false, if_true]

/-! ## What a reception gives -/

theorem map_recv? (p : Pipe) (side : Side) :
    (p.recv? side).map (·.2) =
      if p.cut = true then some (.error (.io "pipe cut"))
      else
        match (p.incoming side).queue with
        | chunk :: _ => some (.ok (some chunk))
        | [] => if (p.incoming side).sending = true then none else some (.ok none) := by
  unfold recv?
  dsimp only
  split
  · rfl
  · cases (p.incoming side).queue with
    | cons chunk rest => rfl
    | nil => cases (p.incoming side).sending <;> rfl

theorem recv?_chunk_iff {chunk : Bytes} :
    (p.recv? side).map (·.2) = some (.ok (some chunk)) ↔
      p.cut = false ∧ [chunk] <+: (p.incoming side).queue := by
  rw [map_recv?]
  cases p.cut with
  | true => simp
  | false =>
    cases (p.incoming side).queue with
    | nil => cases (p.incoming side).sending <;> simp
    | cons first rest => simp [List.cons_prefix_cons, eq_comm]

theorem recv?_end_iff :
    (p.recv? side).map (·.2) = some (.ok none) ↔
      p.cut = false ∧ (p.incoming side).sending = false ∧ (p.incoming side).queue = [] := by
  rw [map_recv?]
  cases p.cut with
  | true => simp
  | false =>
    cases (p.incoming side).queue with
    | nil => cases (p.incoming side).sending <;> simp
    | cons first rest => simp

/-! ## Fading -/

/-- A pipe is held no longer than its halves are. -/
theorem held_of_halves {q : Pipe}
    (sending : ∀ side, (q.outgoing side).sending = true → (p.outgoing side).sending = true)
    (receiving : ∀ side, (q.outgoing side).receiving = true → (p.outgoing side).receiving = true)
    (held : q.held = true) : p.held = true := by
  simp only [Pipe.held, Bool.or_eq_true] at held ⊢
  exact held.imp (Or.imp (Or.imp (sending .near) (receiving .near)) (sending .far)) (receiving .far)

/-- What can become of a pipe while nothing is sent and nothing received. -/
inductive Fades (p : Pipe) : Pipe → Prop where
  | rests : Fades p p
  | cuts {q : Pipe} : Fades p q → Fades p { q with cut := true }
  | dropsSender {q : Pipe} (side : Side) : Fades p q → Fades p (q.dropSender side)
  | dropsReceiver {q : Pipe} (side : Side) : Fades p q → Fades p (q.dropReceiver side)

namespace Fades

variable {q r : Pipe}

theorem trans (first : p.Fades q) (second : q.Fades r) : p.Fades r := by
  induction second with
  | rests => exact first
  | cuts _ ih => exact ih.cuts
  | dropsSender side _ ih => exact ih.dropsSender side
  | dropsReceiver side _ ih => exact ih.dropsReceiver side

theorem dropEnd (p : Pipe) (side : Side) : p.Fades (p.dropEnd side) :=
  (rests.dropsSender side).dropsReceiver side

theorem cut (h : p.Fades q) (cut : p.cut = true) : q.cut = true := by
  induction h with
  | rests => exact cut
  | cuts => rfl
  | dropsSender side _ ih => exact (cut_setOutgoing _ side _).trans ih
  | dropsReceiver side _ ih => exact (cut_setIncoming _ side _).trans ih

theorem held (h : p.Fades q) (held : q.held = true) : p.held = true := by
  induction h with
  | rests => exact held
  | cuts _ ih => exact ih held
  | dropsSender side _ ih =>
    refine ih (held_of_halves ?_ ?_ held) <;> cases side <;> rintro (_ | _) <;>
      simp [dropSender, setOutgoing, outgoing]
  | dropsReceiver side _ ih =>
    refine ih (held_of_halves ?_ ?_ held) <;> cases side <;> rintro (_ | _) <;>
      simp [dropReceiver, incoming, setIncoming, setOutgoing, outgoing, Side.opposite]

/-- Only a queue whose receiver is let go is lost. -/
theorem queue (h : p.Fades q) (side : Side) :
    (q.incoming side).queue = (p.incoming side).queue ∧
        ((q.incoming side).receiving = true → (p.incoming side).receiving = true) ∨
      (q.incoming side).queue = [] ∧ (q.incoming side).receiving = false := by
  induction h with
  | rests => exact .inl ⟨rfl, id⟩
  | cuts _ ih => rwa [incoming_cut]
  | dropsSender other _ ih =>
    cases side <;> cases other <;> exact ih
  | dropsReceiver other _ ih =>
    cases side <;> cases other <;> first | exact ih | exact .inr ⟨rfl, rfl⟩

end Fades

end Pipe

end Tether.Link
