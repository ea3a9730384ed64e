import Tether.Proofs.Session.Lasting

/-!
# What is still written after a close

A payload that has its number when its connection is closed keeps the turn, and its write goes
through. A write that has no number then fails. So after a close at most one more payload is written,
and it was on its way to the stream at the close.
-/

namespace Tether.Session

namespace Party

/-- Whether a payload of a connection has its number and waits for room. -/
def Carries (p : Party) (k : ConnKey) (data : Bytes) : Prop :=
  ∃ i t packed, p.job? i = some ⟨.payload k data, .sending t packed⟩

/-- No message gets a number, and none goes out. -/
structure Rests (p p' : Party) : Prop where
  sending : ∀ {i m t packed}, p'.job? i = some ⟨m, .sending t packed⟩ →
    p.job? i = some ⟨m, .sending t packed⟩
  wrote : p'.wrote = p.wrote

/-- What became of a connection since it was closed, against how it stood then. -/
inductive Late (b p : Party) (k : ConnKey) : Prop
  | before (written : p.written k = b.written k) (carries : ∀ data, p.Carries k data → b.Carries k data)
  | after {data : Bytes} (carried : b.Carries k data) (written : p.written k = b.written k ++ [data])
    (spent : ¬p.Sends k)

variable {b p p' : Party} {i : Nat} {o : Outgoing} {k : ConnKey} {data : Bytes}

theorem Carries.sends (h : p.Carries k data) : p.Sends k :=
  let ⟨i, t, packed, known⟩ := h
  ⟨i, data, t, packed, known⟩

theorem exists_carries (h : p.Sends k) : ∃ data, p.Carries k data :=
  let ⟨i, data, t, packed, known⟩ := h
  ⟨data, i, t, packed, known⟩

/-! ## Acts that move no message -/

namespace Rests

theorem of_jobs (jobs : p'.jobs = p.jobs) (wrote : p'.wrote = p.wrote) : p.Rests p' :=
  ⟨fun known => by rwa [job?, jobs] at known, wrote⟩

theorem refl (p : Party) : p.Rests p :=
  of_jobs rfl rfl

theorem send (p : Party) (m : Message) : p.Rests (p.send m) :=
  ⟨(sameSending_send p m).mp, rfl⟩

theorem shut (p : Party) : p.Rests p.shut :=
  of_jobs rfl rfl

theorem unlisten (p : Party) :
    p.Rests { p with state := { p.state with listening := false } } :=
  of_jobs rfl rfl

theorem dial (p : Party) : p.Rests p.dial := by
  unfold Party.dial
  split <;> exact of_jobs rfl rfl

theorem accept (p : Party) : p.Rests p.accept := by
  unfold Party.accept
  split <;> exact of_jobs rfl rfl

theorem read (p : Party) (k : ConnKey) : p.Rests (p.read k) := by
  unfold Party.read
  split <;> exact of_jobs rfl rfl

theorem finish (p : Party) (k : ConnKey) : p.Rests (p.finish k) := by
  obtain ⟨-, same⟩ | ⟨-, id, -, same⟩ := p.finish_cases k <;> rw [same] <;> exact of_jobs rfl rfl

theorem forget (p : Party) (id : ConnId) : p.Rests (p.forget id) := by
  obtain same | ⟨-, ⟨-, same⟩ | ⟨-, same⟩⟩ := p.forget_cases id <;> rw [same] <;>
    exact of_jobs rfl rfl

theorem announce (p : Party) (id : ConnId) : p.Rests (p.announce id) := by
  obtain same | ⟨-, same⟩ := p.announce_cases id <;> rw [same]
  · exact refl p
  · exact ⟨(send { p with owing := p.owing.erase id } (.abort id .closed)).sending, rfl⟩

theorem take (p : Party) (r : Except Stream.Error (Option Bytes)) : p.Rests (p.take r) := by
  unfold Party.take
  split
  · exact of_jobs rfl rfl
  · next state id reason _ => exact ⟨(send { p with state } (.abort id reason)).sending, rfl⟩
  · exact of_jobs rfl rfl

theorem cancel (p : Party) (i : Nat) : p.Rests (p.cancel i) := by
  obtain same | ⟨o, known, -, given⟩ := p.cancel_cases i
  · rw [same]
    exact refl p
  · rw [given]
    have jobs (j : Nat) : (p.giveUp i o).job? j = if i = j then none else p.job? j :=
      job?_setJob known none j
    refine ⟨fun known' => ?_, rfl⟩
    rw [jobs] at known'
    split at known'
    · cases known'
    · exact known'

theorem flow (p : Party) (stream : Stream.Endpoint) : p.Rests (p.flow stream) := by
  unfold Party.flow
  split <;> exact of_jobs rfl rfl

end Rests

/-! ## What goes out -/

/-- After the first act of a close the connection has ended, if it had not before. -/
theorem finished_finish {id : ConnId} (known : p.state.id? k = some id) :
    (p.finish k).state.Finished k := by
  obtain ⟨ended, same⟩ | ⟨⟨c, known, -⟩, id, -, same⟩ := p.finish_cases k <;> rw [same]
  · exact (State.open_or_finished known).resolve_left ended
  · exact ⟨c.finish .closed, (State.getElem?_modifyConn known k).trans (if_pos rfl),
      c.terminal_finish _⟩

/-- No payload of a connection that has ended gets a number. -/
theorem sending_of_settle (known : p.job? i = some o) {outcome : Outgoing.Outcome}
    (moved : o.Moved p.state p.stream outcome) (finished : p.state.Finished k) {j t : Nat}
    {packed : Except Wire.Error Bytes}
    (known' : (p.settle i o outcome).job? j = some ⟨.payload k data, .sending t packed⟩) :
    p.job? j = some ⟨.payload k data, .sending t packed⟩ := by
  have jobs := job?_setJob known
  obtain ⟨m, stage⟩ := o
  cases moved with
  | enqueued _ _ _ =>
    replace known' := (jobs _ j).symm.trans known'
    split at known'
    · cases known'
    · exact known'
  | acquired _ _ may _ =>
    replace known' := (jobs _ j).symm.trans known'
    split at known'
    · cases known'
      exact absurd (State.isOpen_of_mayStart may) finished.not_open
    · exact known'
  | taken _ _ _ =>
    replace known' := (jobs none j).symm.trans known'
    split at known'
    · cases known'
    · exact known'
  | failed _ =>
    replace known' := (jobs none j).symm.trans known'
    split at known'
    · cases known'
    · exact known'

namespace Late

theorem refl (p : Party) (k : ConnKey) : p.Late p k :=
  .before rfl fun _ carries => carries

theorem congr (h : b.Late p k) (written : p'.written k = p.written k)
    (carries : ∀ data, p'.Carries k data → p.Carries k data) : b.Late p' k := by
  cases h with
  | before written' carries' =>
    exact .before (written.trans written') fun data here => carries' data (carries data here)
  | after carried written' spent =>
    refine .after carried (written.trans written') fun sends => ?_
    obtain ⟨data, here⟩ := exists_carries sends
    exact spent (carries data here).sends

theorem rests (h : b.Late p k) (rests : p.Rests p') : b.Late p' k :=
  h.congr (written_congr rests.wrote k) fun _ ⟨i, t, packed, known⟩ =>
    ⟨i, t, packed, rests.sending known⟩

/-- The stream takes a message. If it is a payload of the connection, it is the last. -/
theorem taken (h : b.Late p k) (queued : p.Queued) {t : Nat} {bytes : Bytes}
    (known : p.job? i = some o) (sends : o.stage = .sending t (.ok bytes)) (stream : Stream.Endpoint) :
    b.Late (p.settle i o (p.state.leave t, stream, .settled (.ok ()))) k := by
  obtain ⟨m, stage⟩ := o
  cases sends
  have spent : ¬(p.settle i ⟨m, .sending t (.ok bytes)⟩
      (p.state.leave t, stream, .settled (.ok ()))).Sends k := fun ⟨_, _, _, _, known'⟩ =>
    not_sending_of_left queued known (job?_setJob known none) known'
  cases m with
  | abort id reason =>
    exact h.congr (written_congr (List.append_nil _) k) fun _ here => absurd here.sends spent
  | payload l data =>
    have written : (p.settle i ⟨.payload l data, .sending t (.ok bytes)⟩
        (p.state.leave t, stream, .settled (.ok ()))).written k =
          p.written k ++ if l = k then [data] else [] := written_concat rfl k
    by_cases here : l = k
    · subst here
      have carries : p.Carries l data := ⟨i, t, _, known⟩
      rw [if_pos rfl] at written
      cases h with
      | before written' carries' => exact .after (carries' data carries) (written' ▸ written) spent
      | after _ _ spent' => exact absurd carries.sends spent'
    · rw [if_neg here, List.append_nil] at written
      exact h.congr written fun _ here => absurd here.sends spent

theorem move (h : b.Late p k) (queued : p.Queued) (finished : p.state.Finished k) (i : Nat) :
    b.Late (p.move i) k := by
  obtain same | ⟨o, outcome, known, moved, stepped⟩ := p.move_cases i
  · rwa [same]
  rw [stepped]
  have carries (data : Bytes) : (p.settle i o outcome).Carries k data → p.Carries k data :=
    fun ⟨j, t, packed, known'⟩ => ⟨j, t, packed, sending_of_settle known moved finished known'⟩
  cases moved with
  | enqueued _ _ _ => exact h.congr rfl carries
  | acquired _ _ _ _ => exact h.congr rfl carries
  | taken sends _ _ => exact h.taken queued known sends _
  | failed _ => exact h.congr rfl carries

end Late

end Party

namespace Joined

theorem rests_setParty {w : Joined} {side : Role} {p : Party} (rests : (w.party side).Rests p)
    (s : Role) : (w.party s).Rests ((w.setParty side p).party s) :=
  rel_setParty .refl rests s

/-- Only a step of a message gives one a number or sends it out. -/
theorem rests_step (w : Joined) (event : Event) (s : Role) :
    (w.party s).Rests ((w.step event).party s) ∨ ∃ i, event = (s, .move i) := by
  obtain ⟨side, act⟩ := event
  cases act with
  | dial => exact .inl (rests_setParty (.dial _) s)
  | accept => exact .inl (rests_setParty (.accept _) s)
  | write k data => exact .inl (rests_setParty (.send _ (.payload k data)) s)
  | read k => exact .inl (rests_setParty (.read _ k) s)
  | close k => exact .inl (rests_setParty (.finish _ k) s)
  | forget id => exact .inl (rests_setParty (.forget _ id) s)
  | announce id => exact .inl (rests_setParty (.announce _ id) s)
  | shut => exact .inl (rests_setParty (.shut _) s)
  | unlisten => exact .inl (rests_setParty (.unlisten _) s)
  | move i =>
    by_cases here : side = s
    · exact .inr ⟨i, by rw [here]⟩
    · cases side <;> cases s
      · exact absurd rfl here
      · exact .inl (.refl _)
      · exact .inl (.refl _)
      · exact absurd rfl here
  | cancel i => exact .inl (rests_setParty (.cancel _ i) s)
  | hear =>
    refine .inl ?_
    change (w.party s).Rests ((w.hear side).party s)
    unfold Joined.hear
    dsimp only
    split
    · next bytes _ =>
      have rests := Party.Rests.take { w.party side with heard := (w.party side).heard + 1 }
        (.ok (some bytes))
      exact rests_setParty ⟨rests.sending, rests.wrote⟩ s
    · exact .refl _
  | lose cause =>
    cases cause with
    | none => exact .inl (rests_setParty (.take _ (.ok none)) s)
    | some e => exact .inl (rests_setParty (.take _ (.error e)) s)
  | flow stream => exact .inl (rests_setParty (.flow _ stream) s)

theorem late_step {w : Joined} {s : Role} {b : Party} {k : ConnKey} (h : b.Late (w.party s) k)
    (queued : (w.party s).Queued) (finished : (w.party s).state.Finished k) (event : Event) :
    b.Late ((w.step event).party s) k := by
  obtain rests | ⟨i, rfl⟩ := w.rests_step event s
  · exact h.rests rests
  · rw [show (w.step (s, .move i)).party s = (w.party s).move i from party_setParty _ _ _]
    exact h.move queued finished i

end Joined

end Tether.Session
