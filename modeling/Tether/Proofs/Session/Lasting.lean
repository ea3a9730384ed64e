import Tether.Proofs.Session.Routing

/-!
# Nothing is forgotten

Connections are added and never taken away, a write that answered stays answered, and the end of a
session is not taken back. This holds of every act in every state, so what is so after a run was so
all along.
-/

namespace Tether.Session

namespace State

/-- Whether a connection has ended. -/
def Finished (s : State) (k : ConnKey) : Prop :=
  ∃ c, s.conns[k]? = some c ∧ c.terminal ≠ none

/-- No connection is forgotten, and no end of one or of the session is taken back. -/
structure Lasts (s s' : State) : Prop where
  size : s.conns.size ≤ s'.conns.size
  alive : s'.ended = none → s.ended = none
  finished : ∀ {k}, s.Finished k → s'.Finished k

variable {s s' s'' : State} {k : ConnKey}

theorem Finished.not_open (h : s.Finished k) : ¬s.Open k := fun ⟨c, known, opened⟩ => by
  obtain ⟨c', known', ended⟩ := h
  cases known.symm.trans known'
  exact ended opened

theorem open_or_finished {id : ConnId} (known : s.id? k = some id) : s.Open k ∨ s.Finished k := by
  obtain ⟨c, conn, -⟩ := Option.map_eq_some_iff.mp known
  by_cases opened : c.terminal = none
  · exact .inl ⟨c, conn, opened⟩
  · exact .inr ⟨c, conn, opened⟩

theorem Lasts.of_conns (conns : s'.conns = s.conns) (ended : s'.ended = s.ended) : s.Lasts s' :=
  ⟨Nat.le_of_eq (congrArg Array.size conns.symm), fun alive => ended ▸ alive, fun ⟨c, known, ended⟩ =>
    ⟨c, conns ▸ known, ended⟩⟩

theorem Lasts.refl (s : State) : s.Lasts s :=
  .of_conns rfl rfl

theorem Lasts.trans (h : s.Lasts s') (h' : s'.Lasts s'') : s.Lasts s'' :=
  ⟨Nat.le_trans h.size h'.size, fun alive => h.alive (h'.alive alive), fun ended =>
    h'.finished (h.finished ended)⟩

/-- One connection changes, but its end stays. -/
theorem lasts_modifyConn {f : Conn → Conn} (keeps : ∀ c, c.terminal ≠ none → (f c).terminal ≠ none) :
    s.Lasts (s.modifyConn k f) := by
  refine ⟨Nat.le_of_eq Array.size_modify.symm, fun alive => alive, fun {l} ⟨c, known, ended⟩ => ?_⟩
  unfold Finished modifyConn
  rw [Array.getElem?_modify]
  split
  · exact ⟨f c, by rw [known]; rfl, keeps c ended⟩
  · exact ⟨c, known, ended⟩

theorem lasts_hand (s : State) (k : ConnKey) (i : Inbound) : s.Lasts (s.modifyConn k (·.hand i)) :=
  lasts_modifyConn fun _ ended => ended

theorem lasts_enroll (s : State) (id : ConnId) (inbox : List Inbound) (nextRead : UInt64) :
    s.Lasts (s.enroll id inbox nextRead) := by
  refine ⟨?_, fun alive => alive, fun {k} ⟨c, known, ended⟩ => ⟨c, ?_, ended⟩⟩
  · exact Nat.le_of_lt (Nat.lt_of_lt_of_eq (Nat.lt_succ_self _) (Array.size_push _).symm)
  · exact (Array.getElem?_push.trans (if_neg (ne_size (id?_of_getElem? known)))).trans known

theorem lasts_register (s : State) (id : ConnId) : s.Lasts (s.register id).1 :=
  (s.lasts_enroll id [] 0).trans (.of_conns rfl rfl)

theorem lasts_abort (s : State) (id : ConnId) (reason : Reason) : s.Lasts (s.abort id reason) := by
  unfold abort
  split
  · exact .refl s
  · next entry _ =>
    have aborted : s.Lasts (s.modifyConn entry.conn (aborting reason)) :=
      lasts_modifyConn fun _ _ => terminal_aborting reason _
    exact aborted.trans (.of_conns rfl rfl)

theorem lasts_finish (s : State) (k : ConnKey) : s.Lasts (s.modifyConn k (·.finish .closed)) :=
  lasts_modifyConn fun c _ => c.terminal_finish _

theorem lasts_close (s : State) (k : ConnKey) : s.Lasts (s.close k).1 := by
  obtain ⟨-, same⟩ | ⟨-, id, -, ⟨-, same⟩ | ⟨-, same⟩⟩ := s.close_outcomes k <;> rw [same]
  · exact .refl s
  · exact s.lasts_finish k
  · exact (s.lasts_finish k).trans (.of_conns rfl rfl)

theorem lasts_dial (s : State) : s.Lasts s.dial.1 := by
  unfold dial
  split
  · exact .refl s
  · have numbered : s.Lasts { s with nextId := s.nextId + 1 } := .of_conns rfl rfl
    exact numbered.trans (lasts_register _ _)

theorem lasts_teardown (s : State) (cause : Codec.Error) : s.Lasts (s.teardown cause).1 := by
  have broken (table : List Entry) : ∀ s : State, s.Lasts (table.foldl (breakConn cause) s) := by
    induction table with
    | nil => exact .refl
    | cons a rest ih =>
      intro s
      have first : s.Lasts (s.breakConn cause a) := lasts_modifyConn fun _ _ => nofun
      exact first.trans (ih _)
  unfold teardown
  split
  · exact .refl s
  · obtain ⟨size, -, finished⟩ := broken s.table s
    exact ⟨size, nofun, finished⟩

theorem ended_teardown (cause : Codec.Error) (s : State) : (s.teardown cause).1.ended ≠ none := by
  unfold teardown
  split
  · next ended => exact ended ▸ nofun
  · nofun

/-! ## Routing, whatever the table says -/

/-- The number of the next payload of the connection that is open under a number. -/
def bump (c : ConnId) (f : UInt64 → UInt64) (a : Entry) : Entry :=
  if a.id = c then { a with nextRead := f a.nextRead } else a

/-- A connection is opened by its first payload. -/
def welcome (s : State) (c : ConnId) (data : Bytes) : State :=
  let opened := { (s.register c).1 with table := (s.register c).1.table.map (bump c fun _ => 1) }
  opened.modifyConn s.conns.size (·.hand (.payload data))

/-- What an envelope can do to a session. -/
inductive Routed (s : State) : State → Prop
  | kept : Routed s s
  | aborted (id : ConnId) (reason : Reason) : Routed s (s.abort id reason)
  | counted (a : Entry) (data : Bytes) :
    Routed s ({ s with table := s.table.map (bump a.id (· + 1)) }.modifyConn a.conn
      (·.hand (.payload data)))
  | deafened : Routed s { s with accepting := false }
  | welcomed (id : ConnId) (data : Bytes) (accepted : List ConnKey) :
    Routed s { s.welcome id data with accepted }

/-- An envelope does nothing else, and nothing is needed for that. -/
theorem routed_dispatch (s : State) (e : Envelope) : s.Routed (s.dispatch e).1 := by
  unfold dispatch
  split
  · exact .kept
  · split
    · exact .aborted _ _
    · split
      · unfold dispatchKnown
        split
        · exact .kept
        · split
          · exact .aborted _ _
          · exact .counted _ _
      · unfold dispatchUnknown
        split
        · exact .kept
        · split
          · exact .kept
          · split
            · exact .kept
            · split
              · exact .deafened
              · exact .welcomed _ _ _

theorem Routed.lasts (h : s.Routed s') : s.Lasts s' := by
  cases h with
  | kept => exact .refl s
  | aborted id reason => exact s.lasts_abort id reason
  | counted a data => exact (s.lasts_hand a.conn (.payload data)).trans (.of_conns rfl rfl)
  | deafened => exact .of_conns rfl rfl
  | welcomed id data accepted =>
    have handed := lasts_hand (s.register id).1 s.conns.size (.payload data)
    exact ((s.lasts_register id).trans handed).trans (.of_conns rfl rfl)

theorem lasts_read {r : Except Error (Option Bytes)} (read : s.read? k = some (s', r)) :
    s.Lasts s' := by
  obtain ⟨c, c', known, given, rfl⟩ := read?_eq_some read
  refine ⟨Nat.le_of_eq Array.size_modify.symm, fun alive => alive, fun {l} ⟨d, known', ended⟩ => ?_⟩
  unfold Finished
  rw [getElem?_modifyConn known]
  split
  · next here =>
    cases known.symm.trans (here ▸ known')
    exact ⟨c', rfl, (Conn.read?_same given).2.2 ▸ ended⟩
  · exact ⟨d, known', ended⟩

theorem SameReading.lasts (same : s.SameReading s') : s.Lasts s' := by
  refine ⟨Nat.le_of_eq (size_congr same.ids).symm, fun alive => same.ended ▸ alive,
    fun {k} ⟨c, known, ended⟩ => ?_⟩
  have now : s'.conns[k]?.map Conn.terminal = some c.terminal := by
    rw [same.conns.map fun _ => rfl, known]
    rfl
  obtain ⟨c', known', terminal⟩ := Option.map_eq_some_iff.mp now
  exact ⟨c', known', terminal ▸ ended⟩

end State

/-- Nothing that was dialed, written or closed is forgotten. -/
structure Party.Lasts (p p' : Party) : Prop where
  state : p.state.Lasts p'.state
  wrote : p.wrote <+: p'.wrote
  closes : p.closes <+: p'.closes

namespace Party.Lasts

variable {p p' p'' : Party}

theorem of_state {state : State} (lasts : p.state.Lasts state) : p.Lasts { p with state } :=
  ⟨lasts, List.prefix_refl _, List.prefix_refl _⟩

theorem refl (p : Party) : p.Lasts p :=
  of_state (.refl _)

theorem trans (h : p.Lasts p') (h' : p'.Lasts p'') : p.Lasts p'' :=
  ⟨h.state.trans h'.state, h.wrote.trans h'.wrote, h.closes.trans h'.closes⟩

theorem of_sameReading (same : p.SameReading p') (wrote : p.wrote <+: p'.wrote) : p.Lasts p' :=
  ⟨same.state.lasts, wrote, by simp only [same.closes, List.prefix_refl]⟩

theorem send (p : Party) (m : Message) : p.Lasts (p.send m) :=
  ⟨.refl _, List.prefix_refl _, List.prefix_refl _⟩

theorem shut (p : Party) : p.Lasts p.shut :=
  of_state (p.state.lasts_teardown _)

theorem unlisten (p : Party) :
    p.Lasts { p with state := { p.state with listening := false } } :=
  of_state (.of_conns rfl rfl)

theorem dial (p : Party) : p.Lasts p.dial := by
  unfold Party.dial
  split
  · exact of_state p.state.lasts_dial
  · exact .refl p

theorem accept (p : Party) : p.Lasts p.accept := by
  obtain same | ⟨k, rest, -, same⟩ := p.accept_cases
  · rw [same]
    exact refl p
  · rw [same]
    exact ⟨.of_conns rfl rfl, List.prefix_refl _, List.prefix_refl _⟩

theorem read (p : Party) (k : ConnKey) : p.Lasts (p.read k) := by
  unfold Party.read
  split
  · next read => exact ⟨State.lasts_read read, List.prefix_refl _, List.prefix_refl _⟩
  · exact .refl p

theorem finish (p : Party) (k : ConnKey) : p.Lasts (p.finish k) := by
  obtain ⟨-, same⟩ | ⟨-, id, -, same⟩ := p.finish_cases k <;> rw [same]
  · exact refl p
  · exact ⟨p.state.lasts_finish k, List.prefix_refl _, List.prefix_append _ _⟩

theorem forget (p : Party) (id : ConnId) : p.Lasts (p.forget id) := by
  obtain same | ⟨-, ⟨-, same⟩ | ⟨-, same⟩⟩ := p.forget_cases id <;> rw [same]
  · exact refl p
  · exact ⟨.refl _, List.prefix_refl _, List.prefix_refl _⟩
  · exact ⟨.of_conns rfl rfl, List.prefix_refl _, List.prefix_refl _⟩

theorem announce (p : Party) (id : ConnId) : p.Lasts (p.announce id) := by
  obtain same | ⟨-, same⟩ := p.announce_cases id <;> rw [same]
  · exact refl p
  · exact ⟨.refl _, List.prefix_refl _, List.prefix_refl _⟩

theorem close (p : Party) (k : ConnKey) : p.Lasts (p.close k) := by
  have lasts := p.state.lasts_close k
  unfold Party.close
  split
  · next closed =>
    rw [closed] at lasts
    exact of_state lasts
  · next closed =>
    rw [closed] at lasts
    exact ⟨lasts, List.prefix_refl _, List.prefix_append _ _⟩

theorem take (p : Party) (r : Except Stream.Error (Option Bytes)) : p.Lasts (p.take r) := by
  unfold Party.take State.intake
  cases Codec.ofRead Envelope.unpacked r with
  | error cause => exact of_state (p.state.lasts_teardown cause)
  | ok e =>
    cases e with
    | none => exact of_state (p.state.lasts_teardown _)
    | some e =>
      have lasts := (p.state.routed_dispatch e).lasts
      dsimp only
      generalize p.state.dispatch e = outcome at lasts ⊢
      obtain ⟨state, reason⟩ := outcome
      cases reason <;> exact ⟨lasts, List.prefix_refl _, List.prefix_refl _⟩

theorem move (p : Party) (i : Nat) : p.Lasts (p.move i) := by
  refine of_sameReading (p.sameReading_move i) ?_
  obtain same | ⟨o, outcome, -, moved, stepped⟩ := p.move_cases i
  · simp only [same, List.prefix_refl]
  · rw [stepped]
    cases moved with
    | enqueued _ _ _ => exact List.prefix_refl _
    | acquired _ _ _ _ => exact List.prefix_refl _
    | taken _ _ _ => exact List.prefix_append _ _
    | failed _ => exact List.prefix_refl _

theorem cancel (p : Party) (i : Nat) : p.Lasts (p.cancel i) := by
  refine of_sameReading (p.sameReading_cancel i) ?_
  obtain same | ⟨o, -, -, given⟩ := p.cancel_cases i
  · simp only [same, List.prefix_refl]
  · rw [given]
    exact List.prefix_refl _

theorem flow (p : Party) (stream : Stream.Endpoint) : p.Lasts (p.flow stream) := by
  unfold Party.flow
  split
  · exact ⟨.refl _, List.prefix_refl _, List.prefix_refl _⟩
  · exact .refl p

end Party.Lasts

namespace Joined

theorem lasts_setParty {w : Joined} {side : Role} {p : Party} (lasts : (w.party side).Lasts p)
    (s : Role) : (w.party s).Lasts ((w.setParty side p).party s) :=
  rel_setParty .refl lasts s

theorem lasts_step (w : Joined) (event : Event) (s : Role) :
    (w.party s).Lasts ((w.step event).party s) := by
  obtain ⟨side, act⟩ := event
  cases act with
  | dial => exact lasts_setParty (.dial _) s
  | accept => exact lasts_setParty (.accept _) s
  | write k data => exact lasts_setParty (.send _ (.payload k data)) s
  | read k => exact lasts_setParty (.read _ k) s
  | close k => exact lasts_setParty (.finish _ k) s
  | forget id => exact lasts_setParty (.forget _ id) s
  | announce id => exact lasts_setParty (.announce _ id) s
  | shut => exact lasts_setParty (.shut _) s
  | unlisten => exact lasts_setParty (.unlisten _) s
  | move i => exact lasts_setParty (.move _ i) s
  | cancel i => exact lasts_setParty (.cancel _ i) s
  | hear =>
    change (w.party s).Lasts ((w.hear side).party s)
    unfold Joined.hear
    dsimp only
    split
    · next bytes _ =>
      have lasts := Party.Lasts.take { w.party side with heard := (w.party side).heard + 1 }
        (.ok (some bytes))
      exact lasts_setParty ⟨lasts.state, lasts.wrote, lasts.closes⟩ s
    · exact .refl _
  | lose cause =>
    cases cause with
    | none => exact lasts_setParty (.take _ (.ok none)) s
    | some e => exact lasts_setParty (.take _ (.error e)) s
  | flow stream => exact lasts_setParty (.flow _ stream) s

end Joined

end Tether.Session
