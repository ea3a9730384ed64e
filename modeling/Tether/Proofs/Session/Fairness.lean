import Tether.Proofs.Session.Hearing

/-!
# Nobody is accused

A connection ends by an accusation only if its peer broke the numbering of payloads. Nothing but the
routing of such a payload makes an accusation: every other step hands on those that there are.
-/

namespace Tether.Session

/-- Whether a reason accuses the peer. -/
def Reason.accuses : Reason → Bool
  | .protocol _ => true
  | .closed | .gone | .off => false

/-- A connection that was not ended by an accusation. -/
structure Conn.Fair (c : Conn) : Prop where
  terminal : ∀ reason, c.terminal = some (.aborted reason) → reason.accuses = false
  inbox : ∀ reason, .abort reason ∈ c.inbox → reason.accuses = false

/-- A state all of whose connections are fair. -/
def State.Fair (s : State) : Prop :=
  ∀ (k : ConnKey) (c : Conn), s.conns[k]? = some c → c.Fair

/-- A side that neither accuses its peer nor is accused by it. -/
structure Party.Fair (p : Party) : Prop where
  conns : p.state.Fair
  reads : ∀ {k reason}, (k, .error (.aborted reason)) ∈ p.reads → reason.accuses = false
  jobs : ∀ {i id reason stage}, p.job? i = some ⟨.abort id reason, stage⟩ → reason.accuses = false
  sent : ∀ {e reason}, e ∈ envelopes p.sent → e.content = .abort reason → reason.accuses = false

namespace Conn.Fair

variable {c : Conn}

theorem new (id : ConnId) (data : List Bytes) : ({ id, inbox := data.map .payload } : Conn).Fair :=
  ⟨nofun, fun reason mem => by simp at mem⟩

theorem hand_payload (h : c.Fair) (data : Bytes) : (c.hand (.payload data)).Fair :=
  ⟨h.terminal, fun reason mem => h.inbox reason (by simpa [hand] using mem)⟩

theorem finish (h : c.Fair) {e : Error} (fair : ∀ reason, e = .aborted reason → reason.accuses = false) :
    (c.finish e).Fair := by
  refine ⟨fun reason ended => ?_, h.inbox⟩
  unfold Conn.finish at ended
  cases before : c.terminal with
  | none =>
    rw [before] at ended
    exact fair reason (Option.some.inj ended)
  | some e' =>
    rw [before] at ended
    exact h.terminal reason (before.trans ended)

theorem aborting (h : c.Fair) {reason : Reason} (fair : reason.accuses = false) :
    (State.aborting reason c).Fair := by
  have ended : (c.finish (.aborted reason)).Fair := h.finish fun _ same => by cases same; exact fair
  refine ⟨ended.terminal, fun reason' mem => ?_⟩
  rcases List.mem_append.mp mem with mem | mem
  · exact h.inbox reason' mem
  · cases List.mem_singleton.mp mem
    exact fair

theorem broken (h : c.Fair) (cause : Codec.Error) :
    ((c.finish (.session cause)).hand (.broken cause)).Fair := by
  have ended : (c.finish (.session cause)).Fair := h.finish nofun
  refine ⟨ended.terminal, fun reason mem => h.inbox reason ?_⟩
  simpa [hand, Conn.finish] using mem

/-- A read accuses no one, and leaves the connection fair. -/
theorem read? (h : c.Fair) {c' : Conn} {fed : Bool} {r : Except Error (Option Bytes)}
    (read : c.read? fed = some (c', r)) :
    c'.Fair ∧ ∀ reason, r = .error (.aborted reason) → reason.accuses = false := by
  obtain ⟨-, rfl, rfl⟩ | ⟨-, ⟨i, rest, inbox, rfl, rfl⟩ | ⟨-, -, rfl, rfl⟩⟩ := read?_cases read
  · exact ⟨h, nofun⟩
  · refine ⟨⟨h.terminal, fun reason mem => h.inbox reason (inbox ▸ List.mem_cons_of_mem _ mem)⟩,
      fun reason same => ?_⟩
    cases i with
    | payload data => cases same
    | broken cause => cases same
    | abort reason' =>
      have fair := h.inbox reason' (inbox ▸ List.mem_cons_self)
      cases reason' <;> cases same <;> exact fair
  · refine ⟨h, fun reason same => ?_⟩
    cases ended : c'.terminal with
    | none =>
      rw [ended] at same
      cases same
    | some e =>
      rw [ended] at same
      cases same
      exact h.terminal reason ended

end Conn.Fair

namespace State

variable {s s' : State}

theorem Fair.modifyConn (h : s.Fair) {k : ConnKey} {f : Conn → Conn}
    (keeps : ∀ c, c.Fair → (f c).Fair) : (s.modifyConn k f).Fair := by
  intro l c known
  unfold State.modifyConn at known
  rw [Array.getElem?_modify] at known
  split at known
  · obtain ⟨c, known', rfl⟩ := Option.map_eq_some_iff.mp known
    exact keeps c (h l c known')
  · exact h l c known

theorem SameReading.fair (same : s.SameReading s') (h : s.Fair) : s'.Fair := by
  intro k c' known
  obtain ⟨c, known', agree⟩ := same.conns.exists_conn known
  have terminal : c.terminal = c'.terminal := congrArg (·.terminal) agree
  have inbox : c.inbox = c'.inbox := congrArg (·.inbox) agree
  exact ⟨terminal ▸ (h k c known').terminal, inbox ▸ (h k c known').inbox⟩

theorem Fair.enroll (h : s.Fair) {id : ConnId} {data : List Bytes} {nextRead : UInt64} :
    (s.enroll id (data.map .payload) nextRead).Fair := by
  intro k c known
  unfold State.enroll at known
  rw [Array.getElem?_push] at known
  split at known
  · cases known
    exact .new id data
  · exact h k c known

theorem Fair.teardown (h : s.Fair) (cause : Codec.Error) : (s.teardown cause).1.Fair := by
  have broken (table : List Entry) : ∀ {s : State}, s.Fair →
      (table.foldl (breakConn cause) s).Fair := by
    induction table with
    | nil => exact fun h => h
    | cons a rest ih => exact fun h => ih (h.modifyConn fun c fair => fair.broken cause)
  unfold State.teardown
  split
  · exact h
  · exact broken s.table h

end State

namespace Party

variable {p p' q q' : Party} {i : Nat} {o : Outgoing}

theorem Fair.of_sameReading (h : p.Fair) (same : p.SameReading p')
    (jobs : ∀ {i o}, p'.job? i = some o → ∃ i' o', p.job? i' = some o' ∧ o'.message = o.message)
    (sent : ∀ {e reason}, e ∈ envelopes p'.sent → e.content = .abort reason →
      reason.accuses = false) : p'.Fair := by
  refine ⟨same.state.fair h.conns, same.reads ▸ h.reads, fun known => ?_, sent⟩
  obtain ⟨i, ⟨m, stage⟩, known', message⟩ := jobs known
  cases message
  exact h.jobs known'

theorem Fair.giveUp (h : p.Fair) (known : p.job? i = some o) : (p.giveUp i o).Fair := by
  have jobs (j : Nat) : (p.giveUp i o).job? j = if i = j then none else p.job? j :=
    job?_setJob known none j
  exact h.of_sameReading (p.sameReading_giveUp i o) (message_of_set known (by nofun) jobs) h.sent

theorem Fair.settle (h : p.Fair) (sound : p.Sound) (known : p.job? i = some o)
    {outcome : Outgoing.Outcome} (moved : o.Moved p.state p.stream outcome) :
    (p.settle i o outcome).Fair := by
  have same := sameReading_settle i moved
  have jobs {o' : Option Outgoing} (message : ∀ x, o' = some x → x.message = o.message) {j x}
      (known' : (p.setJob i o').job? j = some x) :
      ∃ i' y, p.job? i' = some y ∧ y.message = x.message :=
    message_of_set known message (job?_setJob known o') known'
  cases moved with
  | enqueued _ _ _ => exact h.of_sameReading same (jobs fun _ eq => by cases eq; rfl) h.sent
  | acquired _ _ _ _ => exact h.of_sameReading same (jobs fun _ eq => by cases eq; rfl) h.sent
  | failed _ => exact h.giveUp known
  | @taken t bytes stream' sends _ _ =>
    refine h.of_sameReading same (jobs (by nofun)) fun {e reason} mem content => ?_
    obtain ⟨m, stage⟩ := o
    cases sends
    obtain ⟨e', next, packed⟩ := sound.numbered.carries known
    have added : envelopes (p.sent ++ [bytes]) = _ :=
      envelopes_concat (Envelope.unpacked_of_packed packed.symm)
    rw [show (p.settle i _ _).sent = p.sent ++ [bytes] from rfl, added] at mem
    rcases List.mem_append.mp mem with mem | mem
    · exact h.sent mem content
    · cases List.mem_singleton.mp mem
      cases m with
      | payload k data =>
        obtain ⟨id, -, rfl⟩ := Option.map_eq_some_iff.mp next
        cases content
      | abort id reason' =>
        cases next
        cases content
        exact h.jobs known

theorem Fair.send (h : p.Fair) {m : Message}
    (fair : ∀ id reason, m = .abort id reason → reason.accuses = false) : (p.send m).Fair := by
  refine ⟨h.conns, h.reads, fun {j id reason stage} known => ?_, h.sent⟩
  rw [job?_send] at known
  split at known
  · cases known
    exact fair id reason rfl
  · exact h.jobs known

theorem Fair.congr (h : p.Fair) (conns : p'.state.Fair) (jobs : p'.jobs = p.jobs)
    (sent : p'.sent = p.sent) (reads : p'.reads = p.reads) : p'.Fair := by
  refine ⟨conns, reads ▸ h.reads, fun known => ?_, sent ▸ h.sent⟩
  rw [job?, jobs] at known
  exact h.jobs known

end Party

end Tether.Session
