import Tether.Proofs.Session.Multiplexing

/-!
# After an abort nothing more goes out

A side tells its peer of the abort of a connection only once the connection has ended at this side.
Then no payload of it gets a number any more, and one that has its number and waits for room holds
the turn, so it goes out before the abort does. What the stream took for a connection is therefore
payloads first and then aborts.
-/

namespace Tether.Session

/-- The reason in an envelope, if it aborts the given connection. -/
def Envelope.abort? (id : ConnId) (e : Envelope) : Option Reason :=
  match e.content with
  | .payload _ _ => none
  | .abort reason => if e.conn = id then some reason else none

/-- The reason of a message, if it aborts the given connection. -/
def Message.abort? (id : ConnId) : Message → Option Reason
  | .payload _ _ => none
  | .abort id' reason => if id' = id then some reason else none

theorem Message.eq_of_abort? {id : ConnId} {m : Message} {reason : Reason}
    (told : m.abort? id = some reason) : m = .abort id reason := by
  cases m with
  | payload k data => cases told
  | abort id' reason' =>
    obtain ⟨rfl, same⟩ := Option.ite_none_right_eq_some.mp told
    exact congrArg _ (Option.some.inj same)

/-- The aborts of a connection that some chunks hold. -/
def aborts (id : ConnId) (chunks : List Bytes) : List Reason :=
  (envelopes chunks).filterMap (·.abort? id)

theorem aborts_concat (id : ConnId) {chunks : List Bytes} {bytes : Bytes} {e : Envelope}
    (read : Envelope.unpacked bytes = .ok e) :
    aborts id (chunks ++ [bytes]) = aborts id chunks ++ (e.abort? id).toList := by
  unfold aborts
  rw [envelopes_concat read, List.filterMap_append]
  cases h : e.abort? id <;> simp [h]

theorem aborts_mono (id : ConnId) {chunks chunks' : List Bytes} (h : chunks <+: chunks') :
    aborts id chunks <+: aborts id chunks' :=
  (h.filterMap _).filterMap _

namespace Party

variable {p p' q q' : Party} {i : Nat} {o : Outgoing} {k : ConnKey} {id : ConnId}

/-- Whether the peer was told of the abort of a connection, or will be. -/
def Parts (p : Party) (id : ConnId) : Prop :=
  id ∈ p.owing ∨ (∃ i reason stage, p.job? i = some ⟨.abort id reason, stage⟩) ∨
    aborts id p.sent ≠ []

/-- An envelope aborts what its message does. -/
theorem abort?_of_envelope? {m : Message} {e : Envelope} (next : p.envelope? m = some e)
    (id : ConnId) : e.abort? id = m.abort? id := by
  cases m with
  | payload k data =>
    obtain ⟨id', -, rfl⟩ := Option.map_eq_some_iff.mp next
    rfl
  | abort id' reason =>
    cases next
    rfl

/-- What a side tells of aborts, and when. -/
structure Parting (p q : Party) : Prop where
  shut : ∀ {id}, p.Parts id → ¬p.state.Holds id
  spent : ∀ {id}, p.Parts id → p.came q id ≠ [] ∨ ∃ k, p.state.id? k = some id
  last : ∀ {k id}, p.state.id? k = some id → aborts id p.sent ≠ [] → ¬p.Sends k
  order : ∀ {id n}, aborts id (p.sent.take n) ≠ [] →
    payloads id (p.sent.take n) = payloads id p.sent

/-- Messages that were there before, with nothing new in the stream, tell of no new abort. -/
theorem parts_of_jobs (jobs : ∀ {i o}, p'.job? i = some o →
      ∃ i' o', p.job? i' = some o' ∧ o'.message = o.message)
    (sent : p'.sent = p.sent) (owing : p'.owing ⊆ p.owing) (parts : p'.Parts id) : p.Parts id := by
  obtain owes | ⟨i, reason, stage, known⟩ | said := parts
  · exact .inl (owing owes)
  · obtain ⟨i', ⟨m, stage'⟩, known', message⟩ := jobs known
    cases message
    exact .inr (.inl ⟨i', reason, stage', known'⟩)
  · exact .inr (.inr (sent ▸ said))

theorem parts_send (m : Message) (parts : (p.send m).Parts id) :
    p.Parts id ∨ ∃ reason, m = .abort id reason := by
  obtain owes | ⟨i, reason, stage, known⟩ | said := parts
  · exact .inl (.inl owes)
  · rw [job?_send] at known
    split at known
    · cases known
      exact .inr ⟨reason, rfl⟩
    · exact .inl (.inr (.inl ⟨i, reason, stage, known⟩))
  · exact .inl (.inr (.inr said))

/-- A message that waits for room was there before, when the one that is replaced does not. -/
theorem sends_of_set {o' : Option Outgoing} (stage : ∀ m t packed, o' ≠ some ⟨m, .sending t packed⟩)
    (jobs : ∀ j, p'.job? j = if i = j then o' else p.job? j) (sends : p'.Sends k) : p.Sends k := by
  obtain ⟨j, data, t, packed, known⟩ := sends
  rw [jobs] at known
  split at known
  · exact absurd known (stage _ t packed)
  · exact ⟨j, data, t, packed, known⟩

namespace Parting

/-- Nothing new is told, no payload gets a number but of a connection in the table, and no connection
is opened. -/
theorem congr (h : p.Parting q) (ids : ∀ k, p'.state.id? k = p.state.id? k)
    (holds : ∀ id, p'.state.Holds id → p.state.Holds id)
    (came : ∀ id, p.came q id ≠ [] → p'.came q' id ≠ []) (parts : ∀ id, p'.Parts id → p.Parts id)
    (sends : ∀ k id, p.state.id? k = some id → p'.Sends k → p.Sends k ∨ p.state.Holds id)
    (sent : p'.sent = p.sent) : p'.Parting q' := by
  refine ⟨fun {id} telling held => ?_, fun {id} telling => ?_, fun {k id} known said sends' => ?_,
    fun {id n} said => ?_⟩
  · exact h.shut (parts id telling) (holds id held)
  · obtain some | ⟨k, known⟩ := h.spent (parts id telling)
    · exact .inl (came id some)
    · exact .inr ⟨k, (ids k).trans known⟩
  · replace known := (ids k).symm.trans known
    rw [sent] at said
    obtain sends | held := sends k id known sends'
    · exact h.last known said sends
    · exact h.shut (.inr (.inr said)) held
  · rw [sent] at said ⊢
    exact h.order said

/-- The peer is told of the abort of a connection that is not in the table. -/
theorem tell (h : p.Parting q) {reason : Reason} (shut : ¬p.state.Holds id)
    (spent : p.came q id ≠ [] ∨ ∃ k, p.state.id? k = some id) :
    (p.send (.abort id reason)).Parting q := by
  have cases' {id' : ConnId} (telling : (p.send (.abort id reason)).Parts id') :
      p.Parts id' ∨ id' = id := by
    obtain telling | ⟨reason', same⟩ := parts_send _ telling
    · exact .inl telling
    · cases same
      exact .inr rfl
  refine ⟨fun {id'} telling => ?_, fun {id'} telling => ?_, fun {k id'} known said => ?_, h.order⟩
  · obtain telling | rfl := cases' telling
    · exact h.shut telling
    · exact shut
  · obtain telling | rfl := cases' telling
    · exact h.spent telling
    · exact spent
  · intro ⟨j, data, t, packed, known'⟩
    exact h.last known said ⟨j, data, t, packed, (sameSending_send p _).mp known'⟩

/-- A connection is opened under a name of which nothing was heard. -/
theorem enroll (h : p.Parting q) {n : ConnKey} (free : p.state.id? n = none)
    (ids : ∀ k, p'.state.id? k = if k = n then some id else p.state.id? k)
    (holds : ∀ id', p'.state.Holds id' → id' = id ∨ p.state.Holds id') (jobs : p'.jobs = p.jobs)
    (sent : p'.sent = p.sent) (owing : p'.owing = p.owing)
    (came : ∀ id, p.came q id ≠ [] → p'.came q id ≠ [])
    (new : ∀ k, p.state.id? k ≠ some id) (silent : p.came q id = []) : p'.Parting q := by
  have job (i : Nat) : p'.job? i = p.job? i := by rw [job?, jobs, job?]
  have parts {id' : ConnId} (telling : p'.Parts id') : p.Parts id' :=
    parts_of_jobs (fun known => ⟨_, _, (job _).symm.trans known, rfl⟩) sent
      (by simp only [owing, List.Subset.refl]) telling
  have sends {k : ConnKey} (sends : p'.Sends k) : p.Sends k := by
    obtain ⟨i, data, t, packed, known⟩ := sends
    exact ⟨i, data, t, packed, (job i).symm.trans known⟩
  have quiet : ¬p.Parts id := fun telling => by
    obtain some | ⟨k, known⟩ := h.spent telling
    · exact some silent
    · exact new k known
  refine ⟨fun {id'} telling held => ?_, fun {id'} telling => ?_,
    fun {k id'} known said sends' => ?_, fun {id' m} said => ?_⟩
  · obtain rfl | held := holds id' held
    · exact quiet (parts telling)
    · exact h.shut (parts telling) held
  · obtain some | ⟨k, known⟩ := h.spent (parts telling)
    · exact .inl (came id' some)
    · refine .inr ⟨k, (ids k).trans ((if_neg fun same => ?_).trans known)⟩
      rw [same, free] at known
      cases known
  · rw [ids] at known
    rw [sent] at said
    split at known
    · cases known
      exact quiet (.inr (.inr said))
    · exact h.last known said (sends sends')
  · rw [sent] at said ⊢
    exact h.order said

/-! ## Messages on their way -/

theorem of_sameReading (h : p.Parting q) (same : p.SameReading p')
    (jobs : ∀ {i o}, p'.job? i = some o → ∃ i' o', p.job? i' = some o' ∧ o'.message = o.message)
    (sends : ∀ k id, p.state.id? k = some id → p'.Sends k → p.Sends k ∨ p.state.Holds id)
    (sent : p'.sent = p.sent) : p'.Parting q := by
  have came (id : ConnId) : p'.came q id = p.came q id := by rw [Party.came, same.heard, Party.came]
  have holds (id : ConnId) : p'.state.Holds id → p.state.Holds id := by
    rw [State.Holds, same.state.table]
    exact fun held => held
  exact h.congr same.state.ids holds (fun id some => by rwa [came])
    (fun id => parts_of_jobs jobs sent (by simp only [same.owing, List.Subset.refl])) sends sent

theorem giveUp (h : p.Parting q) (known : p.job? i = some o) : (p.giveUp i o).Parting q := by
  have jobs (j : Nat) : (p.giveUp i o).job? j = if i = j then none else p.job? j :=
    job?_setJob known none j
  exact h.of_sameReading (p.sameReading_giveUp i o) (message_of_set known (by nofun) jobs)
    (fun _ _ _ sends => .inl (sends_of_set (by nofun) jobs sends)) rfl

/-- The stream takes a message. If it is a payload, no abort of its connection went out before. -/
theorem taken (h : p.Parting q) (sound : p.Sound) {t : Nat} {bytes : Bytes}
    (known : p.job? i = some o) (sends : o.stage = .sending t (.ok bytes)) (stream : Stream.Endpoint) :
    (p.settle i o (p.state.leave t, stream, .settled (.ok ()))).Parting q := by
  obtain ⟨m, stage⟩ := o
  cases sends
  obtain ⟨e, next, packed⟩ := sound.numbered.carries known
  have read := Envelope.unpacked_of_packed packed.symm
  have jobs := job?_setJob known none
  have none_sends {p' : Party} (jobs : ∀ j, p'.job? j = if i = j then none else p.job? j) (k : ConnKey) :
      ¬p'.Sends k := fun ⟨_, _, _, _, known'⟩ =>
    not_sending_of_left sound.queued known jobs known'
  have payloads' (id : ConnId) : payloads id (p.sent ++ [bytes]) = _ := payloads_concat id read
  have parts {id : ConnId} (telling : (p.settle i ⟨m, .sending t (.ok bytes)⟩
      (p.state.leave t, stream, .settled (.ok ()))).Parts id) : p.Parts id := by
    obtain owes | ⟨j, reason, stage, known'⟩ | said := telling
    · exact .inl owes
    · obtain ⟨j', ⟨m', stage'⟩, known'', message⟩ := message_of_set known (by nofun) jobs known'
      cases message
      exact .inr (.inl ⟨j', reason, stage', known''⟩)
    · replace said : aborts id (p.sent ++ [bytes]) ≠ [] := said
      rw [aborts_concat id read, abort?_of_envelope? next] at said
      cases told : m.abort? id with
      | none => exact .inr (.inr (by simpa [told] using said))
      | some reason => exact .inr (.inl ⟨i, reason, _, Message.eq_of_abort? told ▸ known⟩)
  refine ⟨fun telling => h.shut (parts telling), fun telling => h.spent (parts telling),
    fun _ _ => none_sends jobs _, fun {id n} said => ?_⟩
  change aborts id ((p.sent ++ [bytes]).take n) ≠ [] at said
  change payloads id ((p.sent ++ [bytes]).take n) = payloads id (p.sent ++ [bytes])
  by_cases inside : n ≤ p.sent.length
  · rw [List.take_append_of_le_length inside] at said ⊢
    have before : aborts id p.sent ≠ [] := fun none' =>
      said (List.prefix_nil.mp (none' ▸ aborts_mono id (List.take_prefix n _)))
    have other : e.payload? id = none := by
      cases m with
      | abort id' reason' =>
        cases next
        rfl
      | payload k data =>
        obtain ⟨id', named, rfl⟩ := Option.map_eq_some_iff.mp next
        exact if_neg fun same => h.last (same ▸ named) before ⟨i, data, t, _, known⟩
    rw [h.order said, payloads', other]
    exact (List.append_nil _).symm
  · rw [List.take_of_length_le]
    rw [List.length_append, List.length_singleton]
    omega

theorem settle (h : p.Parting q) (sound : p.Sound) (listed : p.state.Listed) (known : p.job? i = some o)
    {outcome : Outgoing.Outcome} (moved : o.Moved p.state p.stream outcome) :
    (p.settle i o outcome).Parting q := by
  have same := sameReading_settle i moved
  have jobs := job?_setJob known
  cases moved with
  | enqueued _ _ _ =>
    exact h.of_sameReading same (message_of_set known (fun _ eq => by cases eq; rfl) (jobs _))
      (fun _ _ _ sends => .inl (sends_of_set (fun _ _ _ eq => by cases eq) (jobs _) sends)) rfl
  | acquired _ _ may _ =>
    refine h.of_sameReading same (message_of_set known (fun _ eq => by cases eq; rfl) (jobs _))
      (fun k id named ⟨j, data, t, packed, known'⟩ => ?_) rfl
    replace known' := (jobs _ j).symm.trans known'
    split at known'
    · injection known' with same
      injection same with message
      exact .inr (listed.holds named (State.isOpen_of_mayStart (message ▸ may)))
    · exact .inl ⟨j, data, t, packed, known'⟩
  | taken sends _ _ => exact h.taken sound known sends _
  | failed _ => exact h.giveUp known

theorem move (h : p.Parting q) (inOrder : p.InOrder q) (i : Nat) : (p.move i).Parting q := by
  obtain same | ⟨o, outcome, known, moved, stepped⟩ := p.move_cases i
  · rwa [same]
  · rw [stepped]
    exact h.settle inOrder.sound inOrder.listed known moved

theorem cancel (h : p.Parting q) (i : Nat) : (p.cancel i).Parting q := by
  obtain same | ⟨o, known, -, given⟩ := p.cancel_cases i
  · rwa [same]
  · rw [given]
    exact h.giveUp known

theorem write (h : p.Parting q) (k : ConnKey) (data : Bytes) :
    (p.send (.payload k data)).Parting q := by
  refine h.congr (fun _ => rfl) (fun _ held => held) (fun _ some => some) (fun id telling => ?_)
    (fun l _ _ ⟨j, data', t, packed, known⟩ =>
      .inl ⟨j, data', t, packed, (sameSending_send p _).mp known⟩) rfl
  obtain telling | ⟨reason, same⟩ := parts_send _ telling
  · exact telling
  · cases same

/-! ## The user and the reading activity -/

/-- No message sets out and none goes on. -/
theorem of_jobs (h : p.Parting q) (jobs : p'.jobs = p.jobs) (sent : p'.sent = p.sent)
    (owing : p'.owing ⊆ p.owing) (ids : ∀ k, p'.state.id? k = p.state.id? k)
    (holds : ∀ id, p'.state.Holds id → p.state.Holds id)
    (came : ∀ id, p.came q id ≠ [] → p'.came q' id ≠ []) : p'.Parting q' := by
  have job (i : Nat) : p'.job? i = p.job? i := by rw [job?, jobs, job?]
  refine h.congr ids holds came
    (fun id => parts_of_jobs (fun known => ⟨_, _, (job _).symm.trans known, rfl⟩) sent owing)
    (fun k _ _ sends => .inl ?_) sent
  obtain ⟨i, data, t, packed, known⟩ := sends
  exact ⟨i, data, t, packed, (job i).symm.trans known⟩

/-- The other side goes on. -/
theorem of_sent (h : p.Parting q) (hears : p.Hears q) (sent : q.sent <+: q'.sent) : p.Parting q' :=
  h.of_jobs rfl rfl (List.Subset.refl _) (fun _ => rfl) (fun _ held => held) fun id some => by
    rwa [came_congr rfl hears.heard_le sent]

theorem read (h : p.Parting q) (k : ConnKey) : (p.read k).Parting q := by
  unfold Party.read
  split
  · next state r read =>
    have ids := (State.sameSending_read read).ids
    obtain ⟨c, c', known, given, rfl⟩ := State.read?_eq_some read
    exact h.of_jobs rfl rfl (List.Subset.refl _) ids (fun _ held => held) fun _ some => some
  · exact h

theorem finish (h : p.Parting q) (k : ConnKey) : (p.finish k).Parting q := by
  obtain ⟨-, same⟩ | ⟨-, id, -, same⟩ := p.finish_cases k <;> rw [same]
  · exact h
  · exact h.of_jobs rfl rfl (List.Subset.refl _) (p.state.sameSending_finish k).ids
      (fun _ held => held) fun _ some => some

/-- A number that a close takes out of the table will be told. -/
theorem forget (h : p.Parting q) (inOrder : p.InOrder q) (id : ConnId) : (p.forget id).Parting q := by
  obtain same | ⟨leaves, ⟨-, same⟩ | ⟨-, same⟩⟩ := p.forget_cases id <;> rw [same]
  · exact h
  · exact h.of_jobs rfl rfl (List.Subset.refl _) (fun _ => rfl) (fun _ held => held)
      fun _ some => some
  have parts {id' : ConnId} (telling : Party.Parts
      { p with state := p.state.remove id, leaving := p.leaving.erase id, owing := p.owing ++ [id] }
      id') : p.Parts id' ∨ id' = id := by
    obtain owes | telling := telling
    · rcases List.mem_append.mp owes with owes | last
      · exact .inl (.inl owes)
      · exact .inr (List.mem_singleton.mp last)
    · exact .inl (.inr telling)
  refine ⟨fun {id'} telling held => ?_, fun {id'} telling => ?_, h.last, h.order⟩
  · obtain ⟨held, other⟩ := State.holds_remove.mp held
    exact h.shut ((parts telling).resolve_right other) held
  · obtain telling | rfl := parts telling
    · exact h.spent telling
    · obtain ⟨k, known, -⟩ := inOrder.leaves id' leaves
      exact .inr ⟨k, known⟩

theorem announce (h : p.Parting q) (id : ConnId) : (p.announce id).Parting q := by
  obtain same | ⟨owes, same⟩ := p.announce_cases id <;> rw [same]
  · exact h
  · have erased : Party.Parting { p with owing := p.owing.erase id } q :=
      h.of_jobs rfl rfl (fun _ => List.mem_of_mem_erase) (fun _ => rfl) (fun _ held => held)
        fun _ some => some
    exact erased.tell (h.shut (.inl owes)) (h.spent (.inl owes))

theorem dials (h : p.Parting q) (new : ∀ k, p.state.id? k ≠ some ⟨p.state.nextId⟩)
    (silent : p.came q ⟨p.state.nextId⟩ = []) : p.dials.Parting q :=
  h.enroll State.id?_size id?_dials (fun _ => holds_dials.mp) rfl rfl rfl (fun _ some => some)
    new silent

section Hear

variable {bytes : Bytes} {e : Envelope}

theorem hear (h : p.Parting q) (found : q.sent[p.heard]? = some bytes)
    (read : Envelope.unpacked bytes = .ok e) (heard : p.Heard e p')
    (first : ∀ data, e.content = .payload 0 data → p.state.role = .accept →
      p.came q e.conn = [] ∧ ∀ k, p.state.id? k ≠ some e.conn) : p'.Parting q := by
  have came {p'' : Party} (heard : p''.heard = p.heard + 1) (id : ConnId) (some : p.came q id ≠ []) :
      p''.came q id ≠ [] := by
    rw [came_succ found read heard]
    exact List.append_ne_nil_of_left_ne_nil some _
  cases heard with
  | ignored unknown =>
    exact h.of_jobs rfl rfl (List.Subset.refl _) (fun _ => rfl) (fun _ held => held) (came rfl)
  | @aborted a reason mem named content =>
    have same : p.state.SameSending (p.state.retire a (State.aborting reason)) :=
      State.sameSending_retire (fun _ => rfl) fun _ => rfl
    exact h.of_jobs rfl rfl (List.Subset.refl _) same.ids
      (fun _ held => (State.holds_remove.mp held).1) (came rfl)
  | @delivered a data mem named content =>
    exact h.of_jobs rfl rfl (List.Subset.refl _) (State.sameSending_deliver data).ids
      (fun _ => State.holds_deliver.mp) (came rfl)
  | @refused seq data reason accepting alive unknown content gone =>
    have passed : Party.Parting { p with heard := p.heard + 1
                                         state := { p.state with accepting } } q :=
      h.of_jobs rfl rfl (List.Subset.refl _) (fun _ => rfl) (fun _ held => held) (came rfl)
    refine passed.tell (State.not_holds_iff.mpr unknown) (.inl ?_)
    rw [came_succ found read rfl, Envelope.payload?, content]
    simp
  | @opened data alive role unknown content =>
    obtain ⟨silent, new⟩ := first data content role
    exact h.enroll State.id?_size (id?_opens e.conn data) (fun _ => holds_opens.mp) rfl rfl rfl
      (came rfl) new silent

end Hear

end Parting

end Party

end Tether.Session
