import Tether.Proofs.Session.Ending
import Tether.Proofs.Session.Precedence

/-!
# Each close is told

A close first ends its connection, then takes it out of the table, and last sets its abort on the way.
Another end of the connection may come between the first act and the second, and then the close tells
nothing; but that end was heard of the peer.
-/

namespace Tether.Session

namespace Party

/-- The end of a connection was told, in one direction or the other, or will be unless the stream takes
no more chunks. -/
inductive Announced (p q : Party) (id : ConnId) : Prop
  | owing (owes : id ∈ p.owing)
  | carried {i : Nat} {stage : Outgoing.Stage} (job : p.job? i = some ⟨.abort id .closed, stage⟩)
  | sent (said : aborts id p.sent ≠ [])
  | lost (isDown : down p.stream = true)
  | told (said : p.told q id ≠ [])

/-- Each close is still to take its connection out of the table, or was announced. -/
structure Announces (p q : Party) : Prop where
  named : ∀ {k}, k ∈ p.closes → ∃ id, p.state.id? k = some id
  tells : ∀ {k id}, k ∈ p.closes → p.state.id? k = some id →
    id ∈ p.leaving ∧ p.state.Holds id ∨ p.Announced q id

variable {p p' q q' : Party} {k : ConnKey} {id : ConnId}

/-- A message that goes on stays the same message. -/
theorem exists_job_of_set {i j : Nat} {m m' : Message} {s s' stage : Outgoing.Stage}
    (known : p.job? i = some ⟨m, s⟩)
    (jobs : ∀ l, p'.job? l = if i = l then some ⟨m, s'⟩ else p.job? l)
    (job : p.job? j = some ⟨m', stage⟩) : ∃ j stage, p'.job? j = some ⟨m', stage⟩ := by
  by_cases here : i = j
  · cases job.symm.trans (here ▸ known)
    exact ⟨i, s', (jobs i).trans (if_pos rfl)⟩
  · exact ⟨j, stage, (jobs j).trans ((if_neg here).trans job)⟩

namespace Announced

/-- Nothing that was announced is taken back. -/
theorem mono (h : p.Announced q id) (owing : id ∈ p.owing → p'.Announced q' id)
    (jobs : ∀ {i stage}, p.job? i = some ⟨.abort id .closed, stage⟩ → p'.Announced q' id)
    (sent : p.sent <+: p'.sent) (stream : down p.stream = true → down p'.stream = true)
    (told : p.told q id <+: p'.told q' id) : p'.Announced q' id := by
  cases h with
  | owing owes => exact owing owes
  | carried job => exact jobs job
  | sent said =>
    exact .sent fun silent => said (List.prefix_nil.mp (silent ▸ aborts_mono id sent))
  | lost isDown => exact .lost (stream isDown)
  | told said => exact .told fun silent => said (List.prefix_nil.mp (silent ▸ told))

/-- No message goes on. -/
theorem of_jobs (h : p.Announced q id) (jobs : p'.jobs = p.jobs) (sent : p'.sent = p.sent)
    (stream : p'.stream = p.stream) (owing : p'.owing = p.owing)
    (told : p.told q id <+: p'.told q' id) : p'.Announced q' id :=
  h.mono (fun owes => .owing (owing ▸ owes))
    (fun {i _} job => .carried (i := i) (by rw [job?, jobs]; exact job))
    (by simp only [sent, List.prefix_refl]) (by rw [stream]; exact fun isDown => isDown) told

theorem send (h : p.Announced q id) (m : Message) : (p.send m).Announced q id :=
  h.mono (fun owes => .owing owes) (fun job => .carried (job?_send_of_job? job m))
    (List.prefix_refl _) (fun isDown => isDown) (List.prefix_refl _)

theorem settle (h : p.Announced q id) (sound : p.Sound) (alive : p.state.ended = none)
    (roomy : Config.minFrameLength ≤ p.stream.config.maxFrameLen) {i : Nat} {o : Outgoing}
    {outcome : Outgoing.Outcome} (known : p.job? i = some o)
    (moved : o.Moved p.state p.stream outcome) : (p.settle i o outcome).Announced q id := by
  have jobs := job?_setJob known
  have same := sameReading_settle i moved
  have told : p.told q id <+: (p.settle i o outcome).told q id := by
    simp only [Party.told, same.heard, List.prefix_refl]
  have owing (owes : id ∈ p.owing) : (p.settle i o outcome).Announced q id :=
    .owing (same.owing ▸ owes)
  obtain ⟨m, s⟩ := o
  cases moved with
  | enqueued _ _ _ =>
    refine h.mono owing (fun job => ?_) (List.prefix_refl _) (fun isDown => isDown) told
    obtain ⟨j, stage, job⟩ := exists_job_of_set known (jobs _) job
    exact .carried job
  | acquired _ _ _ _ =>
    refine h.mono owing (fun job => ?_) (List.prefix_refl _) (fun isDown => isDown) told
    obtain ⟨j, stage, job⟩ := exists_job_of_set known (jobs _) job
    exact .carried job
  | @taken t bytes stream sends _ room =>
    refine h.mono owing (fun {j _} job => ?_) (List.prefix_append _ _) (fun isDown => ?_) told
    · by_cases here : i = j
      · cases job.symm.trans (here ▸ known)
        cases sends
        obtain ⟨e, next, packed⟩ := sound.numbered.carries known
        refine .sent ?_
        rw [show (p.settle i _ _).sent = p.sent ++ [bytes] from rfl,
          aborts_concat id (Envelope.unpacked_of_packed packed.symm), abort?_of_envelope? next]
        simp [Message.abort?]
      · exact .carried ((jobs none j).trans ((if_neg here).trans job))
    · cases (down_eq_false_of_write? room).1.symm.trans isDown
  | failed why =>
    refine h.mono owing (fun {j _} job => ?_) (List.prefix_refl _) (fun isDown => isDown) told
    by_cases here : i = j
    · cases job.symm.trans (here ▸ known)
      have isDown := down_of_refused sound alive roomy rfl known why
      exact .lost isDown
    · exact .carried ((jobs none j).trans ((if_neg here).trans job))

end Announced

namespace Announces

theorem congr (h : p.Announces q) (closes : p'.closes = p.closes)
    (ids : ∀ {k id}, p.state.id? k = some id → p'.state.id? k = some id)
    (leaves : ∀ id, id ∈ p.leaving → p.state.Holds id →
      id ∈ p'.leaving ∧ p'.state.Holds id ∨ p'.Announced q' id)
    (announced : ∀ id, p.Announced q id → p'.Announced q' id) : p'.Announces q' := by
  refine ⟨fun {k} mem => ?_, fun {k id} mem known => ?_⟩
  · obtain ⟨id, known⟩ := h.named (closes ▸ mem)
    exact ⟨id, ids known⟩
  · obtain ⟨id', known'⟩ := h.named (closes ▸ mem)
    cases (ids known').symm.trans known
    obtain ⟨leaving, held⟩ | said := h.tells (closes ▸ mem) known'
    · exact leaves id leaving held
    · exact .inr (announced id said)

/-- Nothing that concerns closes has changed, but for more that was heard. -/
theorem of_jobs (h : p.Announces q) (jobs : p'.jobs = p.jobs) (sent : p'.sent = p.sent)
    (stream : p'.stream = p.stream) (owing : p'.owing = p.owing) (leaving : p'.leaving = p.leaving)
    (closes : p'.closes = p.closes)
    (ids : ∀ {k id}, p.state.id? k = some id → p'.state.id? k = some id)
    (holds : ∀ id, p.state.Holds id → p'.state.Holds id ∨ p'.told q id ≠ [])
    (told : ∀ id, p.told q id <+: p'.told q id) : p'.Announces q := by
  refine h.congr closes ids (fun id leaves held => ?_)
    fun id said => said.of_jobs jobs sent stream owing (told id)
  obtain held | said := holds id held
  · exact .inl ⟨leaving ▸ leaves, held⟩
  · exact .inr (.told said)

/-- The other side goes on. -/
theorem of_sent (h : p.Announces q) (hears : p.Hears q) (sent : q.sent <+: q'.sent) :
    p.Announces q' := by
  refine h.congr rfl (fun known => known) (fun _ leaves held => .inl ⟨leaves, held⟩) fun id said => ?_
  exact said.of_jobs rfl rfl rfl rfl (by
    simp only [told_congr rfl hears.heard_le sent, List.prefix_refl])

theorem send (h : p.Announces q) (m : Message) : (p.send m).Announces q :=
  h.congr rfl (fun known => known) (fun _ leaves held => .inl ⟨leaves, held⟩) fun _ said => said.send m

theorem move (h : p.Announces q) (sound : p.Sound) (alive : p.state.ended = none)
    (roomy : Config.minFrameLength ≤ p.stream.config.maxFrameLen) (i : Nat) :
    (p.move i).Announces q := by
  obtain same | ⟨o, outcome, known, moved, stepped⟩ := p.move_cases i
  · rwa [same]
  · rw [stepped]
    have same := sameReading_settle i moved
    refine h.congr same.closes (fun known => (same.state.ids _).trans known)
      (fun id leaves held => .inl ⟨same.leaving ▸ leaves, ?_⟩)
      fun id said => said.settle sound alive roomy known moved
    rw [State.Holds, same.state.table]
    exact held

theorem cancel (h : p.Announces q) (i : Nat) : (p.cancel i).Announces q := by
  obtain same | ⟨o, known, ⟨k, data, payload⟩, given⟩ := p.cancel_cases i
  · rwa [same]
  · rw [given]
    have same := p.sameReading_giveUp i o
    have jobs (j : Nat) : (p.giveUp i o).job? j = if i = j then none else p.job? j :=
      job?_setJob known none j
    refine h.congr same.closes (fun known => (same.state.ids _).trans known)
      (fun id leaves held => .inl ⟨leaves, ?_⟩) fun id said => ?_
    · rw [State.Holds, same.state.table]
      exact held
    · refine said.mono (fun owes => .owing owes) (fun {j stage} job => ?_) (List.prefix_refl _)
        (fun isDown => isDown) (List.prefix_refl _)
      have other : i ≠ j := fun here => by
        cases job.symm.trans (here ▸ known)
        cases payload
      exact .carried ((jobs j).trans ((if_neg other).trans job))

theorem flow (h : p.Announces q) (stream : Stream.Endpoint) : (p.flow stream).Announces q := by
  unfold Party.flow
  split
  · next may =>
    obtain ⟨-, stays⟩ := (Bool.and_eq_true _ _).mp may
    refine h.congr rfl (fun known => known) (fun _ leaves held => .inl ⟨leaves, held⟩)
      fun id said => ?_
    refine said.mono (fun owes => .owing owes) (fun job => .carried job) (List.prefix_refl _)
      (fun isDown => ?_) (List.prefix_refl _)
    rw [isDown] at stays
    exact stays
  · exact h

theorem read (h : p.Announces q) (k : ConnKey) : (p.read k).Announces q := by
  unfold Party.read
  split
  · next state r read =>
    have ids := (State.sameSending_read read).ids
    obtain ⟨c, c', known, given, rfl⟩ := State.read?_eq_some read
    exact h.of_jobs rfl rfl rfl rfl rfl rfl (fun known => (ids _).trans known) (fun _ held => .inl held)
      fun _ => List.prefix_refl _
  · exact h

theorem dials (h : p.Announces q) : p.dials.Announces q :=
  h.of_jobs rfl rfl rfl rfl rfl rfl
    (fun known => (id?_dials _).trans ((if_neg (State.ne_size known)).trans known))
    (fun _ held => .inl (holds_dials.mpr (.inr held))) fun _ => List.prefix_refl _

/-! ## The acts of a close -/

theorem finish (h : p.Announces q) (listed : p.state.Listed) (k : ConnKey) :
    (p.finish k).Announces q := by
  obtain ⟨-, same⟩ | ⟨opened, id, known, same⟩ := p.finish_cases k <;> rw [same]
  · exact h
  have ids := (p.state.sameSending_finish k).ids
  refine ⟨fun {l} mem => ?_, fun {l id'} mem known' => ?_⟩
  · rcases List.mem_append.mp mem with mem | mem
    · obtain ⟨id', known'⟩ := h.named mem
      exact ⟨id', (ids l).trans known'⟩
    · cases List.mem_singleton.mp mem
      exact ⟨id, (ids k).trans known⟩
  · replace known' := (ids l).symm.trans known'
    rcases List.mem_append.mp mem with mem | mem
    · obtain ⟨leaves, held⟩ | said := h.tells mem known'
      · exact .inl ⟨List.mem_append_left _ leaves, held⟩
      · exact .inr (said.of_jobs rfl rfl rfl rfl (List.prefix_refl _))
    · cases List.mem_singleton.mp mem
      cases known.symm.trans known'
      exact .inl ⟨List.mem_append_right _ List.mem_cons_self, listed.holds known opened⟩

theorem forget (h : p.Announces q) (id : ConnId) : (p.forget id).Announces q := by
  obtain same | ⟨-, ⟨gone, same⟩ | ⟨-, same⟩⟩ := p.forget_cases id <;> rw [same]
  · exact h
  · refine h.congr rfl (fun known => known) (fun id' leaves held => ?_)
      fun id' said => said.of_jobs rfl rfl rfl rfl (List.prefix_refl _)
    have other : id' ≠ id := fun here => gone (here ▸ held)
    exact .inl ⟨(List.mem_erase_of_ne other).mpr leaves, held⟩
  · refine h.congr rfl (fun known => known) (fun id' leaves held => ?_) fun id' said => ?_
    · by_cases here : id' = id
      · exact .inr (.owing (List.mem_append_right _ (List.mem_singleton.mpr here)))
      · exact .inl ⟨(List.mem_erase_of_ne here).mpr leaves, State.holds_remove.mpr ⟨held, here⟩⟩
    · exact said.mono (fun owes => .owing (List.mem_append_left _ owes)) (fun job => .carried job)
        (List.prefix_refl _) (fun isDown => isDown) (List.prefix_refl _)

theorem announce (h : p.Announces q) (id : ConnId) : (p.announce id).Announces q := by
  obtain same | ⟨-, same⟩ := p.announce_cases id <;> rw [same]
  · exact h
  have last : ({ p with owing := p.owing.erase id }.send (.abort id .closed)).job? p.jobs.length =
      some ⟨.abort id .closed, .fresh⟩ := (job?_send _ _ _).trans (if_pos rfl)
  refine h.congr rfl (fun known => known) (fun _ leaves held => .inl ⟨leaves, held⟩) fun id' said => ?_
  refine said.mono (fun owes => ?_) (fun {j _} job => ?_) (List.prefix_refl _) (fun isDown => isDown)
    (List.prefix_refl _)
  · by_cases here : id' = id
    · rw [here]
      exact .carried last
    · exact .owing ((List.mem_erase_of_ne here).mpr owes)
  · exact .carried (job?_send_of_job? (p := { p with owing := p.owing.erase id }) job _)

/-! ## Envelopes -/

theorem hear (h : p.Announces q) {bytes : Bytes} {e : Envelope} (found : q.sent[p.heard]? = some bytes)
    (read : Envelope.unpacked bytes = .ok e) (heard : p.Heard e p') : p'.Announces q := by
  have told {p'' : Party} (heard : p''.heard = p.heard + 1) (id : ConnId) :
      p''.told q id = p.told q id ++ (e.abort? id).toList := told_succ found read heard id
  have more {p'' : Party} (heard : p''.heard = p.heard + 1) (id : ConnId) :
      p.told q id <+: p''.told q id := told heard id ▸ List.prefix_append _ _
  cases heard with
  | ignored unknown =>
    exact h.of_jobs rfl rfl rfl rfl rfl rfl (fun known => known) (fun _ held => .inl held) (more rfl)
  | @aborted a reason mem named content =>
    have same : p.state.SameSending (p.state.retire a (State.aborting reason)) :=
      State.sameSending_retire (fun _ => rfl) fun _ => rfl
    refine h.of_jobs rfl rfl rfl rfl rfl rfl (fun known => (same.ids _).trans known) (fun id held => ?_)
      (more rfl)
    by_cases here : id = a.id
    · refine .inr ?_
      rw [told rfl, here, Envelope.abort?, content, named]
      simp
    · exact .inl (State.holds_remove.mpr ⟨held, here⟩)
  | @delivered a data mem named content =>
    exact h.of_jobs rfl rfl rfl rfl rfl rfl (fun known => (State.id?_deliver data _).trans known)
      (fun _ held => .inl (State.holds_deliver.mpr held)) (more rfl)
  | @refused seq data reason accepting alive unknown content gone =>
    have passed : Party.Announces { p with heard := p.heard + 1
                                           state := { p.state with accepting } } q :=
      h.of_jobs rfl rfl rfl rfl rfl rfl (fun known => known) (fun _ held => .inl held) (more rfl)
    exact passed.send _
  | @opened data alive role unknown content =>
    exact h.of_jobs rfl rfl rfl rfl rfl rfl
      (fun known => (id?_opens e.conn data _).trans ((if_neg (State.ne_size known)).trans known))
      (fun _ held => .inl (holds_opens.mpr (.inr held))) (more rfl)

end Announces

end Party

end Tether.Session
