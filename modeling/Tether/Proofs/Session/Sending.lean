import Tether.Proofs.Session.Joined
import Tether.Proofs.Stream.Exchange

/-!
# Messages take turns

What a step of a message can do, and what follows for the turn: no two messages hold the same
ticket, only the one that has the turn has a number and waits for room, and the turn goes to the
tickets in the order in which they were given out.
-/

namespace Tether.Session

/-! ## Turns -/

namespace Turn

variable {t t' : Turn} {n : Nat}

theorem acquire?_eq_some :
    t.acquire? n = some t' ↔ ∃ rest, t = ⟨none, n :: rest⟩ ∧ t' = ⟨some n, rest⟩ := by
  unfold acquire?
  split
  · next free line =>
    obtain ⟨holder, waiting⟩ := t
    cases free
    cases line
    constructor
    · intro h
      split at h
      · next same => cases same; cases h; exact ⟨_, rfl, rfl⟩
      · cases h
    · rintro ⟨rest, same, rfl⟩
      cases same
      exact if_pos rfl
  · next other =>
    refine ⟨nofun, ?_⟩
    rintro ⟨rest, rfl, -⟩
    exact absurd rfl (other _ _ rfl)

theorem mem_leave {m : Nat} : m ∈ (t.leave n).waiting ↔ m ∈ t.waiting ∧ m ≠ n := by
  simp [leave]

/-- To take the turn and give it up is to give up the place in line. -/
theorem leave_of_acquire? (h : t.acquire? n = some t') : t'.leave n = t.leave n := by
  obtain ⟨rest, rfl, rfl⟩ := acquire?_eq_some.mp h
  simp [leave]

end Turn

/-! ## Steps of messages -/

namespace Outgoing

/-- The ticket that a message holds. -/
def ticket? (o : Outgoing) : Option Nat :=
  match o.stage with
  | .fresh => none
  | .waiting t | .sending t _ => some t

/-- Why a message is refused. -/
def Refused (s : State) (stream : Stream.Endpoint) (o : Outgoing) : Prop :=
  s.mayStart o.message ≠ .ok () ∨ s.ended ≠ none ∨
    ∃ t packed, o.stage = .sending t packed ∧
      ∀ bytes, packed = .ok bytes → ∃ stream' e, stream.write? bytes = some (stream', .error e)

/-- What a step of a message can do. -/
inductive Moved (s : State) (stream : Stream.Endpoint) (o : Outgoing) : Outcome → Prop
  | enqueued (fresh : o.stage = .fresh) (may : s.mayStart o.message = .ok ())
    (alive : s.ended = none) :
    Moved s stream o
      ({ s with nextTicket := s.nextTicket + 1, turn := s.turn.enqueue s.nextTicket }, stream,
        .goOn ⟨o.message, .waiting s.nextTicket⟩)
  | acquired {t : Nat} {turn : Turn} (waits : o.stage = .waiting t)
    (free : s.turn.acquire? t = some turn) (may : s.mayStart o.message = .ok ())
    (alive : s.ended = none) :
    Moved s stream o
      (({ s with turn }.reserve o.message).1, stream,
        .goOn ⟨o.message, .sending t (s.reserve o.message).2.packed⟩)
  | taken {t : Nat} {bytes : Bytes} {stream' : Stream.Endpoint} (sends : o.stage = .sending t (.ok bytes))
    (alive : s.ended = none) (room : stream.write? bytes = some (stream', .ok ())) :
    Moved s stream o (s.leave t, stream', .settled (.ok ()))
  | failed {e : Error} (why : o.Refused s stream) :
    Moved s stream o (o.cancel s, stream, .settled (.error e))

theorem mayStart_turn (s : State) (turn : Turn) (m : Message) :
    ({ s with turn } : State).mayStart m = s.mayStart m := by
  cases m <;> rfl

theorem reserve_turn (s : State) (turn : Turn) (m : Message) :
    ({ s with turn }.reserve m).2 = (s.reserve m).2 := by
  cases m with
  | payload k data =>
    simp only [State.reserve]
    cases s.conns[k]? <;> rfl
  | abort id reason => rfl

theorem moved_refused {s s' : State} {stream : Stream.Endpoint} {o : Outgoing} {e : Error}
    (why : o.Refused s stream) (same : s' = o.cancel s) :
    Moved s stream o (s', stream, .settled (.error e)) :=
  same ▸ .failed why

theorem moved_start (s : State) (stream : Stream.Endpoint) {o : Outgoing} (fresh : o.stage = .fresh) :
    Moved s stream o (start s stream o.message) := by
  have unchanged : s = o.cancel s := by rw [cancel, fresh]
  unfold start
  split
  · next e refused => exact moved_refused (.inl (by rw [refused]; nofun)) unchanged
  · next may =>
    split
    · next ended => exact moved_refused (.inr (.inl (Option.isSome_iff_ne_none.mp ended))) unchanged
    · next alive => exact .enqueued fresh may (by simpa using alive)

theorem moved_takeTurn {s : State} {stream : Stream.Endpoint} {o : Outgoing} {t : Nat}
    {outcome : Outcome} (waits : o.stage = .waiting t)
    (h : takeTurn? s stream o.message t = some outcome) : Moved s stream o outcome := by
  have left : s.leave t = o.cancel s := by rw [cancel, waits]
  unfold takeTurn? at h
  split at h
  · next ended =>
    cases h
    exact moved_refused (.inr (.inl (Option.isSome_iff_ne_none.mp ended))) left
  · next alive =>
    obtain ⟨turn, free, h⟩ := Option.map_eq_some_iff.mp h
    dsimp only at h
    split at h
    · next e refused =>
      cases h
      rw [mayStart_turn] at refused
      refine moved_refused (.inl (by rw [refused]; nofun)) (left ▸ ?_)
      rw [State.leave, State.leave, Turn.leave_of_acquire? free]
    · next may =>
      cases h
      rw [mayStart_turn] at may
      rw [reserve_turn]
      exact .acquired waits free may (by simpa using alive)

theorem moved_send {s : State} {stream : Stream.Endpoint} {o : Outgoing} {t : Nat}
    {packed : Except Wire.Error Bytes} {outcome : Outcome} (sends : o.stage = .sending t packed)
    (h : send? s stream o.message t packed = some outcome) : Moved s stream o outcome := by
  have left : (s.giveBack o.message).leave t = o.cancel s := by rw [cancel, sends]
  unfold send? at h
  split at h
  · next ended =>
    cases h
    exact moved_refused (.inr (.inl (Option.isSome_iff_ne_none.mp ended))) left
  · next alive =>
    split at h
    · next e =>
      cases h
      exact moved_refused (.inr (.inr ⟨t, _, sends, nofun⟩)) left
    · next bytes =>
      obtain ⟨⟨stream', r⟩, written, h⟩ := Option.map_eq_some_iff.mp h
      cases r with
      | ok u =>
        cases h
        exact .taken sends (by simpa using alive) written
      | error e =>
        cases h
        obtain ⟨rfl, -⟩ | ⟨fine, -⟩ := Stream.Endpoint.write?_cases written
        · refine moved_refused (.inr (.inr ⟨t, _, sends, fun bytes same => ?_⟩)) left
          cases same
          exact ⟨_, _, written⟩
        · cases fine

/-- The step function of messages has no other outcomes. -/
theorem moved_of_step? {s : State} {stream : Stream.Endpoint} {o : Outgoing} {outcome : Outcome}
    (h : o.step? s stream = some outcome) : Moved s stream o outcome := by
  obtain ⟨m, stage⟩ := o
  cases stage with
  | fresh =>
    cases h
    exact moved_start s stream rfl
  | waiting t => exact moved_takeTurn rfl h
  | sending t packed => exact moved_send rfl h

end Outgoing

namespace Party

variable {p : Party} {i j : Nat} {o : Outgoing}

theorem lt_of_job? (known : p.job? i = some o) : i < p.jobs.length := by
  unfold job? at known
  by_cases inside : i < p.jobs.length
  · exact inside
  · rw [List.getElem?_eq_none (Nat.not_lt.mp inside)] at known
    cases known

theorem job?_setJob (known : p.job? i = some o) (o' : Option Outgoing) (j : Nat) :
    (p.setJob i o').job? j = if i = j then o' else p.job? j := by
  unfold job? setJob
  rw [List.getElem?_set, if_pos (lt_of_job? known)]
  split <;> rfl

/-- A message is settled or replaced by a later stage of it: each that there is was there before. -/
theorem message_of_set (known : p.job? i = some o) {o' : Option Outgoing}
    (later : ∀ x, o' = some x → x.message = o.message) {p' : Party}
    (jobs : ∀ j, p'.job? j = if i = j then o' else p.job? j) {x : Outgoing}
    (known' : p'.job? j = some x) : ∃ i' y, p.job? i' = some y ∧ y.message = x.message := by
  rw [jobs] at known'
  split at known'
  · exact ⟨i, o, known, (later x known').symm⟩
  · exact ⟨j, x, known', rfl⟩

theorem job?_send (p : Party) (m : Message) (j : Nat) :
    (p.send m).job? j = if p.jobs.length = j then some ⟨m, .fresh⟩ else p.job? j := by
  unfold job? send
  split
  · next same =>
    subst same
    rw [List.getElem?_append_right (Nat.le_refl _), Nat.sub_self]
    rfl
  · next other =>
    rcases Nat.lt_or_gt_of_ne other with after | before
    · rw [List.getElem?_eq_none, List.getElem?_eq_none (Nat.le_of_lt after)]
      simp only [List.length_append, List.length_cons, List.length_nil]
      omega
    · rw [List.getElem?_append_left before]

/-- A message that is on its way stays there when another sets out. -/
theorem job?_send_of_job? (known : p.job? i = some o) (m : Message) : (p.send m).job? i = some o := by
  rw [job?_send, if_neg (Nat.ne_of_gt (lt_of_job? known))]
  exact known

theorem move_of_step? (known : p.job? i = some o) {outcome : Outgoing.Outcome}
    (stepped : o.step? p.state p.stream = some outcome) : p.move i = p.settle i o outcome := by
  simp only [move, known, stepped, Option.elim_some]

/-- A message stays where it is, or takes a step. -/
theorem move_cases (p : Party) (i : Nat) :
    p.move i = p ∨ ∃ o outcome, p.job? i = some o ∧ o.Moved p.state p.stream outcome ∧
      p.move i = p.settle i o outcome := by
  cases known : p.job? i with
  | none => exact .inl (by simp only [move, known])
  | some o =>
    cases stepped : o.step? p.state p.stream with
    | none => exact .inl (by simp only [move, known, stepped, Option.elim_none])
    | some outcome =>
      exact .inr ⟨o, outcome, rfl, Outgoing.moved_of_step? stepped, move_of_step? known stepped⟩

/-- A cancelled write is given up. -/
theorem cancel_cases (p : Party) (i : Nat) :
    p.cancel i = p ∨ ∃ o, p.job? i = some o ∧ (∃ k data, o.message = .payload k data) ∧
      p.cancel i = p.giveUp i o := by
  unfold cancel
  split
  · next k data stage known => exact .inr ⟨_, known, ⟨k, data, rfl⟩, rfl⟩
  · exact .inl rfl

/-- No message sets out by a step of another. -/
theorem length_jobs_settle (i : Nat) (o : Outgoing) (outcome : Outgoing.Outcome) :
    (p.settle i o outcome).jobs.length = p.jobs.length := by
  obtain ⟨state, stream, progress⟩ := outcome
  cases progress with
  | goOn o' => exact List.length_set
  | settled r => cases r <;> exact List.length_set

theorem length_jobs_move (p : Party) (i : Nat) : (p.move i).jobs.length = p.jobs.length := by
  obtain same | ⟨o, outcome, -, -, stepped⟩ := p.move_cases i
  · rw [same]
  · rw [stepped, length_jobs_settle]

theorem length_jobs_cancel (p : Party) (i : Nat) : (p.cancel i).jobs.length = p.jobs.length := by
  obtain same | ⟨o, -, -, given⟩ := p.cancel_cases i
  · rw [same]
  · rw [given]
    exact List.length_set

/-- What keeps the turn in order. -/
structure Queued (p : Party) : Prop where
  below : ∀ {i o t}, p.job? i = some o → o.ticket? = some t → t < p.state.nextTicket
  distinct : ∀ {i j o o' t}, p.job? i = some o → p.job? j = some o' → o.ticket? = some t →
    o'.ticket? = some t → i = j
  holder : ∀ {i m t packed}, p.job? i = some ⟨m, .sending t packed⟩ →
    p.state.turn.holder = some t
  waits : ∀ {i m t}, p.job? i = some ⟨m, .waiting t⟩ → t ∈ p.state.turn.waiting
  sorted : p.state.turn.waiting.Pairwise (· < ·)
  waiting_lt : ∀ t ∈ p.state.turn.waiting, t < p.state.nextTicket

/-- Only one message has a number and waits for room. -/
theorem Queued.sending_unique (h : p.Queued) {m m' : Message} {t t' : Nat}
    {packed packed' : Except Wire.Error Bytes} (known : p.job? i = some ⟨m, .sending t packed⟩)
    (known' : p.job? j = some ⟨m', .sending t' packed'⟩) : i = j := by
  have same := (h.holder known).symm.trans (h.holder known')
  cases same
  exact h.distinct known known' rfl rfl

/-- What does not touch the turn keeps it in order, as does a new message. -/
theorem Queued.congr (h : p.Queued) {p' : Party} (turn : p'.state.turn = p.state.turn)
    (nextTicket : p'.state.nextTicket = p.state.nextTicket)
    (jobs : ∀ {i o}, p'.job? i = some o → o.stage ≠ .fresh → p.job? i = some o) : p'.Queued := by
  have held {i o t} (known : p'.job? i = some o) (ticket : o.ticket? = some t) :
      p.job? i = some o := jobs known fun fresh => by
    rw [Outgoing.ticket?, fresh] at ticket
    cases ticket
  refine ⟨fun known ticket => ?_, fun known known' ticket ticket' => ?_, fun known => ?_,
    fun known => ?_, ?_, ?_⟩
  · exact nextTicket ▸ h.below (held known ticket) ticket
  · exact h.distinct (held known ticket) (held known' ticket') ticket ticket'
  · exact turn ▸ h.holder (jobs known nofun)
  · exact turn ▸ h.waits (jobs known nofun)
  · exact turn ▸ h.sorted
  · rw [turn, nextTicket]
    exact h.waiting_lt

theorem Queued.send (h : p.Queued) (m : Message) : (p.send m).Queued := by
  refine h.congr rfl rfl fun {i o} known stage => ?_
  rw [job?_send] at known
  split at known
  · cases known
    exact absurd rfl stage
  · exact known

/-- A message with a ticket leaves. -/
theorem Queued.leave (h : p.Queued) (known : p.job? i = some o) {t : Nat}
    (ticket : o.ticket? = some t) {p' : Party} (turn : p'.state.turn = p.state.turn.leave t)
    (nextTicket : p'.state.nextTicket = p.state.nextTicket)
    (jobs : ∀ j, p'.job? j = if i = j then none else p.job? j) : p'.Queued := by
  have kept {j o'} (known' : p'.job? j = some o') : p.job? j = some o' ∧ o'.ticket? ≠ some t := by
    rw [jobs] at known'
    split at known'
    · cases known'
    · next other => exact ⟨known', fun ticket' => other (h.distinct known known' ticket ticket')⟩
  refine ⟨fun known ticket => ?_, fun known known' ticket ticket' => ?_, fun known => ?_,
    fun known => ?_, ?_, fun t waits => ?_⟩
  · exact nextTicket ▸ h.below (kept known).1 ticket
  · exact h.distinct (kept known).1 (kept known').1 ticket ticket'
  · have holder := h.holder (kept known).1
    rw [turn, Turn.leave, holder]
    exact if_neg (kept known).2
  · rw [turn, Turn.mem_leave]
    exact ⟨h.waits (kept known).1, fun same => (kept known).2 (same ▸ rfl)⟩
  · rw [turn]
    exact h.sorted.filter _
  · rw [turn, Turn.mem_leave] at waits
    exact nextTicket ▸ h.waiting_lt t waits.1

theorem Queued.enqueue (h : p.Queued) {p' : Party}
    (turn : p'.state.turn = p.state.turn.enqueue p.state.nextTicket)
    (nextTicket : p'.state.nextTicket = p.state.nextTicket + 1)
    (jobs : ∀ j, p'.job? j =
      if i = j then some ⟨o.message, .waiting p.state.nextTicket⟩ else p.job? j) : p'.Queued := by
  have cases' {j o'} (known' : p'.job? j = some o') :
      i = j ∧ o' = ⟨o.message, .waiting p.state.nextTicket⟩ ∨ p.job? j = some o' := by
    rw [jobs] at known'
    split at known'
    · next same => exact .inl ⟨same, (Option.some.inj known').symm⟩
    · exact .inr known'
  refine ⟨fun known ticket => ?_, fun known known' ticket ticket' => ?_, fun known => ?_,
    fun known => ?_, ?_, fun t waits => ?_⟩
  · rw [nextTicket]
    obtain ⟨-, rfl⟩ | known := cases' known
    · cases ticket
      exact Nat.lt_succ_self _
    · exact Nat.lt_succ_of_lt (h.below known ticket)
  · obtain ⟨rfl, rfl⟩ | known := cases' known <;> obtain ⟨rfl, rfl⟩ | known' := cases' known'
    · rfl
    · cases ticket
      exact absurd (h.below known' ticket') (Nat.lt_irrefl _)
    · cases ticket'
      exact absurd (h.below known ticket) (Nat.lt_irrefl _)
    · exact h.distinct known known' ticket ticket'
  · obtain ⟨-, same⟩ | known := cases' known
    · cases same
    · exact turn ▸ h.holder known
  · rw [turn, Turn.enqueue, List.mem_append]
    obtain ⟨-, same⟩ | known := cases' known
    · cases same
      exact .inr List.mem_cons_self
    · exact .inl (h.waits known)
  · rw [turn, Turn.enqueue, List.pairwise_append]
    refine ⟨h.sorted, List.pairwise_singleton _ _, fun a waits b last => ?_⟩
    cases List.mem_singleton.mp last
    exact h.waiting_lt a waits
  · rw [turn, Turn.enqueue, List.mem_append, List.mem_singleton] at waits
    rw [nextTicket]
    obtain waits | rfl := waits
    · exact Nat.lt_succ_of_lt (h.waiting_lt t waits)
    · exact Nat.lt_succ_self _

/-- While the turn is free, no message waits for room. -/
theorem Queued.not_sending (h : p.Queued) (free : p.state.turn.holder = none) {m : Message} {t : Nat}
    {packed : Except Wire.Error Bytes} : p.job? i ≠ some ⟨m, .sending t packed⟩ := fun known => by
  have holder := h.holder known
  rw [free] at holder
  cases holder

theorem Queued.acquire (h : p.Queued) (known : p.job? i = some o) {t : Nat}
    (waits : o.stage = .waiting t) {turn : Turn} (free : p.state.turn.acquire? t = some turn)
    {packed : Except Wire.Error Bytes} {p' : Party} (turn' : p'.state.turn = turn)
    (nextTicket : p'.state.nextTicket = p.state.nextTicket)
    (jobs : ∀ j, p'.job? j =
      if i = j then some ⟨o.message, .sending t packed⟩ else p.job? j) : p'.Queued := by
  obtain ⟨rest, line, rfl⟩ := Turn.acquire?_eq_some.mp free
  have ticket : o.ticket? = some t := by rw [Outgoing.ticket?, waits]
  have sorted := h.sorted
  have bounds := h.waiting_lt
  rw [line] at sorted bounds
  have cases' {j o'} (known' : p'.job? j = some o') :
      i = j ∧ o' = ⟨o.message, .sending t packed⟩ ∨ p.job? j = some o' ∧ o'.ticket? ≠ some t := by
    rw [jobs] at known'
    split at known'
    · next same => exact .inl ⟨same, (Option.some.inj known').symm⟩
    · next other =>
      exact .inr ⟨known', fun ticket' => other (h.distinct known known' ticket ticket')⟩
  refine ⟨fun known' ticket' => ?_, fun known₁ known₂ ticket₁ ticket₂ => ?_, fun known' => ?_,
    fun known' => ?_, ?_, fun n waits' => ?_⟩
  · rw [nextTicket]
    obtain ⟨-, rfl⟩ | ⟨known', -⟩ := cases' known'
    · cases ticket'
      exact h.below known ticket
    · exact h.below known' ticket'
  · obtain ⟨rfl, rfl⟩ | ⟨known₁, other₁⟩ := cases' known₁ <;>
      obtain ⟨rfl, rfl⟩ | ⟨known₂, other₂⟩ := cases' known₂
    · rfl
    · cases ticket₁
      exact absurd ticket₂ other₂
    · cases ticket₂
      exact absurd ticket₁ other₁
    · exact h.distinct known₁ known₂ ticket₁ ticket₂
  · obtain ⟨-, same⟩ | ⟨known', -⟩ := cases' known'
    · cases same
      rw [turn']
    · exact absurd known' (h.not_sending (by rw [line]))
  · obtain ⟨-, same⟩ | ⟨known', other⟩ := cases' known'
    · cases same
    · have mem := h.waits known'
      rw [line, List.mem_cons] at mem
      rw [turn']
      exact mem.resolve_left fun same => other (same ▸ rfl)
  · rw [turn']
    exact (List.pairwise_cons.mp sorted).2
  · rw [turn'] at waits'
    exact nextTicket ▸ bounds n (List.mem_cons_of_mem _ waits')

theorem turn_giveBack (s : State) (m : Message) : (s.giveBack m).turn = s.turn := by
  cases m <;> rfl

theorem nextTicket_giveBack (s : State) (m : Message) :
    (s.giveBack m).nextTicket = s.nextTicket := by
  cases m <;> rfl

theorem turn_reserve (s : State) (m : Message) : (s.reserve m).1.turn = s.turn := by
  cases m with
  | payload k data =>
    simp only [State.reserve]
    split <;> rfl
  | abort id reason => rfl

theorem nextTicket_reserve (s : State) (m : Message) :
    (s.reserve m).1.nextTicket = s.nextTicket := by
  cases m with
  | payload k data =>
    simp only [State.reserve]
    split <;> rfl
  | abort id reason => rfl

theorem Queued.giveUp (h : p.Queued) (known : p.job? i = some o) : (p.giveUp i o).Queued := by
  have jobs (j : Nat) : (p.giveUp i o).job? j = if i = j then none else p.job? j :=
    job?_setJob known none j
  cases stage : o.stage with
  | fresh =>
    have unchanged : (p.giveUp i o).state = p.state := by
      change o.cancel p.state = p.state
      rw [Outgoing.cancel, stage]
    refine h.congr (congrArg State.turn unchanged) (congrArg State.nextTicket unchanged)
      fun {j o'} known' _ => ?_
    rw [jobs] at known'
    split at known'
    · cases known'
    · exact known'
  | waiting t =>
    have left : (p.giveUp i o).state = p.state.leave t := by
      change o.cancel p.state = p.state.leave t
      rw [Outgoing.cancel, stage]
    exact h.leave known (by rw [Outgoing.ticket?, stage]) (by rw [left]; rfl) (by rw [left]; rfl) jobs
  | sending t packed =>
    have left : (p.giveUp i o).state = (p.state.giveBack o.message).leave t := by
      change o.cancel p.state = (p.state.giveBack o.message).leave t
      rw [Outgoing.cancel, stage]
    refine h.leave known (by rw [Outgoing.ticket?, stage]) ?_ ?_ jobs
    · rw [left, State.leave, turn_giveBack]
    · rw [left, State.leave, nextTicket_giveBack]

theorem Queued.settle (h : p.Queued) (known : p.job? i = some o) {outcome : Outgoing.Outcome}
    (moved : o.Moved p.state p.stream outcome) : (p.settle i o outcome).Queued := by
  cases moved with
  | enqueued _ _ _ => exact h.enqueue rfl rfl (job?_setJob known _)
  | acquired waits free _ _ =>
    exact h.acquire known waits free (turn_reserve _ _) (nextTicket_reserve _ _)
      (job?_setJob known _)
  | taken sends _ _ =>
    exact h.leave known (by rw [Outgoing.ticket?, sends]) rfl rfl (job?_setJob known none)
  | failed why => exact h.giveUp known

end Party

end Tether.Session
