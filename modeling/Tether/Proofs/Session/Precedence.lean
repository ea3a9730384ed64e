import Tether.Proofs.Session.Parting

/-!
# The first abort to ask for the turn goes out first

A close sets an abort on its way. Payloads of the peer that were in flight may set out further aborts
of the connection, before it or behind it. The turn goes round in the order of the tickets, so of all
aborts of a connection the first that asked for the turn is the first that the stream takes.
-/

namespace Tether.Session

/-! ## The order on the way -/

/-- Whether a message at the first stage gets the turn before one at the second. -/
def Outgoing.Stage.Ahead : Outgoing.Stage → Outgoing.Stage → Prop
  | .waiting t, .waiting t' => t < t'
  | .waiting _, .fresh | .sending _ _, .fresh | .sending _ _, .waiting _ => True
  | .fresh, _ | .waiting _, .sending _ _ | .sending _ _, .sending _ _ => False

theorem Outgoing.Stage.ahead_fresh {stage : Stage} (asked : stage ≠ .fresh) : stage.Ahead .fresh := by
  cases stage with
  | fresh => exact absurd rfl asked
  | waiting | sending => trivial

theorem Reason.bare_of_accuses {reason : Reason} (fair : reason.accuses = false) :
    reason = .closed ∨ reason = .gone ∨ reason = .off := by
  cases reason with
  | closed => exact .inl rfl
  | gone => exact .inr (.inl rfl)
  | off => exact .inr (.inr rfl)
  | protocol detail => cases fair

namespace Party

/-- The aborts of a connection that asked for the turn, in the order in which they did. -/
def asks (p : Party) (id : ConnId) : List Reason :=
  p.asked.filterMap (·.abort? id)

/-- An abort on its way that has asked for the turn, ahead of all other aborts of its connection. -/
structure Leads (p : Party) (id : ConnId) (reason : Reason) (i : Nat) (stage : Outgoing.Stage) :
    Prop where
  job : p.job? i = some ⟨.abort id reason, stage⟩
  asked : stage ≠ .fresh
  ahead : ∀ {j reason' stage'}, j ≠ i → p.job? j = some ⟨.abort id reason', stage'⟩ →
    stage.Ahead stage'

/-- How far the aborts of a connection have come: none has asked for the turn, or the first that did
was the first to go out, or will be unless the stream takes no more chunks. -/
inductive Heads (p : Party) (id : ConnId) : Prop
  | silent (asks : p.asks id = []) (sent : aborts id p.sent = [])
    (fresh : ∀ {i reason stage}, p.job? i = some ⟨.abort id reason, stage⟩ → stage = .fresh)
  | said {reason : Reason} (asks : (p.asks id).head? = some reason)
    (sent : (aborts id p.sent).head? = some reason)
  | leads {reason : Reason} {i : Nat} {stage : Outgoing.Stage} (asks : (p.asks id).head? = some reason)
    (sent : aborts id p.sent = []) (lead : p.Leads id reason i stage)
  | lost {reason : Reason} (asks : (p.asks id).head? = some reason) (sent : aborts id p.sent = [])
    (isDown : down p.stream = true)

/-- The first abort of each connection to ask for the turn is the first that the peer is told of. -/
structure Precedes (p : Party) : Prop where
  polite : ∀ {id reason}, reason ∈ p.asks id → reason.accuses = false
  heads : ∀ id, p.Heads id
  roomy : Config.minFrameLength ≤ p.stream.config.maxFrameLen

variable {p p' q : Party} {i j : Nat} {o : Outgoing} {id : ConnId} {stage : Outgoing.Stage}
  {reason : Reason}

theorem asks_congr (asked : p'.asked = p.asked) (id : ConnId) : p'.asks id = p.asks id := by
  rw [asks, asked, asks]

theorem asks_concat {m : Message} (asked : p'.asked = p.asked ++ [m]) (id : ConnId) :
    p'.asks id = p.asks id ++ (m.abort? id).toList := by
  unfold asks
  rw [asked, List.filterMap_append]
  cases h : m.abort? id <;> simp [h]

/-! ## A stream that takes no more chunks -/

theorem down_eq_false_of_write? {s s' : Stream.Endpoint} {bytes : Bytes}
    (written : s.write? bytes = some (s', .ok ())) : down s = false ∧ s'.config = s.config := by
  obtain ⟨-, e, same⟩ | ⟨-, buffer, n, answer, rfl⟩ := Stream.Endpoint.write?_cases written
  · cases same
  · obtain ⟨-, aborted, closed, -⟩ := Stream.Buffer.write?_eq_ok.mp answer
    refine ⟨?_, rfl⟩
    rw [down, aborted, closed]
    rfl

/-- Only such a stream refuses a chunk that is not too long. -/
theorem down_of_write? {s s' : Stream.Endpoint} {bytes : Bytes} {e : Stream.Error}
    (refused : s.write? bytes = some (s', .error e)) (some' : bytes ≠ [])
    (short : bytes.length ≤ s.maxChunkLength) : down s = true := by
  unfold Stream.Endpoint.write? at refused
  rw [if_neg (Nat.not_lt.mpr short)] at refused
  obtain ⟨⟨buffer, r⟩, answer, same⟩ := Option.map_eq_some_iff.mp refused
  unfold Stream.Buffer.write? at answer
  rw [if_neg some'] at answer
  unfold down
  cases aborted : s.buffer.aborted with
  | some e => exact Bool.or_true _
  | none =>
    cases closed : s.buffer.closed with
    | true => rfl
    | false =>
      cases room : s.buffer.hasRoom <;>
        simp only [aborted, closed, room, Bool.false_eq_true, if_true, if_false] at answer <;>
        cases answer
      cases same

/-- An abort that accuses no one is refused only by such a stream. -/
theorem down_of_refused (sound : p.Sound) (alive : p.state.ended = none)
    (roomy : Config.minFrameLength ≤ p.stream.config.maxFrameLen) (fair : reason.accuses = false)
    (known : p.job? i = some ⟨.abort id reason, stage⟩)
    (why : (⟨.abort id reason, stage⟩ : Outgoing).Refused p.state p.stream) :
    down p.stream = true := by
  obtain may | ended | ⟨t, packed, rfl, refused⟩ := why
  · exact absurd rfl may
  · exact absurd alive ended
  · obtain ⟨e, next, rfl⟩ := sound.numbered.carries known
    cases next
    obtain ⟨bytes, packed, some', short⟩ :=
      Envelope.exists_packed_bare id (Reason.bare_of_accuses fair)
    obtain ⟨stream', e, refused⟩ := refused bytes packed
    refine down_of_write? refused some' (Nat.le_trans short ?_)
    have least : 64 ≤ p.stream.config.maxFrameLen := roomy
    have header : Stream.Frame.maxHeaderLength = 11 := rfl
    unfold Stream.Endpoint.maxChunkLength
    omega

/-! ## Who leads -/

namespace Leads

theorem of_set (h : p.Leads id reason j stage) (other : i ≠ j) {o' : Option Outgoing}
    (behind : ∀ reason' stage', o' = some ⟨.abort id reason', stage'⟩ → stage.Ahead stage')
    (jobs : ∀ l, p'.job? l = if i = l then o' else p.job? l) : p'.Leads id reason j stage := by
  refine ⟨(jobs j).trans ((if_neg other).trans h.job), h.asked, fun {l _ _} apart known => ?_⟩
  rw [jobs] at known
  split at known
  · exact behind _ _ known
  · exact h.ahead apart known

/-- The leader gets the turn, and stays ahead of all that it was ahead of. -/
theorem advance (h : p.Leads id reason i stage) {t : Nat} {packed : Except Wire.Error Bytes}
    (jobs : ∀ l, p'.job? l = if i = l then some ⟨.abort id reason, .sending t packed⟩ else p.job? l) :
    p'.Leads id reason i (.sending t packed) := by
  refine ⟨(jobs i).trans (if_pos rfl), nofun, fun {l _ s} apart known => ?_⟩
  rw [jobs, if_neg (Ne.symm apart)] at known
  have ahead := h.ahead apart known
  cases s with
  | fresh | waiting => trivial
  | sending => cases stage <;> exact ahead.elim

/-- The aborts of a connection that are on their way are as before. -/
theorem congr (h : p.Leads id reason i stage)
    (jobs : ∀ {j reason' stage'}, p'.job? j = some ⟨.abort id reason', stage'⟩ ↔
      p.job? j = some ⟨.abort id reason', stage'⟩) : p'.Leads id reason i stage :=
  ⟨jobs.mpr h.job, h.asked, fun apart known => h.ahead apart (jobs.mp known)⟩

theorem send (h : p.Leads id reason i stage) (m : Message) : (p.send m).Leads id reason i stage := by
  refine ⟨job?_send_of_job? h.job m, h.asked, fun apart known => ?_⟩
  rw [job?_send] at known
  split at known
  · cases known
    exact Outgoing.Stage.ahead_fresh h.asked
  · exact h.ahead apart known

/-- A message asks for the turn behind the leader. -/
theorem enqueued (h : p.Leads id reason j stage) (queued : p.Queued) (known : p.job? i = some o)
    (fresh : o.stage = .fresh) (jobs : ∀ l, p'.job? l =
      if i = l then some ⟨o.message, .waiting p.state.nextTicket⟩ else p.job? l) :
    p'.Leads id reason j stage := by
  have other : i ≠ j := fun same => by
    cases h.job.symm.trans (same ▸ known)
    exact h.asked fresh
  obtain ⟨m, s⟩ := o
  refine h.of_set other (fun _ _ eq => ?_) jobs
  cases eq
  cases stage with
  | fresh => exact absurd rfl h.asked
  | waiting t => exact queued.below h.job rfl
  | sending => trivial

/-- Only the leader, of the aborts of its connection, gets the turn. -/
theorem acquired (h : p.Leads id reason j stage) (queued : p.Queued) (known : p.job? i = some o)
    {t : Nat} {turn : Turn} (waits : o.stage = .waiting t)
    (free : p.state.turn.acquire? t = some turn) {packed : Except Wire.Error Bytes}
    (jobs : ∀ l, p'.job? l = if i = l then some ⟨o.message, .sending t packed⟩ else p.job? l) :
    ∃ stage, p'.Leads id reason j stage := by
  obtain ⟨m, s⟩ := o
  cases waits
  obtain ⟨rest, line, -⟩ := Turn.acquire?_eq_some.mp free
  by_cases same : i = j
  · subst same
    cases h.job.symm.trans known
    exact ⟨_, h.advance jobs⟩
  · refine ⟨stage, h.of_set same (fun reason' stage' eq => ?_) jobs⟩
    cases eq
    have ahead := h.ahead same known
    cases stage with
    | fresh => exact ahead.elim
    | waiting t' =>
      -- The first in line has the lowest ticket of all that wait.
      have inLine := queued.waits h.job
      have sorted := queued.sorted
      rw [line] at inLine sorted
      have ahead : t' < t := ahead
      rcases List.mem_cons.mp inLine with rfl | later
      · exact absurd ahead (Nat.lt_irrefl _)
      · exact absurd ((List.pairwise_cons.mp sorted).1 t' later) (Nat.lt_asymm ahead)
    | sending => exact absurd h.job (queued.not_sending (by rw [line]))

end Leads

namespace Heads

/-- The aborts of the connection are as before. -/
theorem congr (h : p.Heads id) (asks : p'.asks id = p.asks id)
    (sent : aborts id p'.sent = aborts id p.sent)
    (stream : down p.stream = true → down p'.stream = true)
    (jobs : ∀ {j reason stage}, p'.job? j = some ⟨.abort id reason, stage⟩ ↔
      p.job? j = some ⟨.abort id reason, stage⟩) : p'.Heads id := by
  cases h with
  | silent asks' sent' fresh =>
    exact .silent (asks.trans asks') (sent.trans sent') fun known => fresh (jobs.mp known)
  | said asks' sent' => exact .said (asks ▸ asks') (sent ▸ sent')
  | leads asks' sent' lead => exact .leads (asks ▸ asks') (sent.trans sent') (lead.congr jobs)
  | lost asks' sent' isDown => exact .lost (asks ▸ asks') (sent.trans sent') (stream isDown)

theorem send (h : p.Heads id) (m : Message) : (p.send m).Heads id := by
  cases h with
  | silent asks sent fresh =>
    refine .silent asks sent fun known => ?_
    rw [job?_send] at known
    split at known
    · cases known
      rfl
    · exact fresh known
  | said asks sent => exact .said asks sent
  | leads asks sent lead => exact .leads asks sent (lead.send m)
  | lost asks sent isDown => exact .lost asks sent isDown

section Settle

variable {outcome : Outgoing.Outcome} {m : Message} {t : Nat}

/-- A message asks for the turn. If it is the first abort of its connection to do so, it leads. -/
theorem enqueued (h : p.Heads id) (queued : p.Queued) (known : p.job? i = some ⟨m, .fresh⟩)
    (jobs : ∀ l, p'.job? l = if i = l then some ⟨m, .waiting p.state.nextTicket⟩ else p.job? l)
    (asked : p'.asked = p.asked ++ [m]) (sent : p'.sent = p.sent) (stream : p'.stream = p.stream) :
    p'.Heads id := by
  have asks := asks_concat asked id
  have head {reason : Reason} (first : (p.asks id).head? = some reason) :
      (p'.asks id).head? = some reason := by rw [asks, List.head?_append, first]; rfl
  cases h with
  | silent asks' sent' fresh =>
    rw [asks', List.nil_append] at asks
    cases told : m.abort? id with
    | none =>
      refine .silent (by rw [asks, told]; rfl) (sent ▸ sent') fun known' => ?_
      rw [jobs] at known'
      split at known'
      · cases known'
        simp [Message.abort?] at told
      · exact fresh known'
    | some reason =>
      cases Message.eq_of_abort? told
      refine .leads (by rw [asks, told]; rfl) (sent ▸ sent')
        ⟨(jobs i).trans (if_pos rfl), nofun, fun apart known' => ?_⟩
      rw [jobs, if_neg (Ne.symm apart)] at known'
      cases fresh known'
      trivial
  | said asks' sent' => exact .said (head asks') (sent ▸ sent')
  | leads asks' sent' lead => exact .leads (head asks') (sent ▸ sent') (lead.enqueued queued known rfl jobs)
  | lost asks' sent' isDown => exact .lost (head asks') (sent ▸ sent') (stream ▸ isDown)

/-- A message gets the turn. -/
theorem acquired (h : p.Heads id) (queued : p.Queued) (known : p.job? i = some ⟨m, .waiting t⟩)
    {turn : Turn} (free : p.state.turn.acquire? t = some turn) {packed : Except Wire.Error Bytes}
    (jobs : ∀ l, p'.job? l = if i = l then some ⟨m, .sending t packed⟩ else p.job? l)
    (asked : p'.asked = p.asked) (sent : p'.sent = p.sent) (stream : p'.stream = p.stream) :
    p'.Heads id := by
  have asks := asks_congr asked id
  cases h with
  | silent asks' sent' fresh =>
    refine .silent (asks.trans asks') (sent ▸ sent') fun known' => ?_
    rw [jobs] at known'
    split at known'
    · cases known'
      cases fresh known
    · exact fresh known'
  | said asks' sent' => exact .said (asks ▸ asks') (sent ▸ sent')
  | leads asks' sent' lead =>
    obtain ⟨stage, lead⟩ := lead.acquired queued known rfl free jobs
    exact .leads (asks ▸ asks') (sent ▸ sent') lead
  | lost asks' sent' isDown => exact .lost (asks ▸ asks') (sent ▸ sent') (stream ▸ isDown)

/-- The stream takes a message. No other abort of the connection goes out before the leader. -/
theorem taken (h : p.Heads id) (sound : p.Sound) {bytes : Bytes} {stream : Stream.Endpoint}
    (known : p.job? i = some ⟨m, .sending t (.ok bytes)⟩)
    (room : p.stream.write? bytes = some (stream, .ok ())) :
    (p.settle i ⟨m, .sending t (.ok bytes)⟩ (p.state.leave t, stream, .settled (.ok ()))).Heads id := by
  obtain ⟨e, next, packed⟩ := sound.numbered.carries known
  have read := Envelope.unpacked_of_packed packed.symm
  have jobs := job?_setJob known none
  have said : aborts id (p.sent ++ [bytes]) = aborts id p.sent ++ (m.abort? id).toList := by
    rw [aborts_concat id read, abort?_of_envelope? next]
  cases h with
  | silent asks sent fresh =>
    have other : m.abort? id = none := by
      cases told : m.abort? id with
      | none => rfl
      | some reason =>
        cases Message.eq_of_abort? told
        cases fresh known
    refine .silent asks (said.trans (by rw [sent, other]; rfl)) fun known' => ?_
    replace known' := (jobs _).symm.trans known'
    split at known'
    · cases known'
    · exact fresh known'
  | said asks sent => exact .said asks ((congrArg _ said).trans (by rw [List.head?_append, sent]; rfl))
  | @leads reason j stage asks sent lead =>
    rw [sent, List.nil_append] at said
    by_cases same : i = j
    · subst same
      cases lead.job.symm.trans known
      exact .said asks ((congrArg _ said).trans (by simp [Message.abort?]))
    · cases told : m.abort? id with
      | none =>
        exact .leads asks (said.trans (by rw [told]; rfl)) (lead.of_set same (by nofun) jobs)
      | some reason =>
        cases Message.eq_of_abort? told
        have ahead := lead.ahead same known
        cases stage <;> exact ahead.elim
  | lost asks sent isDown => cases (down_eq_false_of_write? room).1.symm.trans isDown

/-- A message is refused. If it leads, the stream takes no more chunks. -/
theorem refused (h : p.Heads id) (known : p.job? i = some o)
    (isDown : ∀ reason, reason ∈ p.asks id → o.message = .abort id reason → down p.stream = true) :
    (p.giveUp i o).Heads id := by
  have jobs (l : Nat) : (p.giveUp i o).job? l = if i = l then none else p.job? l :=
    job?_setJob known none l
  cases h with
  | silent asks sent fresh =>
    refine .silent asks sent fun known' => ?_
    rw [jobs] at known'
    split at known'
    · cases known'
    · exact fresh known'
  | said asks sent => exact .said asks sent
  | @leads reason j stage asks sent lead =>
    by_cases same : i = j
    · subst same
      cases lead.job.symm.trans known
      exact .lost asks sent (isDown reason (List.mem_of_head? asks) rfl)
    · exact .leads asks sent (lead.of_set same (by nofun) jobs)
  | lost asks sent isDown => exact .lost asks sent isDown

theorem settle (h : p.Heads id) (sound : p.Sound) (alive : p.state.ended = none)
    (roomy : Config.minFrameLength ≤ p.stream.config.maxFrameLen)
    (polite : ∀ reason ∈ p.asks id, reason.accuses = false) (known : p.job? i = some o)
    (moved : o.Moved p.state p.stream outcome) : (p.settle i o outcome).Heads id := by
  have jobs := job?_setJob known
  obtain ⟨m, s⟩ := o
  cases moved with
  | enqueued fresh _ _ =>
    cases fresh
    exact h.enqueued sound.queued known (jobs _) rfl rfl rfl
  | acquired waits free _ _ =>
    cases waits
    exact h.acquired sound.queued known free (jobs _) (List.append_nil _) rfl rfl
  | taken sends _ room =>
    cases sends
    exact h.taken sound known room
  | failed why =>
    refine h.refused known fun reason mem same => ?_
    cases same
    exact down_of_refused sound alive roomy (polite reason mem) known why

end Settle

end Heads

namespace Precedes

theorem congr (h : p.Precedes) (asked : p'.asked = p.asked) (heads : ∀ id, p.Heads id → p'.Heads id)
    (config : p'.stream.config = p.stream.config) : p'.Precedes := by
  refine ⟨fun {id reason} mem => ?_, fun id => heads id (h.heads id), config ▸ h.roomy⟩
  rw [asks_congr asked] at mem
  exact h.polite mem

/-- No message sets out and none goes on. -/
theorem of_jobs (h : p.Precedes) (jobs : p'.jobs = p.jobs) (sent : p'.sent = p.sent)
    (asked : p'.asked = p.asked) (stream : p'.stream = p.stream) : p'.Precedes := by
  have job (i : Nat) : p'.job? i = p.job? i := by rw [job?, jobs, job?]
  refine h.congr asked (fun id heads => heads.congr (asks_congr asked id) (by rw [sent]) ?_ ?_)
    (congrArg _ stream)
  · rw [stream]
    exact fun isDown => isDown
  · simp only [job, implies_true]

theorem send (h : p.Precedes) (m : Message) : (p.send m).Precedes :=
  h.congr rfl (fun _ heads => heads.send m) rfl

theorem flow (h : p.Precedes) (stream : Stream.Endpoint) : (p.flow stream).Precedes := by
  unfold Party.flow
  split
  · next may =>
    obtain ⟨config, stays⟩ := (Bool.and_eq_true _ _).mp may
    refine h.congr rfl (fun _ heads => heads.congr rfl rfl (fun isDown => ?_) Iff.rfl)
      (of_decide_eq_true config)
    rw [isDown] at stays
    exact stays
  · exact h

theorem cancel (h : p.Precedes) (i : Nat) : (p.cancel i).Precedes := by
  obtain same | ⟨o, known, ⟨k, data, payload⟩, given⟩ := p.cancel_cases i
  · rwa [same]
  · rw [given]
    refine h.congr rfl (fun id heads => heads.refused known fun _ _ abort => ?_) rfl
    cases payload.symm.trans abort

theorem move (h : p.Precedes) (sound : p.Sound) (fair : p.Fair) (alive : p.state.ended = none) :
    (p.move i).Precedes := by
  obtain same | ⟨o, outcome, known, moved, stepped⟩ := p.move_cases i
  · rwa [same]
  rw [stepped]
  have heads (id : ConnId) : (p.settle i o outcome).Heads id :=
    (h.heads id).settle sound alive h.roomy (fun _ => h.polite) known moved
  obtain ⟨m, s⟩ := o
  cases moved with
  | enqueued fresh _ _ =>
    cases fresh
    refine ⟨fun {id reason} mem => ?_, heads, h.roomy⟩
    rw [asks_concat rfl] at mem
    rcases List.mem_append.mp mem with mem | mem
    · exact h.polite mem
    · cases Message.eq_of_abort? (Option.mem_toList.mp mem)
      exact fair.jobs known
  | acquired waits _ _ _ =>
    cases waits
    refine ⟨fun {id reason} mem => ?_, heads, h.roomy⟩
    rw [asks_congr (List.append_nil p.asked)] at mem
    exact h.polite mem
  | taken _ _ room => exact ⟨h.polite, heads, (down_eq_false_of_write? room).2 ▸ h.roomy⟩
  | failed _ => exact ⟨h.polite, heads, h.roomy⟩

theorem read (h : p.Precedes) (k : ConnKey) : (p.read k).Precedes := by
  unfold Party.read
  split
  · exact h.of_jobs rfl rfl rfl rfl
  · exact h

theorem finish (h : p.Precedes) (k : ConnKey) : (p.finish k).Precedes := by
  obtain ⟨-, same⟩ | ⟨-, id, -, same⟩ := p.finish_cases k <;> rw [same]
  · exact h
  · exact h.of_jobs rfl rfl rfl rfl

theorem forget (h : p.Precedes) (id : ConnId) : (p.forget id).Precedes := by
  obtain same | ⟨-, ⟨-, same⟩ | ⟨-, same⟩⟩ := p.forget_cases id <;> rw [same]
  · exact h
  · exact h.of_jobs rfl rfl rfl rfl
  · exact h.of_jobs rfl rfl rfl rfl

theorem announce (h : p.Precedes) (id : ConnId) : (p.announce id).Precedes := by
  obtain same | ⟨-, same⟩ := p.announce_cases id <;> rw [same]
  · exact h
  · have erased : Party.Precedes { p with owing := p.owing.erase id } := h.of_jobs rfl rfl rfl rfl
    exact erased.send _

theorem dials (h : p.Precedes) : p.dials.Precedes :=
  h.of_jobs rfl rfl rfl rfl

theorem hear (h : p.Precedes) {e : Envelope} (heard : p.Heard e p') : p'.Precedes := by
  cases heard with
  | ignored | aborted | delivered | opened => exact h.of_jobs rfl rfl rfl rfl
  | @refused seq data reason accepting alive unknown content gone =>
    have passed : Party.Precedes { p with heard := p.heard + 1
                                          state := { p.state with accepting } } :=
      h.of_jobs rfl rfl rfl rfl
    exact passed.send _

end Precedes

end Party

end Tether.Session
