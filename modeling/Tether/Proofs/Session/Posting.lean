import Tether.Proofs.Session.Lateness
import Tether.Proofs.Session.Lone

/-!
# What writes put in the buffer

The steps of the messages of a session, as they show at the buffer of the stream and in the answers of
the writes. A payload takes its number with the turn and gives it back on every way out but one, on
which the buffer takes it and the write answers success. So the payloads of a connection enter the
buffer under the numbers from zero upwards, each for one write that answers success, whatever becomes
of the other writes: a write may be cancelled, find no room, be too large, or come too late.

Nothing here depends on the names of the connections, so the law holds even where a name is used again.
-/

namespace Tether.Session

/-- The payload that a message writes to the given connection. -/
def Message.data? (k : ConnKey) : Message → Option Bytes
  | .payload l data => if l = k then some data else none
  | .abort _ _ => none

theorem Message.eq_of_data? {k : ConnKey} {m : Message} {data : Bytes} (writes : m.data? k = some data) :
    m = .payload k data := by
  cases m with
  | abort id reason => cases writes
  | payload l data' =>
    obtain ⟨rfl, same⟩ := Option.ite_none_right_eq_some.mp writes
    cases same
    rfl

/-- What a message is answered, if it is settled. -/
def Outgoing.Progress.answer? : Progress → Option (Except Error Unit)
  | .goOn _ => none
  | .settled r => some r

/-- The message as it goes on, if it does. -/
def Outgoing.Progress.goesOn? : Progress → Option Outgoing
  | .goOn o => some o
  | .settled _ => none

/-- A step of a message. -/
structure Deed where
  /-- Which of the messages that set out took the step. -/
  job : Nat
  message : Message
  /-- What the step put in the buffer of the stream. -/
  put : List Bytes
  /-- What the message was answered, if the step settled it. -/
  answer : Option (Except Error Unit)

/-- The payload for the given connection whose write answers success by a step. -/
def Deed.wrote? (k : ConnKey) (d : Deed) : Option Bytes :=
  match d.answer with
  | some (.ok ()) => d.message.data? k
  | some (.error _) | none => none

/-- What the payloads of a connection put in the buffer. -/
def posted (k : ConnKey) (deeds : List Deed) : List Bytes :=
  (deeds.filter fun d => (d.message.data? k).isSome).flatMap Deed.put

/-- The payloads of a connection whose writes answered success, in that order. -/
def succeeded (k : ConnKey) (deeds : List Deed) : List Bytes :=
  deeds.filterMap (Deed.wrote? k)

/-- What all the steps of one message put in the buffer. -/
def putBy (i : Nat) (deeds : List Deed) : List Bytes :=
  (deeds.filter (·.job = i)).flatMap Deed.put

/-- What one message was answered. -/
def answersTo (i : Nat) (deeds : List Deed) : List (Except Error Unit) :=
  (deeds.filter (·.job = i)).filterMap Deed.answer

/-- How a message can fare: what it put in the buffer, and what it was answered. -/
inductive Fared : List Bytes → List (Except Error Unit) → Prop
  /-- It is still on its way, or was cancelled. -/
  | unsettled : Fared [] []
  | refused (e : Error) : Fared [] [.error e]
  | taken (bytes : Bytes) : Fared [bytes] [.ok ()]

namespace Party

/-- What an act puts in the buffer of the stream. -/
def puts (p p' : Party) : List Bytes :=
  p'.stream.buffer.units.drop p.stream.buffer.units.length

/-- The step of a message that an act is. -/
def deed? (p : Party) : Act → Option Deed
  | .move i => (p.job? i).bind fun o => (o.step? p.state p.stream).map fun (_, _, progress) =>
      ⟨i, o.message, p.puts (p.move i), progress.answer?⟩
  | _ => none

/-- The steps of messages in a run. -/
def deeds : Party → List Act → List Deed
  | _, [] => []
  | p, act :: acts => (p.deed? act).toList ++ deeds (p.step act) acts

end Party

/-! ## What is appended -/

variable {k : ConnKey} {ds : List Deed} {d : Deed}

theorem posted_concat (k : ConnKey) (ds : List Deed) (d : Deed) : posted k (ds ++ [d]) =
    posted k ds ++ if (d.message.data? k).isSome then d.put else [] := by
  unfold posted
  rw [List.filter_append, List.flatMap_append]
  by_cases writes : (d.message.data? k).isSome <;> simp [writes]

theorem posted_idle (k : ConnKey) (ds : List Deed) (idle : d.put = []) :
    posted k (ds ++ [d]) = posted k ds := by
  rw [posted_concat, idle, ite_self, List.append_nil]

theorem succeeded_concat (k : ConnKey) (ds : List Deed) (d : Deed) :
    succeeded k (ds ++ [d]) = succeeded k ds ++ (d.wrote? k).toList := by
  unfold succeeded
  rw [List.filterMap_append]
  cases wrote : d.wrote? k <;> simp [wrote]

theorem succeeded_idle (k : ConnKey) (ds : List Deed) (idle : d.answer ≠ some (.ok ())) :
    succeeded k (ds ++ [d]) = succeeded k ds := by
  have none' : d.wrote? k = none := by
    unfold Deed.wrote?
    split
    · next same => exact absurd same idle
    · rfl
    · rfl
  rw [succeeded_concat, none']
  exact List.append_nil _

theorem putBy_concat (i : Nat) (ds : List Deed) (d : Deed) :
    putBy i (ds ++ [d]) = putBy i ds ++ if d.job = i then d.put else [] := by
  unfold putBy
  rw [List.filter_append, List.flatMap_append]
  by_cases here : d.job = i <;> simp [here]

theorem answersTo_concat (i : Nat) (ds : List Deed) (d : Deed) :
    answersTo i (ds ++ [d]) = answersTo i ds ++ if d.job = i then d.answer.toList else [] := by
  unfold answersTo
  rw [List.filter_append, List.filterMap_append]
  by_cases here : d.job = i
  · cases answer : d.answer <;> simp [here, answer]
  · simp [here]

/-- A message that took no step did nothing. -/
theorem unsettled_of_no_step {i : Nat} (none' : ∀ d ∈ ds, d.job ≠ i) :
    putBy i ds = [] ∧ answersTo i ds = [] := by
  have filtered : ds.filter (·.job = i) = [] :=
    List.filter_eq_nil_iff.mpr fun d mem => by simpa using none' d mem
  rw [putBy, answersTo, filtered]
  exact ⟨rfl, rfl⟩

namespace State

variable {s s' s'' : State}

/-! ## Acts that touch no message -/

theorem SameSending.enlarges (same : s.SameSending s') : s.Enlarges s' := by
  refine ⟨fun known => (same.ids _).trans known, fun _ => same.next _, fun {k n} absent known => ?_,
    same.turn, same.nextTicket⟩
  rw [same.next, next?, Option.map_eq_none_iff.mp absent] at known
  cases known

theorem Enlarges.refl (s : State) : s.Enlarges s :=
  (SameSending.refl s).enlarges

theorem Enlarges.trans (h : s.Enlarges s') (h' : s'.Enlarges s'') : s.Enlarges s'' := by
  refine ⟨fun known => h'.ids (h.ids known), fun {k} known => ?_, fun {k n} absent next => ?_,
    h'.turn.trans h.turn, h'.nextTicket.trans h.nextTicket⟩
  · obtain ⟨id, named⟩ := Option.ne_none_iff_exists'.mp known
    rw [h'.next (h.ids named ▸ nofun), h.next known]
  · cases named : s'.id? k with
    | none => exact h'.new named next
    | some id =>
      rw [h'.next (named ▸ nofun)] at next
      exact h.new absent next

theorem enlarges_register (s : State) (id : ConnId) : s.Enlarges (s.register id).1 := by
  have older {k : ConnKey} (known : s.id? k ≠ none) :
      (s.register id).1.conns[k]? = s.conns[k]? := by
    obtain ⟨id', named⟩ := Option.ne_none_iff_exists'.mp known
    exact Array.getElem?_push.trans (if_neg (ne_size named))
  refine ⟨fun {k id'} known => ?_, fun {k} known => ?_, fun {k n} absent next => ?_, rfl, rfl⟩
  · rw [id?, older (known ▸ Option.some_ne_none _)]
    exact known
  · rw [next?, older known, next?]
  · have absent : s.conns[k]? = none := Option.map_eq_none_iff.mp absent
    have pushed : (s.register id).1.conns[k]? = if k = s.conns.size then some _ else s.conns[k]? :=
      Array.getElem?_push
    rw [next?, pushed, absent] at next
    split at next
    · cases next
      rfl
    · cases next

theorem enlarges_abort (s : State) (id : ConnId) (reason : Reason) :
    s.Enlarges (s.abort id reason) := by
  unfold abort
  split
  · exact .refl s
  · next a _ =>
    have same : s.SameSending (s.retire a (aborting reason)) :=
      sameSending_retire (fun _ => rfl) fun _ => rfl
    exact ⟨same.enlarges.ids, same.enlarges.next, same.enlarges.new, rfl, rfl⟩

theorem enlarges_modifyConn (s : State) (k : ConnKey) {f : Conn → Conn} (ids : ∀ c, (f c).id = c.id)
    (next : ∀ c, (f c).nextWrite = c.nextWrite) : s.Enlarges (s.modifyConn k f) :=
  (sameSending_modifyConn ids next).enlarges

theorem enlarges_close (s : State) (k : ConnKey) : s.Enlarges (s.close k).1 := by
  have finish : s.Enlarges (s.modifyConn k (·.finish .closed)) :=
    s.enlarges_modifyConn k (fun _ => rfl) fun _ => rfl
  obtain ⟨-, same⟩ | ⟨-, id, -, ⟨-, same⟩ | ⟨-, same⟩⟩ := s.close_outcomes k <;> rw [same]
  · exact .refl s
  · exact finish
  · exact ⟨finish.ids, finish.next, finish.new, rfl, rfl⟩

theorem enlarges_hand (s : State) (k : ConnKey) (i : Inbound) :
    s.Enlarges (s.modifyConn k (·.hand i)) :=
  s.enlarges_modifyConn k (fun _ => rfl) fun _ => rfl

theorem Routed.enlarges (h : s.Routed s') : s.Enlarges s' := by
  cases h with
  | kept => exact .refl s
  | aborted id reason => exact s.enlarges_abort id reason
  | counted a data =>
    have handed := s.enlarges_hand a.conn (.payload data)
    exact ⟨handed.ids, handed.next, handed.new, rfl, rfl⟩
  | deafened =>
    have same := Enlarges.refl s
    exact ⟨same.ids, same.next, same.new, rfl, rfl⟩
  | welcomed id data accepted =>
    have handed := (s.register id).1.enlarges_hand s.conns.size (.payload data)
    have opened := (s.enlarges_register id).trans handed
    exact ⟨opened.ids, opened.next, opened.new, rfl, rfl⟩

theorem enlarges_dial (s : State) : s.Enlarges s.dial.1 := by
  unfold dial
  split
  · exact .refl s
  · have registered := enlarges_register { s with nextId := s.nextId + 1 } ⟨s.nextId⟩
    exact ⟨registered.ids, registered.next, registered.new, rfl, rfl⟩

end State

namespace Party

variable {p p' : Party} {act : Act} {acts : List Act} {i : Nat} {o : Outgoing}
  {outcome : Outgoing.Outcome} {data : Bytes} {k : ConnKey} {ds : List Deed} {d : Deed}

/-- No message takes a step. Some may set out, and connections may be added. -/
structure Bides (p p' : Party) : Prop where
  state : p.state.Enlarges p'.state
  jobs : ∃ more : List Message, p'.jobs = p.jobs ++ more.map fun m => some ⟨m, .fresh⟩
  wrote : p'.wrote = p.wrote

namespace Bides

theorem of_jobs (state : p.state.Enlarges p'.state) (jobs : p'.jobs = p.jobs)
    (wrote : p'.wrote = p.wrote) : p.Bides p' :=
  ⟨state, ⟨[], by rw [jobs, List.map_nil, List.append_nil]⟩, wrote⟩

theorem refl (p : Party) : p.Bides p :=
  of_jobs (.refl _) rfl rfl

theorem of_send {m : Message} (state : p.state.Enlarges p'.state)
    (jobs : p'.jobs = p.jobs ++ [some ⟨m, .fresh⟩]) (wrote : p'.wrote = p.wrote) : p.Bides p' :=
  ⟨state, ⟨[m], jobs⟩, wrote⟩

/-- A message is where it was, or has just set out. -/
theorem job?_cases (h : p.Bides p') (known : p'.job? i = some o) :
    p.job? i = some o ∨ p.jobs.length ≤ i ∧ o.stage = .fresh := by
  obtain ⟨more, jobs⟩ := h.jobs
  unfold job? at known ⊢
  rw [jobs] at known
  rcases Nat.lt_or_ge i p.jobs.length with before | after
  · rw [List.getElem?_append_left before] at known
    exact .inl known
  · rw [List.getElem?_append_right after, List.getElem?_map] at known
    obtain ⟨m, -, same⟩ := Option.map_eq_some_iff.mp (Option.join_eq_some_iff.mp known)
    cases same
    exact .inr ⟨after, rfl⟩

theorem job? (h : p.Bides p') (known : p.job? i = some o) : p'.job? i = some o := by
  obtain ⟨more, jobs⟩ := h.jobs
  unfold Party.job? at known ⊢
  rw [jobs, List.getElem?_append_left (lt_of_job? known)]
  exact known

theorem length_le (h : p.Bides p') : p.jobs.length ≤ p'.jobs.length := by
  obtain ⟨more, jobs⟩ := h.jobs
  rw [jobs, List.length_append]
  exact Nat.le_add_right _ _

theorem sameSending (h : p.Bides p') : p.SameSending p' := by
  intro i m t packed
  refine ⟨fun known => ?_, h.job?⟩
  obtain before | ⟨-, fresh⟩ := h.job?_cases known
  · exact before
  · cases fresh

theorem dial (p : Party) : p.Bides p.dial := by
  unfold Party.dial
  split
  · exact of_jobs p.state.enlarges_dial rfl rfl
  · exact .refl p

theorem accept (p : Party) : p.Bides p.accept := by
  obtain same | ⟨k, rest, -, same⟩ := p.accept_cases
  · rw [same]
    exact refl p
  · rw [same]
    have kept := State.Enlarges.refl p.state
    exact of_jobs ⟨kept.ids, kept.next, kept.new, rfl, rfl⟩ rfl rfl

theorem read (p : Party) (k : ConnKey) : p.Bides (p.read k) := by
  unfold Party.read
  split
  · next given => exact of_jobs (State.sameSending_read given).enlarges rfl rfl
  · exact .refl p

theorem close (p : Party) (k : ConnKey) : p.Bides (p.close k) := by
  have larger := p.state.enlarges_close k
  unfold Party.close
  split
  · next closed =>
    rw [closed] at larger
    exact of_jobs larger rfl rfl
  · next closed =>
    rw [closed] at larger
    exact of_send larger rfl rfl

theorem shut (p : Party) : p.Bides p.shut :=
  of_jobs (State.sameSending_teardown _ p.state).enlarges rfl rfl

theorem take (p : Party) (r : Except Stream.Error (Option Bytes)) : p.Bides (p.take r) := by
  have broken (cause : Codec.Error) : p.state.Enlarges (p.state.teardown cause).1 :=
    (State.sameSending_teardown cause p.state).enlarges
  unfold Party.take State.intake
  cases Codec.ofRead Envelope.unpacked r with
  | error cause => exact of_jobs (broken cause) rfl rfl
  | ok e =>
    cases e with
    | none => exact of_jobs (broken _) rfl rfl
    | some e =>
      have larger := (p.state.routed_dispatch e).enlarges
      dsimp only
      generalize p.state.dispatch e = outcome at larger ⊢
      obtain ⟨state, reason⟩ := outcome
      cases reason with
      | none => exact of_jobs larger rfl rfl
      | some reason => exact of_send larger rfl rfl

theorem flow (p : Party) (stream : Stream.Endpoint) : p.Bides (p.flow stream) := by
  obtain ⟨stream', same⟩ := p.flow_eq stream
  rw [same]
  exact of_jobs (.refl _) rfl rfl

end Bides

/-! ## What an act does to the messages -/

/-- What an act can do to the messages, and the step of one that it is. -/
inductive Did (p : Party) : Act → Option Deed → Party → Prop
  | bides {act : Act} {p' : Party} (bides : p.Bides p')
    (own : p'.stream = p.stream ∨ ∃ stream, act = .flow stream) : Did p act none p'
  | givenUp {i : Nat} {o : Outgoing} (known : p.job? i = some o) :
    Did p (.cancel i) none (p.giveUp i o)
  | moved {i : Nat} {o : Outgoing} {outcome : Outgoing.Outcome} (known : p.job? i = some o)
    (moved : o.Moved p.state p.stream outcome) :
    Did p (.move i)
      (some ⟨i, o.message, p.puts (p.settle i o outcome), outcome.2.2.answer?⟩)
      (p.settle i o outcome)

theorem did_move (p : Party) (i : Nat) : p.Did (.move i) (p.deed? (.move i)) (p.move i) := by
  cases known : p.job? i with
  | none =>
    have stays : p.move i = p := by rw [Party.move, known]
    rw [deed?, known, stays]
    exact .bides (.refl p) (.inl rfl)
  | some o =>
    cases stepped : o.step? p.state p.stream with
    | none =>
      have stays : p.move i = p := by simp only [Party.move, known, stepped, Option.elim_none]
      rw [deed?, known, Option.bind_some, stepped, stays]
      exact .bides (.refl p) (.inl rfl)
    | some outcome =>
      rw [deed?, known, Option.bind_some, stepped, move_of_step? known stepped]
      exact .moved known (Outgoing.moved_of_step? stepped)

/-- An act does nothing else to the messages. -/
theorem did_step (p : Party) (act : Act) : p.Did act (p.deed? act) (p.step act) := by
  have bides {act : Act} {p' : Party} (bides : p.Bides p') (stream : p'.stream = p.stream) :
      p.Did act none p' := .bides bides (.inl stream)
  cases act with
  | dial => exact bides (.dial p) (by rw [step, dial]; split <;> rfl)
  | accept => exact bides (.accept p) (by rw [step, accept]; split <;> rfl)
  | write k data => exact bides (.of_send (.refl _) rfl rfl) rfl
  | read k => exact bides (.read p k) (by rw [step, read]; split <;> rfl)
  | close k => exact bides (.close p k) (by rw [step, close]; split <;> rfl)
  | shut => exact bides (.shut p) rfl
  | unlisten =>
    have kept := State.Enlarges.refl p.state
    exact bides (.of_jobs ⟨kept.ids, kept.next, kept.new, rfl, rfl⟩ rfl rfl) rfl
  | move i => exact p.did_move i
  | cancel i =>
    change p.Did (.cancel i) none (p.cancel i)
    obtain same | ⟨o, known, -, given⟩ := p.cancel_cases i
    · rw [same]
      exact bides (.refl p) rfl
    · rw [given]
      exact .givenUp known
  | take r => exact bides (.take p r) (by rw [step, take]; split <;> rfl)
  | flow stream => exact .bides (.flow p stream) (.inr ⟨stream, rfl⟩)

theorem puts_self (same : p'.stream = p.stream) : p.puts p' = [] := by
  rw [puts, same, List.drop_length]

/-- A step that does not end with success puts nothing in the buffer. Else it puts in the bytes of the
message. -/
theorem puts_settle (i : Nat) (moved : o.Moved p.state p.stream outcome) :
    p.puts (p.settle i o outcome) = [] ∧ outcome.2.2.answer? ≠ some (.ok ()) ∧
        (p.settle i o outcome).stream = p.stream ∨
      ∃ t bytes, o.stage = .sending t (.ok bytes) ∧ p.puts (p.settle i o outcome) = [bytes] ∧
        outcome.2.2.answer? = some (.ok ()) ∧
        (p.settle i o outcome).stream.buffer.units = p.stream.buffer.units ++ [bytes] := by
  cases moved with
  | enqueued _ _ _ => exact .inl ⟨puts_self rfl, nofun, rfl⟩
  | acquired _ _ _ _ => exact .inl ⟨puts_self rfl, nofun, rfl⟩
  | @taken t bytes stream' sends _ room =>
    have units : stream'.buffer.units = p.stream.buffer.units ++ [bytes] := by
      obtain ⟨-, e, same⟩ | ⟨-, buffer, n, written, rfl⟩ := Stream.Endpoint.write?_cases room
      · cases same
      · obtain ⟨-, -, -, -, -, rfl⟩ := Stream.Buffer.write?_eq_ok.mp written
        rfl
    refine .inr ⟨t, bytes, sends, ?_, rfl, units⟩
    change stream'.buffer.units.drop p.stream.buffer.units.length = [bytes]
    rw [units, List.drop_left]
  | failed _ => exact .inl ⟨puts_self rfl, nofun, rfl⟩

/-- A step of a message leaves the others where they are. -/
theorem job?_settle (known : p.job? i = some o) (outcome : Outgoing.Outcome) (j : Nat) :
    (p.settle i o outcome).job? j = if i = j then outcome.2.2.goesOn? else p.job? j := by
  obtain ⟨state, stream, progress⟩ := outcome
  cases progress with
  | goOn o' => exact job?_setJob known _ j
  | settled r => cases r <;> exact job?_setJob known none j

theorem Did.length_le {step? : Option Deed} (h : p.Did act step? p') :
    p.jobs.length ≤ p'.jobs.length := by
  cases h with
  | bides bides _ => exact bides.length_le
  | givenUp _ => exact Nat.le_of_eq List.length_set.symm
  | moved _ _ => exact Nat.le_of_eq (length_jobs_settle _ _ _).symm

/-- A message that set out before the act was there, and was the same message. -/
theorem Did.exists_job? {step? : Option Deed} (h : p.Did act step? p') (before : i < p.jobs.length)
    {o' : Outgoing} (known : p'.job? i = some o') :
    ∃ o, p.job? i = some o ∧ o.message = o'.message := by
  cases h with
  | bides bides _ =>
    obtain known | ⟨after, -⟩ := bides.job?_cases known
    · exact ⟨o', known, rfl⟩
    · exact absurd before (Nat.not_lt.mpr after)
  | givenUp known' =>
    have known := (job?_setJob known' none i).symm.trans known
    split at known
    · cases known
    · exact ⟨o', known, rfl⟩
  | @moved j o outcome known' moved =>
    rw [job?_settle known'] at known
    split at known
    · next here =>
      refine ⟨o, here ▸ known', ?_⟩
      cases moved with
      | enqueued _ _ _ | acquired _ _ _ _ => cases known; rfl
      | taken _ _ _ | failed _ => cases known
    · exact ⟨o', known, rfl⟩

theorem written_message {m : Message} (wrote : p'.wrote = p.wrote ++ m.payload?.toList) (k : ConnKey) :
    p'.written k = p.written k ++ (m.data? k).toList := by
  cases m with
  | abort id reason =>
    rw [written_congr (wrote.trans (List.append_nil _))]
    exact (List.append_nil _).symm
  | payload l data =>
    rw [written_concat wrote, Message.data?]
    split <;> rfl

theorem deeds_append (p : Party) (earlier later : List Act) :
    p.deeds (earlier ++ later) = p.deeds earlier ++ (p.run earlier).deeds later := by
  induction earlier generalizing p with
  | nil => rfl
  | cons act earlier ih =>
    rw [List.cons_append, deeds, ih, deeds, List.append_assoc]
    rfl

/-- A fact on a session and the steps that its messages took holds after a run if each thing that an act
can do to them keeps it. -/
theorem deeds_induction {P : List Deed → Party → Prop}
    (bides : ∀ {ds p p'}, P ds p → p.Bides p' → P ds p')
    (giveUp : ∀ {ds p i o}, P ds p → p.job? i = some o → P ds (p.giveUp i o))
    (settle : ∀ {ds p i o outcome}, P ds p → p.job? i = some o → o.Moved p.state p.stream outcome →
      P (ds ++ [⟨i, o.message, p.puts (p.settle i o outcome), outcome.2.2.answer?⟩])
        (p.settle i o outcome))
    (h : P ds p) (acts : List Act) : P (ds ++ p.deeds acts) (p.run acts) := by
  induction acts generalizing ds p with
  | nil =>
    rw [deeds, List.append_nil]
    exact h
  | cons act acts ih =>
    have did := p.did_step act
    rw [deeds, ← List.append_assoc]
    refine ih ?_
    generalize p.step act = p' at did
    generalize p.deed? act = step? at did
    cases did with
    | bides held _ =>
      rw [Option.toList_none, List.append_nil]
      exact bides h held
    | givenUp known =>
      rw [Option.toList_none, List.append_nil]
      exact giveUp h known
    | moved known moved => exact settle h known moved

/-! ## The payloads of a connection -/

/-- The bytes of payloads with the numbers from zero upwards. -/
def framed (id : ConnId) (data : List Bytes) : List (Except Wire.Error Bytes) :=
  (numbered data).map fun (n, payload) => (⟨id, .payload n payload⟩ : Envelope).packed

theorem framed_concat (id : ConnId) (data : List Bytes) (payload : Bytes) :
    framed id (data ++ [payload]) =
      framed id data ++ [(⟨id, .payload (UInt64.ofNat data.length) payload⟩ : Envelope).packed] := by
  unfold framed
  rw [numbered_concat, List.map_append]
  rfl

/-- The buffer took the payloads whose writes answered success, under the next numbers, and aborts. -/
structure Posts (ds : List Deed) (p : Party) : Prop where
  queued : p.Queued
  numbered : p.Numbered
  absent : ∀ {k}, p.state.id? k = none → p.written k = [] ∧ posted k ds = []
  answered : ∀ k, succeeded k ds = p.written k
  enters : ∀ {k id}, p.state.id? k = some id →
    (posted k ds).map Except.ok = framed id (p.written k)
  aborts : ∀ d ∈ ds, ∀ {id reason}, d.message = .abort id reason →
    ∀ bytes ∈ d.put, (⟨id, .abort reason⟩ : Envelope).packed = .ok bytes

namespace Posts

theorem start (side : Role) (stream : Stream.Endpoint) : Posts [] (start side stream) := by
  refine ⟨⟨nofun, nofun, nofun, nofun, .nil, nofun⟩, ⟨?_, ?_, nofun⟩, fun _ => ⟨rfl, rfl⟩,
    fun _ => rfl, nofun, fun d mem => absurd mem List.not_mem_nil⟩
  · intro k n next
    cases next
  · intro k n next
    cases next

/-- Nothing is put in the buffer, and no connection is added. -/
theorem congr (h : Posts ds p) (queued : p'.Queued) (numbered : p'.Numbered)
    (ids : ∀ k, p'.state.id? k = p.state.id? k) (wrote : p'.wrote = p.wrote) : Posts ds p' := by
  have written := written_congr wrote
  refine ⟨queued, numbered, ?_, ?_, ?_, h.aborts⟩ <;> simp only [ids, written]
  · exact h.absent
  · exact h.answered
  · exact h.enters

theorem concat_idle (h : Posts ds p) (put : d.put = []) (answer : d.answer ≠ some (.ok ())) :
    Posts (ds ++ [d]) p := by
  refine ⟨h.queued, h.numbered, ?_, ?_, ?_, fun x mem {id reason} aborts bytes here => ?_⟩
  case refine_4 =>
    obtain mem | mem := List.mem_append.mp mem
    · exact h.aborts x mem aborts bytes here
    · rw [List.mem_singleton.mp mem, put] at here
      cases here
  all_goals simp only [posted_idle _ _ put, succeeded_idle _ _ answer]
  · exact h.absent
  · exact h.answered
  · exact h.enters

theorem bides (h : Posts ds p) (bides : p.Bides p') : Posts ds p' := by
  have larger := bides.state
  have written := written_congr bides.wrote
  have same {k : ConnKey} (known : p.state.id? k ≠ none) : p'.state.id? k = p.state.id? k := by
    obtain ⟨id, named⟩ := Option.ne_none_iff_exists'.mp known
    rw [larger.ids named, named]
  refine ⟨?_, ?_, fun {k} absent => ?_, fun k => ?_, fun {k id} known => ?_, h.aborts⟩
  · refine h.queued.congr larger.turn larger.nextTicket fun known stage => ?_
    exact (bides.job?_cases known).resolve_right fun ⟨_, fresh⟩ => stage fresh
  · exact h.numbered.enlarge (fun absent => (h.absent absent).1) larger bides.wrote bides.sameSending
  · rw [written]
    refine h.absent (Decidable.not_not.mp fun known => ?_)
    rw [same known] at absent
    exact known absent
  · rw [written]
    exact h.answered k
  · rw [written]
    cases before : p.state.id? k with
    | none =>
      obtain ⟨unwritten, unposted⟩ := h.absent before
      rw [unwritten, unposted]
      rfl
    | some id' =>
      rw [same (before ▸ nofun)] at known
      exact h.enters known

theorem giveUp (h : Posts ds p) (known : p.job? i = some o) : Posts ds (p.giveUp i o) :=
  h.congr (h.queued.giveUp known) (h.numbered.giveUp h.queued known) (id?_cancel p.state o) rfl

/-- The buffer takes the next payload of a connection, or an abort. -/
theorem taken (h : Posts ds p) (known : p.job? i = some o) {t : Nat} {bytes : Bytes}
    {stream : Stream.Endpoint} (sends : o.stage = .sending t (.ok bytes))
    (queued : (p.settle i o (p.state.leave t, stream, .settled (.ok ()))).Queued)
    (numbered : (p.settle i o (p.state.leave t, stream, .settled (.ok ()))).Numbered) :
    Posts (ds ++ [⟨i, o.message, [bytes], some (.ok ())⟩])
      (p.settle i o (p.state.leave t, stream, .settled (.ok ()))) := by
  obtain ⟨m, stage⟩ := o
  cases sends
  obtain ⟨e, next, packed⟩ := h.numbered.carries known
  have written (k : ConnKey) : (p.settle i ⟨m, .sending t (.ok bytes)⟩
      (p.state.leave t, stream, .settled (.ok ()))).written k = p.written k ++ (m.data? k).toList :=
    written_message rfl k
  have succeeded (k : ConnKey) : succeeded k (ds ++ [⟨i, m, [bytes], some (.ok ())⟩]) =
      succeeded k ds ++ (m.data? k).toList := succeeded_concat k ds _
  have posted (k : ConnKey) : posted k (ds ++ [⟨i, m, [bytes], some (.ok ())⟩]) =
      posted k ds ++ if (m.data? k).isSome then [bytes] else [] := posted_concat k ds _
  -- The bytes are those of the next payload of its connection, if the message is one.
  have frames {k : ConnKey} {data : Bytes} (writes : m.data? k = some data) :
      ∃ id, p.state.id? k = some id ∧
        .ok bytes = (⟨id, .payload (UInt64.ofNat (p.written k).length) data⟩ : Envelope).packed := by
    cases Message.eq_of_data? writes
    obtain ⟨id, named, rfl⟩ := Option.map_eq_some_iff.mp next
    exact ⟨id, named, packed⟩
  refine ⟨queued, numbered, fun {k} absent => ?_, fun k => ?_, fun {k id} known' => ?_,
    fun d mem {id reason} aborts bytes' here => ?_⟩
  · replace absent : p.state.id? k = none := absent
    rw [written, posted]
    cases writes : m.data? k with
    | none => simpa using h.absent absent
    | some data =>
      obtain ⟨id, named, -⟩ := frames writes
      cases absent.symm.trans named
  · rw [succeeded, written, h.answered]
  · replace known' : p.state.id? k = some id := known'
    rw [posted, written, List.map_append, h.enters known']
    cases writes : m.data? k with
    | none => simp
    | some data =>
      obtain ⟨id', named, packed⟩ := frames writes
      cases known'.symm.trans named
      rw [Option.toList_some, framed_concat, ← packed]
      rfl
  · obtain mem | mem := List.mem_append.mp mem
    · exact h.aborts d mem aborts bytes' here
    · cases List.mem_singleton.mp mem
      cases aborts
      cases next
      cases List.mem_singleton.mp here
      exact packed.symm

theorem settle (h : Posts ds p) (known : p.job? i = some o)
    (moved : o.Moved p.state p.stream outcome) :
    Posts (ds ++ [⟨i, o.message, p.puts (p.settle i o outcome), outcome.2.2.answer?⟩])
      (p.settle i o outcome) := by
  have queued := h.queued.settle known moved
  have numbered := h.numbered.settle h.queued known moved
  have ids := (sameReading_settle i moved).state.ids
  obtain ⟨put, answer, -⟩ | ⟨t, bytes, sends, put, answer, -⟩ := puts_settle i moved
  · have wrote : (p.settle i o outcome).wrote = p.wrote := by
      cases moved with
      | enqueued _ _ _ | acquired _ _ _ _ | failed _ => rfl
      | taken _ _ _ => exact absurd rfl answer
    exact (h.congr queued numbered ids wrote).concat_idle put answer
  · rw [put, answer]
    cases moved with
    | enqueued _ _ _ | acquired _ _ _ _ | failed _ => cases answer
    | taken sends' _ _ =>
      cases sends.symm.trans sends'
      exact h.taken known sends queued numbered

theorem run (h : Posts ds p) (acts : List Act) : Posts (ds ++ p.deeds acts) (p.run acts) :=
  deeds_induction (P := Posts) bides giveUp settle h acts

end Posts

/-! ## The steps of one message -/

theorem job?_write (p : Party) (k : ConnKey) (data : Bytes) :
    (p.step (.write k data)).job? p.jobs.length = some ⟨.payload k data, .fresh⟩ :=
  (job?_send _ _ _).trans (if_pos rfl)

/-- A message that has a step in a run was there at its start, if it had set out by then. -/
theorem exists_job?_of_mem (before : d.job < p.jobs.length) (mem : d ∈ p.deeds acts) :
    ∃ o, p.job? d.job = some o ∧ o.message = d.message := by
  induction acts generalizing p with
  | nil => cases mem
  | cons act acts ih =>
    have did := p.did_step act
    rw [deeds, List.mem_append, Option.mem_toList] at mem
    obtain here | later := mem
    · rw [here] at did
      generalize p.step act = p' at did
      cases did with
      | moved known _ => exact ⟨_, known, rfl⟩
    · obtain ⟨o', known, message⟩ := ih (Nat.lt_of_lt_of_le before did.length_le) later
      obtain ⟨o, known, same⟩ := did.exists_job? before known
      exact ⟨o, known, same.trans message⟩

/-- A message that there is after a run was the same message at its start, if it had set out by then. -/
theorem exists_job?_run (before : i < p.jobs.length) {o' : Outgoing}
    (known : (p.run acts).job? i = some o') : ∃ o, p.job? i = some o ∧ o.message = o'.message := by
  induction acts generalizing p with
  | nil => exact ⟨o', known, rfl⟩
  | cons act acts ih =>
    have did := p.did_step act
    obtain ⟨o, known, message⟩ := ih (Nat.lt_of_lt_of_le before did.length_le) known
    obtain ⟨o, known, same⟩ := did.exists_job? before known
    exact ⟨o, known, same.trans message⟩

/-- Each message did nothing before it was settled, and then put in what its answer says. -/
structure Accounts (ds : List Deed) (p : Party) : Prop where
  before : ∀ d ∈ ds, d.job < p.jobs.length
  underway : ∀ {i o}, p.job? i = some o → putBy i ds = [] ∧ answersTo i ds = []
  fared : ∀ i, Fared (putBy i ds) (answersTo i ds)

namespace Accounts

theorem start (side : Role) (stream : Stream.Endpoint) :
    Accounts [] (Party.start side stream) := by
  refine ⟨fun d mem => absurd mem List.not_mem_nil, fun {i o} known => ?_, fun _ => .unsettled⟩
  cases known

theorem bides (h : Accounts ds p) (bides : p.Bides p') : Accounts ds p' := by
  have longer := bides.length_le
  refine ⟨fun d mem => Nat.lt_of_lt_of_le (h.before d mem) longer, fun {i o} known => ?_, h.fared⟩
  obtain known | ⟨after, -⟩ := bides.job?_cases known
  · exact h.underway known
  · exact unsettled_of_no_step fun d mem here => Nat.not_lt.mpr after (here ▸ h.before d mem)

theorem giveUp (h : Accounts ds p) (known : p.job? i = some o) : Accounts ds (p.giveUp i o) := by
  refine ⟨fun d mem => Nat.lt_of_lt_of_eq (h.before d mem) List.length_set.symm,
    fun {j x} known' => ?_, h.fared⟩
  replace known' := (job?_setJob known none j).symm.trans known'
  split at known'
  · cases known'
  · exact h.underway known'

theorem settle (h : Accounts ds p) (known : p.job? i = some o)
    (moved : o.Moved p.state p.stream outcome) :
    Accounts (ds ++ [⟨i, o.message, p.puts (p.settle i o outcome), outcome.2.2.answer?⟩])
      (p.settle i o outcome) := by
  obtain ⟨noPut, noAnswer⟩ := h.underway known
  refine ⟨fun d mem => ?_, fun {j x} known' => ?_, fun j => ?_⟩
  · rw [length_jobs_settle]
    obtain mem | mem := List.mem_append.mp mem
    · exact h.before d mem
    · rw [List.mem_singleton.mp mem]
      exact lt_of_job? known
  · rw [job?_settle known] at known'
    rw [putBy_concat, answersTo_concat]
    split at known'
    · next here =>
      subst here
      have goesOn : outcome.2.2.answer? = none := by
        cases moved with
        | enqueued _ _ _ | acquired _ _ _ _ => rfl
        | taken _ _ _ | failed _ => cases known'
      obtain ⟨put, -, -⟩ | ⟨_, _, _, _, answer, -⟩ := puts_settle i moved
      · simp [noPut, noAnswer, put, goesOn]
      · cases goesOn.symm.trans answer
    · next other => simpa [other] using h.underway known'
  · rw [putBy_concat, answersTo_concat]
    by_cases here : i = j
    · subst here
      rw [noPut, noAnswer, if_pos rfl, if_pos rfl, List.nil_append, List.nil_append]
      dsimp only
      obtain ⟨put, refused, -⟩ | ⟨_, bytes, _, put, answer, -⟩ := puts_settle i moved
      · rw [put]
        cases answer : outcome.2.2.answer? with
        | none => exact .unsettled
        | some r =>
          cases r with
          | ok u => exact absurd answer refused
          | error e => exact .refused e
      · rw [put, answer]
        exact .taken bytes
    · simpa [here] using h.fared j

theorem run (h : Accounts ds p) (acts : List Act) :
    Accounts (ds ++ p.deeds acts) (p.run acts) :=
  deeds_induction (P := Accounts) bides giveUp settle h acts

end Accounts

/-- A write that is cancelled before it was settled puts nothing in the buffer. -/
theorem unsettled_of_cancelled (accounts : Accounts ds p) {stage : Outgoing.Stage}
    (known : p.job? i = some ⟨.payload k data, stage⟩) (acts : List Act) :
    putBy i (ds ++ p.deeds (.cancel i :: acts)) = [] ∧
      answersTo i (ds ++ p.deeds (.cancel i :: acts)) = [] := by
  have cancelled : p.step (.cancel i) = p.giveUp i ⟨.payload k data, stage⟩ := by
    simp only [step, cancel, known]
  have gone : (p.step (.cancel i)).job? i = none := by
    rw [cancelled]
    exact (job?_setJob known none i).trans (if_pos rfl)
  have inside : i < (p.step (.cancel i)).jobs.length :=
    Nat.lt_of_lt_of_le (lt_of_job? known) (p.did_step (.cancel i)).length_le
  have silent : ∀ d ∈ p.deeds (.cancel i :: acts), d.job ≠ i := by
    rintro d mem rfl
    obtain ⟨o, known', -⟩ := exists_job?_of_mem inside mem
    cases gone.symm.trans known'
  obtain ⟨noPut, noAnswer⟩ := accounts.underway known
  obtain ⟨noPut', noAnswer'⟩ := unsettled_of_no_step silent
  unfold putBy answersTo at *
  rw [List.filter_append, List.flatMap_append, List.filterMap_append, noPut, noPut', noAnswer,
    noAnswer']
  exact ⟨rfl, rfl⟩

/-- What is put in the buffer for a connection that has ended had the turn at its end. -/
theorem sending_of_put (finished : p.state.Finished k) (mem : d ∈ p.deeds acts)
    (writes : d.message.data? k = some data) (put : d.put ≠ []) :
    ∃ t packed, p.job? d.job = some ⟨.payload k data, .sending t packed⟩ := by
  induction acts generalizing p with
  | nil => cases mem
  | cons act acts ih =>
    have did := p.did_step act
    rw [deeds, List.mem_append, Option.mem_toList] at mem
    obtain here | later := mem
    · rw [here] at did
      generalize p.step act = p' at did
      cases did with
      | @moved i o outcome known moved =>
        obtain ⟨m, stage⟩ := o
        cases Message.eq_of_data? writes
        obtain ⟨nothing, -⟩ | ⟨t, bytes, rfl, -⟩ := puts_settle i moved
        · exact absurd nothing put
        · exact ⟨t, _, known⟩
    · obtain ⟨t, packed, known⟩ := ih ((lasts_step p act).state.finished finished) later
      refine ⟨t, packed, ?_⟩
      generalize p.step act = p' at did known
      generalize p.deed? act = step? at did
      cases did with
      | bides bides _ => exact bides.sameSending.mp known
      | givenUp known' =>
        replace known := (job?_setJob known' none _).symm.trans known
        split at known
        · cases known
        · exact known
      | moved known' moved => exact sending_of_settle known' moved finished known

/-- Only the steps of messages put anything in the buffer, apart from what the stream does by itself. -/
theorem Did.units {step? : Option Deed} (h : p.Did act step? p')
    (own : ∀ stream, act ≠ .flow stream) :
    p'.stream.buffer.units = p.stream.buffer.units ++ (step?.map Deed.put).getD [] := by
  cases h with
  | bides _ stream =>
    obtain same | ⟨stream, flow⟩ := stream
    · rw [same]
      exact (List.append_nil _).symm
    · exact absurd flow (own stream)
  | givenUp _ => exact (List.append_nil _).symm
  | @moved i o outcome known moved =>
    rw [Option.map_some, Option.getD_some]
    obtain ⟨put, -, same⟩ | ⟨t, bytes, -, put, -, units⟩ := puts_settle i moved
    · rw [same, put, List.append_nil]
    · rw [units, put]

/-! ## The law -/

/-- The law of numbers without gaps. In any run of a session, over any stream:

* each act but those of the stream itself leaves what the buffer holds, and adds to it what the step
  of a message puts in;
* what an abort puts in is an abort, so that no payload enters but by a payload;
* what the payloads of a connection put in are the payloads whose writes answered success, in that
  order, under its name and the numbers from zero upwards;
* each write puts in one chunk if it answers success and nothing else, and it answers at most once. If
  it is cancelled before it was settled, it never answers, and puts in nothing;
* once a connection has ended, only a write that had the turn by then puts anything in for it. -/
theorem payload_numbers_have_no_gaps (side : Role) (stream : Stream.Endpoint) (acts : List Act) :
    let first := start side stream
    let ds := first.deeds acts
    (∀ {earlier act later}, acts = earlier ++ act :: later → (∀ stream, act ≠ .flow stream) →
      ((first.run earlier).step act).stream.buffer.units = (first.run earlier).stream.buffer.units ++
        (((first.run earlier).deed? act).map Deed.put).getD []) ∧
    (∀ d ∈ ds, ∀ {id reason}, d.message = .abort id reason →
      ∀ bytes ∈ d.put, (⟨id, .abort reason⟩ : Envelope).packed = .ok bytes) ∧
    (∀ {k id}, (first.run acts).state.id? k = some id →
      (posted k ds).map Except.ok = framed id (succeeded k ds)) ∧
    (∀ {earlier k data later}, acts = earlier ++ .write k data :: later →
      let n := (first.run earlier).jobs.length
      (∀ d ∈ ds, d.job = n → d.message = .payload k data) ∧ Fared (putBy n ds) (answersTo n ds) ∧
        ∀ {between after}, later = between ++ .cancel n :: after →
          (first.run (earlier ++ .write k data :: between)).job? n ≠ none →
          putBy n ds = [] ∧ answersTo n ds = []) ∧
    ∀ {earlier later k}, acts = earlier ++ later → (first.run earlier).state.Finished k →
      ∀ d ∈ (first.run earlier).deeds later, ∀ {data}, d.message.data? k = some data → d.put ≠ [] →
        ∃ t packed, (first.run earlier).job? d.job = some ⟨.payload k data, .sending t packed⟩ := by
  intro first ds
  have posts : Posts ds (first.run acts) := (Posts.start side stream).run acts
  have accounts (acts : List Act) : Accounts (first.deeds acts) (first.run acts) :=
    (Accounts.start side stream).run acts
  refine ⟨fun {earlier act later} _ own => (did_step _ act).units own, posts.aborts, fun {k id} known => ?_,
    fun {earlier k data later} whole => ⟨fun d mem here => ?_, (accounts acts).fared _,
      fun {between after} rest going => ?_⟩,
    fun {earlier later k} _ finished d mem {data} writes put => sending_of_put finished mem writes put⟩
  · rw [posts.answered]
    exact posts.enters known
  · subst whole
    change d ∈ first.deeds _ at mem
    rw [deeds_append, List.mem_append] at mem
    obtain before | after := mem
    · exact absurd ((accounts earlier).before d before) (here ▸ Nat.lt_irrefl _)
    · rw [deeds, List.mem_append, Option.mem_toList] at after
      obtain now | after := after
      · cases now
      · have sent := (first.run earlier).job?_write k data
        rw [← here] at sent
        obtain ⟨o, known, message⟩ := exists_job?_of_mem (lt_of_job? sent) after
        cases sent.symm.trans known
        exact message.symm
  · subst rest
    subst whole
    obtain ⟨⟨m, stage⟩, known⟩ := Option.ne_none_iff_exists'.mp going
    have sent := (first.run earlier).job?_write k data
    rw [run_append] at known
    obtain ⟨o, known', message⟩ := exists_job?_run (lt_of_job? sent) known
    cases sent.symm.trans known'
    cases message
    have whole : earlier ++ .write k data :: (between ++ .cancel (first.run earlier).jobs.length :: after) =
        (earlier ++ .write k data :: between) ++ .cancel (first.run earlier).jobs.length :: after := by
      rw [List.append_assoc, List.cons_append]
    change putBy _ (first.deeds _) = [] ∧ answersTo _ (first.deeds _) = []
    rw [whole, deeds_append]
    rw [← run_append] at known
    exact unsettled_of_cancelled (accounts _) known after

/-- Three writes at once. The second is cancelled while it has the turn, and the third gets its number. -/
example :
    let first := start .dial (.new 0 ⟨7⟩ {})
    let moves (i : Nat) : List Act := List.replicate 3 (.move i)
    let acts := [.dial, .write 0 [1], .write 0 [2], .write 0 [3]] ++ moves 0 ++ [.move 1, .move 1] ++
      [.move 2, .cancel 1] ++ moves 2
    (posted 0 (first.deeds acts)).filterMap (fun bytes => (Envelope.unpacked bytes).toOption) =
      [⟨⟨0⟩, .payload 0 [1]⟩, ⟨⟨0⟩, .payload 1 [3]⟩] := by
  decide +kernel

end Party

end Tether.Session
