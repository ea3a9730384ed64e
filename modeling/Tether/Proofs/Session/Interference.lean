import Tether.Proofs.Session.Outcome
import Tether.Proofs.Session.Parting
import Tether.Proofs.Session.Restriction

/-!
# Connections do not interfere

All connections of a session share one table, one queue and one stream, and a peer may send what it
likes for any number. The law is that the connections under a number notice nothing of the others: two
runs in which the same things happen to a number, in the same order, look the same from it, whatever
else happens in them. What a number sees of a run is what a session would do in which nothing ever
happened but to that number.
-/

namespace Tether.Session

/-- What happens to a number. A connection is named by its place among those under the number. -/
inductive Concern where
  | dialed
  | said (content : Content)
  | read (place : Nat)
  | closed (place : Nat)
  /-- The user lets go of the accepter, which concerns every number. -/
  | unlistened
  deriving DecidableEq

/-- What shows of a number. -/
inductive Notice where
  /-- A connection is handed something to read. -/
  | handed (place : Nat) (i : Inbound)
  | answered (place : Nat) (r : Except Error (Option Bytes))
  /-- The peer is to be told the end of a connection. -/
  | told (reason : Reason)
  deriving DecidableEq

/-- What connections are handed between two states. -/
def State.handedOver (s s' : State) : List Notice :=
  (List.range s'.conns.size).flatMap fun n =>
    ((s'.inbox n).drop (s.inbox n).length).map (Notice.handed n)

/-- What a session in which nothing happens but to one number makes of that, and what it answers. -/
def State.heed (c : ConnId) (s : State) : Concern → State × List Notice
  | .dialed => ((s.register c).1, [])
  | .said content =>
    ({ (s.dispatch ⟨c, content⟩).1 with accepted := [] },
      (s.dispatch ⟨c, content⟩).2.toList.map .told)
  | .read n => ((s.read? n).map fun (s', r) => (s', [Notice.answered n r])).getD (s, [])
  | .closed n => ((s.close n).1, (s.close n).2.toList.map fun _ => .told .closed)
  | .unlistened => ({ s with accepting := false, listening := false }, [])

/-- All that shows when such things happen in turn. -/
def State.heedAll (c : ConnId) : State → List Concern → List Notice
  | _, [] => []
  | s, e :: es => s.handedOver (s.heed c e).1 ++ (s.heed c e).2 ++ heedAll c (s.heed c e).1 es

/-- An act that does not end the session brings an envelope, if it is a read of the stream. -/
theorem Party.Act.exists_envelope {r : Except Stream.Error (Option Bytes)}
    (goesOn : (Act.take r).ending? = none) :
    ∃ e, Codec.ofRead Envelope.unpacked r = .ok (some e) := by
  unfold ending? at goesOn
  dsimp only at goesOn
  split at goesOn
  · next e given => exact ⟨e, given⟩
  · cases goesOn
  · cases goesOn

namespace Party

/-- What an act is to a number. -/
def concern? (c : ConnId) (p : Party) : Act → Option Concern
  | .dial => if p.state.role = .dial ∧ ⟨p.state.nextId⟩ = c then some .dialed else none
  | .read k => if p.state.id? k = some c then some (.read (p.state.rank c k)) else none
  | .close k => if p.state.id? k = some c then some (.closed (p.state.rank c k)) else none
  | .unlisten => some .unlistened
  | .take r => (Act.take r).envelope?.bind fun e => if e.conn = c then some (.said e.content) else none
  | _ => none

/-- What the reads of a number answer by an act, and what the peer is then to be told of it. -/
def answersFor (c : ConnId) (p p' : Party) : List Notice :=
  ((p'.reads.drop p.reads.length).filterMap fun (k, r) =>
      if p'.state.id? k = some c then some (Notice.answered (p'.state.rank c k) r) else none) ++
    ((p'.jobs.drop p.jobs.length).filterMap fun o => o.bind (·.message.abort? c)).map .told

/-- What shows of a number by an act. -/
def noticed (c : ConnId) (p p' : Party) : List Notice :=
  (p.state.only c).handedOver (p'.state.only c) ++ p.answersFor c p'

/-- What happens to a number in a run. -/
def concerns (c : ConnId) : Party → List Act → List Concern
  | _, [] => []
  | p, act :: acts => (p.concern? c act).toList ++ concerns c (p.step act) acts

/-- What shows of a number in a run. -/
def notices (c : ConnId) : Party → List Act → List Notice
  | _, [] => []
  | p, act :: acts => p.noticed c (p.step act) ++ notices c (p.step act) acts

variable {p p' : Party} {c : ConnId} {act : Act} {acts : List Act} {k : ConnKey}

/-! ## One act -/

/-- An act does to a number what the smaller session would do, or nothing. -/
def Heeds (c : ConnId) (p p' : Party) : Option Concern → Prop
  | some e => (p.state.only c).heed c e = (p'.state.only c, p.answersFor c p')
  | none => p'.state.only c = p.state.only c ∧ p.answersFor c p' = []

theorem answersFor_quiet (reads : p'.reads = p.reads) (jobs : p'.jobs.length = p.jobs.length) :
    p.answersFor c p' = [] := by
  unfold answersFor
  rw [reads, List.drop_length, ← jobs, List.drop_length]
  rfl

theorem answersFor_send (reads : p'.reads = p.reads) (jobs : p'.jobs = p.jobs) (m : Message) :
    p.answersFor c (p'.send m) = (m.abort? c).toList.map .told := by
  have sent : (p'.send m).jobs = p.jobs ++ [some ⟨m, .fresh⟩] := by rw [← jobs]; rfl
  unfold answersFor
  rw [show (p'.send m).reads = p.reads from reads, List.drop_length, sent, List.drop_left,
    List.filterMap_nil, List.nil_append]
  cases told : m.abort? c <;> simp [told]

theorem answersFor_read {r : Except Error (Option Bytes)} (reads : p'.reads = p.reads ++ [(k, r)])
    (jobs : p'.jobs = p.jobs) : p.answersFor c p' =
      if p'.state.id? k = some c then [.answered (p'.state.rank c k) r] else [] := by
  unfold answersFor
  rw [reads, List.drop_left, jobs, List.drop_length]
  split <;> simp [*]

theorem Heeds.quiet (same : p'.state.only c = p.state.only c) (reads : p'.reads = p.reads)
    (jobs : p'.jobs.length = p.jobs.length) : p.Heeds c p' none :=
  ⟨same, answersFor_quiet reads jobs⟩

theorem state_take {r : Except Stream.Error (Option Bytes)} {e : Envelope}
    (given : Codec.ofRead Envelope.unpacked r = .ok (some e)) :
    (p.take r).state = (p.state.dispatch e).1 := by
  unfold take State.intake
  rw [given]
  dsimp only
  generalize p.state.dispatch e = outcome
  obtain ⟨s, reason⟩ := outcome
  cases reason <;> rfl

theorem heeds_dial (alive : p.state.ended = none) : p.Heeds c p.dial (p.concern? c .dial) := by
  have concern : p.concern? c .dial =
      if p.state.role = .dial ∧ ⟨p.state.nextId⟩ = c then some .dialed else none := rfl
  have only := State.only_dial alive c
  rw [concern]
  cases role : p.state.role with
  | accept =>
    have stays : p.dial = p := by rw [dial, role]
    rw [if_neg (by simp), stays]
    exact .quiet rfl rfl rfl
  | dial =>
    have dialed : p.dial = { p with state := p.state.dial.1 } := by rw [dial, role]
    rw [dialed]
    by_cases here : ⟨p.state.nextId⟩ = c
    · rw [if_pos ⟨rfl, here⟩]
      rw [if_pos here] at only
      have quiet : p.answersFor c { p with state := p.state.dial.1 } = [] := answersFor_quiet rfl rfl
      change (((p.state.only c).register c).1, []) = (p.state.dial.1.only c, _)
      rw [only, quiet]
    · rw [if_neg fun both => here both.2]
      rw [if_neg here] at only
      exact .quiet only rfl rfl

theorem heeds_read (labelled : p.state.Labelled) (k : ConnKey) :
    p.Heeds c (p.read k) (p.concern? c (.read k)) := by
  have concern : p.concern? c (.read k) =
      if p.state.id? k = some c then some (.read (p.state.rank c k)) else none := rfl
  rw [concern]
  cases read : p.state.read? k with
  | none =>
    have waits : p.read k = p := by rw [Party.read, read]
    rw [waits]
    split
    · next named =>
      change (((p.state.only c).read? (p.state.rank c k)).map _).getD _ = _
      rw [State.only_read? labelled named, read, answersFor_quiet rfl rfl]
      rfl
    · exact .quiet rfl rfl rfl
  | some given =>
    obtain ⟨s, r⟩ := given
    have reads : p.read k = { p with state := s, reads := p.reads ++ [(k, r)] } := by
      rw [Party.read, read]
    have ids := (State.sameSending_read read).ids
    have answers : p.answersFor c { p with state := s, reads := p.reads ++ [(k, r)] } =
        if s.id? k = some c then [.answered (s.rank c k) r] else [] := answersFor_read rfl rfl
    rw [ids, State.rank_congr ids] at answers
    rw [reads]
    split
    · next named =>
      change (((p.state.only c).read? (p.state.rank c k)).map _).getD _ = _
      rw [State.only_read? labelled named, read, answers, if_pos named]
      rfl
    · next other =>
      rw [if_neg other] at answers
      exact ⟨State.only_read?_of_ne other read, answers⟩

theorem heeds_close (k : ConnKey) : p.Heeds c (p.close k) (p.concern? c (.close k)) := by
  have concern : p.concern? c (.close k) =
      if p.state.id? k = some c then some (.closed (p.state.rank c k)) else none := rfl
  have name (id : ConnId) (told : (p.state.close k).2 = some id) : p.state.id? k = some id :=
    State.id?_of_close told
  have answers : p.answersFor c (p.close k) =
      if p.state.id? k = some c then (p.state.close k).2.toList.map fun _ => .told .closed else [] := by
    unfold close
    generalize p.state.close k = outcome at name
    obtain ⟨s, id⟩ := outcome
    cases id with
    | none =>
      rw [Option.toList_none, List.map_nil, ite_self]
      exact answersFor_quiet rfl rfl
    | some id =>
      rw [answersFor_send (by rfl) (by rfl), name id rfl, Message.abort?]
      by_cases here : id = c <;> simp [here]
  rw [concern]
  split
  · next named =>
    rw [if_pos named] at answers
    change (((p.state.only c).close (p.state.rank c k)).1, _) = _
    rw [State.only_close named, answers, state_close]
  · next other =>
    rw [if_neg other] at answers
    exact ⟨p.state_close k ▸ State.only_close_of_ne other, answers⟩

theorem heeds_take (labelled : p.state.Labelled) {r : Except Stream.Error (Option Bytes)}
    (goesOn : (Act.take r).ending? = none) : p.Heeds c (p.take r) (p.concern? c (.take r)) := by
  obtain ⟨e, given⟩ := Act.exists_envelope goesOn
  have envelope : (Act.take r).envelope? = some e := by rw [Act.envelope?, given]; rfl
  have concern : p.concern? c (.take r) = if e.conn = c then some (.said e.content) else none := by
    change (Act.take r).envelope?.bind _ = _
    rw [envelope]
    rfl
  have answers : p.answersFor c (p.take r) =
      if e.conn = c then (p.state.dispatch e).2.toList.map .told else [] := by
    unfold take State.intake
    rw [given]
    dsimp only
    generalize p.state.dispatch e = outcome
    obtain ⟨s, reason⟩ := outcome
    cases reason with
    | none =>
      rw [Option.toList_none, List.map_nil, ite_self]
      exact answersFor_quiet rfl rfl
    | some reason =>
      dsimp only [Option.map_some]
      rw [answersFor_send (by rfl) (by rfl), Message.abort?]
      split <;> rfl
  rw [concern]
  split
  · next here =>
    subst here
    obtain ⟨only, reply⟩ := State.only_dispatch labelled e.conn e.content
    rw [if_pos rfl] at answers
    change ({ ((p.state.only e.conn).dispatch ⟨e.conn, e.content⟩).1 with accepted := [] },
      ((p.state.only e.conn).dispatch ⟨e.conn, e.content⟩).2.toList.map Notice.told) = _
    rw [only, reply, answers, state_take given]
  · next other =>
    rw [if_neg other] at answers
    exact ⟨state_take given ▸ State.only_dispatch_of_ne labelled other, answers⟩

/-- Every act that does not end the session. -/
theorem heeds_step (labelled : p.state.Labelled) (alive : p.state.ended = none)
    (goesOn : act.ending? = none) : p.Heeds c (p.step act) (p.concern? c act) := by
  cases act with
  | dial => exact heeds_dial alive
  | accept =>
    change p.Heeds c p.accept none
    obtain same | ⟨k, rest, -, same⟩ := p.accept_cases <;> rw [same] <;> exact .quiet rfl rfl rfl
  | write k data =>
    have sent := answersFor_send (p := p) (c := c) rfl rfl (.payload k data)
    exact ⟨rfl, sent⟩
  | read k => exact heeds_read labelled k
  | close k => exact heeds_close k
  | shut => cases goesOn
  | unlisten =>
    have quiet : p.answersFor c (p.step .unlisten) = [] := answersFor_quiet rfl rfl
    have deaf : ({ p.state.only c with accepting := false, listening := false } : State) =
        { p.state with listening := false }.only c := by
      refine State.eq_of_parts rfl rfl ?_
      simp [State.only]
    change (_, []) = (_, p.answersFor c (p.step .unlisten))
    rw [quiet, deaf]
    rfl
  | move i =>
    have same := p.sameReading_move i
    exact .quiet same.state.only same.reads (p.length_jobs_move i)
  | cancel i =>
    have same := p.sameReading_cancel i
    exact .quiet same.state.only same.reads (p.length_jobs_cancel i)
  | take r => exact heeds_take labelled goesOn
  | flow stream =>
    obtain ⟨stream', same⟩ := p.flow_eq stream
    change p.Heeds c (p.flow stream) none
    rw [same]
    exact .quiet rfl rfl rfl

/-! ## A run -/

theorem labelled_step (h : p.state.Labelled) (goesOn : act.ending? = none) :
    (p.step act).state.Labelled := by
  have changed := p.changed_step act
  generalize (p.step act).state = s at changed ⊢
  cases changed with
  | sent _ same => exact h.congr same.ids same.table
  | dialed => exact h.dial
  | accepted | unlistened => exact h
  | read given => exact h.read given
  | closed k => exact h.close k
  | routed _ routed => exact h.routed routed
  | finished ending => cases goesOn.symm.trans ending

theorem alive_step (alive : p.state.ended = none) (goesOn : act.ending? = none) :
    (p.step act).state.ended = none := by
  have changed := p.changed_step act
  generalize (p.step act).state = s at changed ⊢
  cases changed with
  | sent _ same => exact same.ended.trans alive
  | dialed => exact p.state.ended_dial.trans alive
  | accepted | unlistened => exact alive
  | read given =>
    obtain ⟨x, x', -, -, rfl⟩ := State.read?_eq_some given
    exact alive
  | closed k => exact (p.state.ended_close k).trans alive
  | routed _ routed => exact routed.ended.trans alive
  | finished ending => cases goesOn.symm.trans ending

theorem handedOver_self (s : State) : s.handedOver s = [] := by
  unfold State.handedOver
  simp

/-- What a number sees of a run is what a session makes of it in which nothing else happens. -/
theorem notices_eq (labelled : p.state.Labelled) (alive : p.state.ended = none)
    (quiet : ∀ act ∈ acts, act.ending? = none) :
    notices c p acts = (p.state.only c).heedAll c (concerns c p acts) ∧
      (p.run acts).state.only c =
        (concerns c p acts).foldl (fun s e => (s.heed c e).1) (p.state.only c) := by
  induction acts generalizing p with
  | nil => exact ⟨rfl, rfl⟩
  | cons act acts ih =>
    have goesOn := quiet act List.mem_cons_self
    have heeds : p.Heeds c (p.step act) (p.concern? c act) := heeds_step labelled alive goesOn
    obtain ⟨rest, last⟩ := ih (labelled_step labelled goesOn) (alive_step alive goesOn) fun act mem =>
      quiet act (List.mem_cons_of_mem _ mem)
    rw [notices, concerns, noticed, rest]
    change _ ∧ ((p.step act).run acts).state.only c = _
    rw [last]
    cases concern : p.concern? c act with
    | none =>
      rw [concern] at heeds
      obtain ⟨same, silent⟩ := heeds
      rw [same, silent, handedOver_self]
      exact ⟨rfl, rfl⟩
    | some e =>
      rw [concern] at heeds
      have heeds : (p.state.only c).heed c e = ((p.step act).state.only c, p.answersFor c (p.step act)) :=
        heeds
      rw [Option.toList_some, List.singleton_append, State.heedAll, List.foldl_cons, heeds]
      exact ⟨rfl, rfl⟩

/-! ## The law -/

/-- The law of non-interference. Take two runs of sessions of one side that do not end, and a number
to which the same things happen in both, in the same order: the dial that makes it, the envelopes of
the peer for it, and the reads and closes of its connections. Then in both

* the same is handed to its connections, its reads answer the same, and the peer is to be told the same
  of it, in the same order;
* it stands the same in the end: in the table, with the number of the payload that is next, and in what
  its connections hold and how they ended.

What happens to other numbers in the two runs, how messages move, what the streams make of them and
which other connections are ever read has no part in it. -/
theorem connections_do_not_interfere {side : Role} {stream stream' : Stream.Endpoint}
    {acts acts' : List Act} {c : ConnId} (goesOn : ∀ act ∈ acts, act.ending? = none)
    (goesOn' : ∀ act ∈ acts', act.ending? = none)
    (same : concerns c (start side stream) acts = concerns c (start side stream') acts') :
    let p := (start side stream).run acts
    let p' := (start side stream').run acts'
    notices c (start side stream) acts = notices c (start side stream') acts' ∧
      (p.state.entry? c).map (fun a => (p.state.rank c a.conn, a.nextRead)) =
        (p'.state.entry? c).map (fun a => (p'.state.rank c a.conn, a.nextRead)) ∧
      p.state.only c = p'.state.only c := by
  intro p p'
  have labelled : (start side stream).state.Labelled := nofun
  have labelled' : (start side stream').state.Labelled := nofun
  obtain ⟨shows, stands⟩ := notices_eq (c := c) labelled rfl goesOn
  obtain ⟨shows', stands'⟩ := notices_eq (c := c) labelled' rfl goesOn'
  have only : p.state.only c = p'.state.only c := by
    rw [stands, stands', same]
    rfl
  refine ⟨?_, ?_, only⟩
  · rw [shows, shows', same]
    rfl
  · have entry := congrArg (fun s : State => (s.entry? c).map fun a => (a.conn, a.nextRead)) only
    simpa only [State.entry?_only, Option.map_map, Function.comp_def] using entry

/-- A session that accepts, over a stream with default settings. -/
def accepter : Party :=
  start .accept (.new 0 ⟨7⟩ {})

/-- A peer opens a connection, leaves out payloads, and opens another one under the same number, which
is closed. -/
def aloneWithOne : List Act :=
  let said (seq : UInt64) (data : Bytes) : Act := .hear ⟨⟨1⟩, .payload seq data⟩
  [said 0 [1], .read 0, said 1 [2], said 1 [2], said 5 [9], .read 0, .read 0, said 0 [3], .close 1,
    said 1 [4], .read 1]

/-- The same for the number, while the peer does what it likes for others, no one reads these, and one
of them is written to. -/
def amongOthers : List Act :=
  let said (seq : UInt64) (data : Bytes) : Act := .hear ⟨⟨1⟩, .payload seq data⟩
  let other (id seq : UInt64) (data : Bytes) : Act := .hear ⟨⟨id⟩, .payload seq data⟩
  [other 2 0 [7], said 0 [1], other 2 9 [7], .read 1, other 3 4 [], said 1 [2], other 2 0 [8],
    .hear ⟨⟨4⟩, .abort .off⟩, said 1 [2], said 5 [9], other 2 1 [8], .write 2 [6], .move 3, .move 3,
    .read 1, .accept, .read 1, said 0 [3], .close 2, .close 3, said 1 [4], .read 3]

theorem connections_do_not_interfere_among_others :
    (∀ act ∈ aloneWithOne, act.ending? = none) ∧ (∀ act ∈ amongOthers, act.ending? = none) ∧
      concerns ⟨1⟩ accepter aloneWithOne = concerns ⟨1⟩ accepter amongOthers ∧
      notices ⟨1⟩ accepter amongOthers =
        [.handed 0 (.payload [1]), .answered 0 (.ok (some [1])), .handed 0 (.payload [2]),
          .handed 0 (.abort (State.gap 5 2)), .told (State.gap 5 2), .answered 0 (.ok (some [2])),
          .answered 0 (.error (.aborted (State.gap 5 2))), .handed 1 (.payload [3]), .told .closed,
          .told .gone, .answered 1 (.ok (some [3]))] := by
  have goesOn : ∀ act ∈ aloneWithOne, act.ending? = none := by decide +kernel
  have goesOn' : ∀ act ∈ amongOthers, act.ending? = none := by decide +kernel
  have same : concerns ⟨1⟩ accepter aloneWithOne = concerns ⟨1⟩ accepter amongOthers := by
    decide +kernel
  obtain ⟨shows, -, -⟩ := connections_do_not_interfere goesOn goesOn' same
  refine ⟨goesOn, goesOn', same, ?_⟩
  change notices ⟨1⟩ accepter aloneWithOne = notices ⟨1⟩ accepter amongOthers at shows
  rw [← shows]
  decide +kernel

end Party

end Tether.Session
