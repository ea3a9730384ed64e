import Tether.Proofs.Stream.Agreement

/-!
# A graceful end loses nothing

While a user holds a stream, it can end gracefully only by a linger, and that linger begins only
once the end is complete: its peer's end marker has come, and all it wrote, its own end marker
included, was acknowledged. No event takes this back.

A complete end knows of everything. The counts that released its units are counts that the peer's
receiver has reached, so the peer has accepted its whole log; and with the end marker of the peer it
has accepted the whole log of the peer.
-/

namespace Tether.Stream

open Chain (LinkId)
open Link (Side)

/-! ## Complete ends -/

namespace View

/-- Nothing is left to do for an end, or to come to it. -/
structure Complete (v : View) : Prop where
  peerEnded : v.receiver.peerEnded = true
  closed : v.closed = true
  /-- Every unit was acknowledged, the end marker too. -/
  acked : v.log.length ≤ v.acked

variable {v v' w : View} {cut : List LinkId} {data : Bytes}

theorem Complete.acts (h : v.Complete) (act : Acts cut v v') : v'.Complete := by
  have notOpen : v.closed ≠ false := by simp [h.closed]
  cases act with
  | fades => exact ⟨h.peerEnded, h.closed, h.acked⟩
  | writes nonempty opened => exact absurd opened notOpen
  | closes opened => exact absurd opened notOpen
  | sends => exact ⟨h.peerEnded, h.closed, h.acked⟩
  | stitches => exact ⟨h.peerEnded, h.closed, h.acked⟩

theorem Complete.takes (h : v.Complete) (act : Takes v data v') : v'.Complete := by
  cases act with
  | unit read taken =>
    obtain ⟨-, passes⟩ | ⟨-, notEnded, -⟩ := Receiver.chunk_cases taken
    · exact ⟨passes.peerEnded.trans h.peerEnded, h.closed, h.acked⟩
    · rw [h.peerEnded] at notEnded
      cases notEnded
  | count read alive lower upper => exact ⟨h.peerEnded, h.closed, Nat.le_trans h.acked lower⟩
  | garbled | afterEnd | outside | late => exact ⟨h.peerEnded, h.closed, h.acked⟩

/-- Everything that either end wrote has arrived where it should. -/
theorem Complete.delivered (h : v.Complete) (forth : v.Agrees w cut) (back : w.Agrees v cut) :
    w.accepted = v.wrote ++ [[]] ∧ v.accepted = w.wrote ++ [[]] ∧ w.closed = true := by
  have log : v.log = v.wrote ++ [[]] := by simp [View.log, h.closed]
  have reached : v.acked ≤ w.receiver.expected := forth.known v.acked List.mem_cons_self
  have theirs : w.accepted = v.log := by
    refine back.delivered.eq_of_length_le ?_
    rw [back.counted]
    exact Nat.le_trans h.acked reached
  have ours : v.accepted = w.log := by
    refine forth.delivered.eq_of_length ?_
    rw [forth.counted]
    exact forth.toDelivers.expected_eq_of_ended back.toDelivers h.peerEnded
  have closed : w.closed = true := by
    have marker : [] ∈ w.wrote ++ endMarker w.closed := by
      have accepted : [] ∈ v.accepted := forth.ended.mp h.peerEnded
      rwa [ours] at accepted
    cases closed : w.closed with
    | true => rfl
    | false =>
      rw [closed, endMarker_false, List.append_nil] at marker
      exact absurd marker back.nonempty
  refine ⟨theirs.trans log, ?_, closed⟩
  rw [ours]
  simp [View.log, closed]

end View

/-! ## Why a stream that is held ends gracefully -/

/-- The faults of a peer are named as such wherever they are found. -/
theorem Frame.accuses_of_decode {data : Bytes} {e : Error} (refused : Frame.decode data = .error e) :
    e.accuses = true := by
  obtain ⟨detail, -, rfl⟩ := Frame.decode_eq_error_iff.mp refused
  rfl

theorem Receiver.accuses_of_chunk {r : Receiver} {ackFrequency seq : Nat} {payload : Bytes} {e : Error}
    (refused : r.chunk ackFrequency seq payload = .error e) : e.accuses = true := by
  obtain ⟨rfl, ended⟩ := Receiver.chunk_eq_error refused
  unfold Receiver.chunk at refused
  rw [if_neg (Nat.lt_irrefl _), if_neg (Nat.lt_irrefl _), if_pos ended] at refused
  cases refused
  rfl

namespace Endpoint

variable {s s' : Endpoint}

/-- A frame fails the stream by the fault of the peer, or because the stream has ended already. -/
theorem apply_eq_error {f : Frame} {e : Error} (applied : s.apply f = (s', .error e)) :
    e.accuses = true ∨ s.buffer.aborted = some e := by
  have counted : ∀ {count cursor}, s.buffered (s.buffer.take count cursor) = (s', .error e) →
      e.accuses = true ∨ s.buffer.aborted = some e := by
    intro count cursor taken
    obtain ⟨e', aborted, outcome⟩ | ⟨-, -, -, outcome⟩ | ⟨-, -, detail, outcome⟩ :=
      s.buffer.take_cases count cursor
    · rw [outcome] at taken
      cases taken
      exact .inr aborted
    · rw [outcome] at taken
      cases taken
    · rw [outcome] at taken
      cases taken
      exact .inl rfl
  cases f with
  | sync count => exact counted applied
  | ack count => exact counted applied
  | chunk seq payload =>
    simp only [apply] at applied
    split at applied
    · cases applied
    · next refused =>
      cases applied
      exact .inl (Receiver.accuses_of_chunk refused)

theorem apply_frame (s : Endpoint) (f : Frame) :
    (s.apply f).1.users = s.users ∧ (s.apply f).1.terminal = s.terminal := by
  cases f with
  | chunk seq payload =>
    simp only [apply]
    split <;> exact ⟨rfl, rfl⟩
  | sync count => exact ⟨rfl, rfl⟩
  | ack count => exact ⟨rfl, rfl⟩

/-- What a delivery leads to, as far as it can end the stream. -/
inductive Leads (s s' : Endpoint) : Effect → Prop where
  | goOn : Leads s s' .goOn
  | linger (peerEnded : s'.receiver.peerEnded = true) (drained : s'.buffer.drained = true) :
    Leads s s' .linger
  | fail {e : Error} (cause : e.accuses = true ∨ s.buffer.aborted = some e) : Leads s s' (.fail e)

theorem deliver_leads (s : Endpoint) (d : Chain.Delivery) :
    (s.deliver d).1.users = s.users ∧ (s.deliver d).1.terminal = s.terminal ∧
      Leads s (s.deliver d).1 (s.deliver d).2 := by
  cases d with
  | stitch seq writer => exact ⟨rfl, rfl, .goOn⟩
  | chunk data =>
    simp only [deliver]
    split
    · next e garbled => exact ⟨rfl, rfl, .fail (.inl (Frame.accuses_of_decode garbled))⟩
    · next f read =>
      obtain ⟨users, terminal⟩ := s.apply_frame f
      split
      · next s' e applied =>
        rw [applied] at users terminal
        exact ⟨users, terminal, .fail (apply_eq_error applied)⟩
      · next s' applied =>
        rw [applied] at users terminal
        split
        · next finished =>
          simp only [Endpoint.finished, Bool.and_eq_true] at finished
          exact ⟨users, terminal, .linger finished.1.2 finished.2⟩
        · exact ⟨users, terminal, .goOn⟩

end Endpoint

namespace Party

variable {p p' : Party}

/-- The stream is about to end gracefully, or has. -/
def Parting (p : Party) : Prop :=
  p.lingers ≠ 0 ∨ p.stream.terminal = some .closed

/-- What an event can do to a stream that is held: it starts to part from its peer only if it is
complete then. -/
structure Ages (p p' : Party) : Prop where
  held : p'.stream.users ≠ 0 → p.stream.users ≠ 0
  parting : p'.stream.users ≠ 0 → p'.Parting → p.Parting ∨ p'.view.Complete

theorem Ages.same (users : p'.stream.users = p.stream.users) (lingers : p'.lingers = p.lingers)
    (terminal : p'.stream.terminal = p.stream.terminal) : p.Ages p' where
  held held := users ▸ held
  parting _ parting := by
    refine .inl ?_
    unfold Parting at parting
    rwa [lingers, terminal] at parting

theorem Ages.refl (p : Party) : p.Ages p :=
  .same rfl rfl rfl

/-- A stream fails by the cause given, unless it has ended already. -/
theorem Ages.fails {e : Error} (users : p'.stream.users = p.stream.users)
    (lingers : p'.lingers = p.lingers)
    (terminal : p'.stream.terminal = some (p.stream.terminal.getD e))
    (cause : e ≠ .closed ∨ p.stream.terminal = some e) : p.Ages p' where
  held held := users ▸ held
  parting _ parting := by
    refine .inl ?_
    obtain lingering | ended := parting
    · exact .inl (lingers ▸ lingering)
    · refine .inr ?_
      rw [terminal] at ended
      have graceful : p.stream.terminal.getD e = .closed := Option.some.inj ended
      cases found : p.stream.terminal with
      | some first =>
        rw [found] at graceful
        exact congrArg some graceful
      | none =>
        rw [found] at graceful cause
        obtain other | same := cause
        · exact absurd graceful other
        · cases same

/-- What is drained and has heard the end of its peer is complete. -/
theorem Sound.complete (h : p.Sound) (peerEnded : p.stream.receiver.peerEnded = true)
    (drained : p.stream.buffer.drained = true) : p.view.Complete := by
  obtain ⟨closed, empty⟩ := Bool.and_eq_true_iff.mp drained
  refine ⟨peerEnded, closed, ?_⟩
  have units : p.stream.buffer.units.length = p.view.log.length - p.stream.buffer.acked :=
    h.holds.length_units
  rw [List.isEmpty_iff.mp empty] at units
  show p.view.log.length ≤ p.stream.buffer.acked
  have := units
  simp only [List.length_nil] at this
  omega

/-! ### Event by event -/

theorem ages_write (p : Party) (chunk : Bytes) : p.Ages (p.write chunk) := by
  obtain ⟨buffer, n, -, -, same⟩ | same := p.write_cases chunk <;>
    rw [same] <;> exact .same rfl rfl rfl

theorem ages_read (p : Party) : p.Ages p.read := by
  obtain ⟨inbox, ended, got, sawEnd, same⟩ := p.read_rest
  rw [same]
  exact .same rfl rfl rfl

theorem ages_share (p : Party) : p.Ages p.share := by
  unfold share
  split
  · exact .refl p
  · next held => exact ⟨fun _ => held, fun _ parting => .inl parting⟩

/-- Only the last user's leave lets a stream linger, and then nobody holds it. -/
theorem ages_letGo (p : Party) : p.Ages p.letGo := by
  have users : p.letGo.stream.users = p.stream.users - 1 := by
    simp only [letGo]
    split <;> rfl
  have others (held : p.stream.users - 1 ≠ 0) :
      p.letGo = { p with stream := { p.stream with users := p.stream.users - 1 } } :=
    if_neg fun last => held last.1
  constructor
  · intro held
    rw [users] at held
    omega
  · intro held parting
    rw [users] at held
    rw [others held] at parting
    exact .inl parting

theorem ages_expire (p : Party) : p.Ages p.expire := by
  unfold expire
  split
  · exact .refl p
  · next lingering => exact ⟨id, fun _ _ => .inl (.inl lingering)⟩

theorem Sound.ages_deliver (h : p.Sound) {d : Chain.Delivery} (sound : (p.deliver d).Sound) :
    p.Ages (p.deliver d) := by
  obtain ⟨users, terminal, leads⟩ := p.stream.deliver_leads d
  unfold deliver at sound ⊢
  generalize p.stream.deliver d = outcome at users terminal leads sound ⊢
  obtain ⟨s, effect⟩ := outcome
  cases leads with
  | goOn => exact .same users rfl terminal
  | linger peerEnded drained =>
    exact ⟨fun held => users ▸ held, fun _ _ => .inr (sound.complete peerEnded drained)⟩
  | @fail e cause =>
    have ended : (s.fail e).terminal = some (p.stream.terminal.getD e) := by
      rw [← terminal]
      rfl
    refine .fails users rfl ended ?_
    rw [← h.aborted_eq]
    refine cause.imp_left fun accuses same => ?_
    rw [same] at accuses
    cases accuses

theorem ages_stitch (p : Party) (k : LinkId) : p.Ages (p.stitch k) := by
  unfold stitch
  split
  · exact .same rfl rfl rfl
  · exact .refl p

theorem Sound.ages_hear (h : p.Sound) (data : Bytes) : p.Ages (p.hear data) := by
  have sound : (p.hear data).Sound := (h.hear_takes data).1
  have listened : Sound { p with heard := p.heard ++ (countOf? data).toList } :=
    ⟨h.holds, h.aborted_eq, h.dead_eq, h.got_nonempty, h.ended_of_sawEnd⟩
  have aged := listened.ages_deliver sound
  exact ⟨aged.held, aged.parting⟩

theorem ages_take (p : Party) : p.Ages p.take := by
  unfold take
  split
  · exact .refl p
  · obtain next | next | ⟨k, rest, -, next⟩ | ⟨f, rest, -, next⟩ | ⟨k, buffer, seq, unit, -, -, -, next⟩ :=
      nextAction?_cases p.stream
    all_goals
      rw [next]
      exact .same rfl rfl rfl

theorem ages_sent (p : Party) (answer : Except Chain.Error Unit) : p.Ages (p.sent answer) := by
  unfold sent
  split
  · exact .same rfl rfl rfl
  · exact .same rfl rfl rfl
  · next e failed =>
    refine .fails rfl rfl rfl (.inl ?_)
    unfold Endpoint.Sent.ofResult at failed
    split at failed <;> cases failed
    exact nofun

end Party

namespace Duplex

variable {d : Duplex} {side : Side}

/-- At both ends, when it happens at one of them. -/
theorem ages_setParty {p : Party} (aged : (d.party side).Ages p) (s : Side) :
    (d.party s).Ages ((d.setParty side p).party s) := by
  cases side <;> cases s <;> first | exact aged | exact .refl _

theorem ages_receive (h : d.Sound) (side s : Side) :
    (d.party s).Ages ((d.receive side).party s) := by
  unfold receive
  split
  · exact .refl _
  · next data rest arriving =>
    split
    · have heard := (h side).ages_hear data
      cases side <;> cases s
      · exact heard
      · exact .same rfl rfl rfl
      · exact .same rfl rfl rfl
      · exact heard
    · exact .refl _

theorem ages_pass (d : Duplex) (side : Side) (answer : Except Chain.Error Unit) (s : Side) :
    (d.party s).Ages ((d.pass side answer).party s) := by
  simp only [pass]
  match (d.party side).hand, (d.party side).stream.writer with
  | none, _ => exact .refl _
  | some data, none =>
    exact ages_setParty (p := { d.party side with hand := none }) (.same rfl rfl rfl) s
  | some data, some k =>
    cases answer with
    | ok u =>
      have sent := Party.ages_sent
        { d.party side with
          flight := if k ∈ d.cut then (d.party side).flight else (d.party side).flight ++ [(k, data)] }
        (.ok u)
      exact ages_setParty ⟨sent.held, sent.parting⟩ s
    | error e =>
      simp only [party_cut]
      exact ages_setParty (Party.ages_sent _ (.error e)) s

theorem ages_step (h : d.Sound) (side : Side) (act : Act) (s : Side) :
    (d.party s).Ages ((d.step (side, act)).party s) := by
  have failed (e : Chain.Error) : (d.party side).Ages ((d.party side).fail (.chain e)) := by
    refine .fails rfl rfl rfl (.inl ?_)
    intro same
    cases same
  cases act with
  | write chunk => exact ages_setParty (Party.ages_write _ chunk) s
  | close => exact ages_setParty (p := (d.party side).close) (.same rfl rfl rfl) s
  | read => exact ages_setParty (Party.ages_read _) s
  | share => exact ages_setParty (Party.ages_share _) s
  | letGo => exact ages_setParty (Party.ages_letGo _) s
  | kill => exact ages_setParty (failed .killed) s
  | expire => exact ages_setParty (Party.ages_expire _) s
  | stitch k => exact ages_setParty (Party.ages_stitch _ k) s
  | receive => exact ages_receive h side s
  | lose e =>
    simp only [step]
    split
    · have failed := failed e
      exact ages_setParty (p := (d.party side).stopReading (.chain e)) ⟨failed.held, failed.parting⟩ s
    · exact .refl _
  | take => exact ages_setParty (Party.ages_take _) s
  | pass answer => exact ages_pass d side answer s
  | cut k =>
    rw [step, party_cut]
    exact .refl _

/-- Complete ends stay complete. -/
theorem complete_step (h : d.Sound) (side : Side) (act : Act) {s : Side}
    (complete : (d.party s).view.Complete) : ((d.step (side, act)).party s).view.Complete := by
  have exchanged := (exchanged_step h side act).exchange
  have kept : ∀ {v w v' w' : View} {cut cut' : List LinkId}, View.Exchange v w cut v' w' cut' →
      (v.Complete → v'.Complete) ∧ (w.Complete → w'.Complete) := by
    intro v w v' w' cut cut' exchange
    cases exchange with
    | acts more act => exact ⟨fun complete => complete.acts act, id⟩
    | takes inFlight first act =>
      exact ⟨fun complete => complete.takes act, fun complete => ⟨complete.1, complete.2, complete.3⟩⟩
  cases side <;> cases s
  · exact (kept exchanged).1 complete
  · exact (kept exchanged).2 complete
  · exact (kept exchanged).2 complete
  · exact (kept exchanged).1 complete

theorem complete_run (h : d.Sound) (events : List Event) {s : Side}
    (complete : (d.party s).view.Complete) : ((d.run events).party s).view.Complete := by
  have both := run_induction (P := fun d => d.Sound ∧ (d.party s).view.Complete) ⟨h, complete⟩
    (fun d (side, act) ⟨sound, complete⟩ =>
      ⟨(exchanged_step sound side act).sound, complete_step sound side act complete⟩) events
  exact both.2

/-- An end that parts from its peer while a user holds it is complete. -/
def Gracious (d : Duplex) : Prop :=
  ∀ s, (d.party s).stream.users ≠ 0 → (d.party s).Parting → (d.party s).view.Complete

theorem gracious_run (id : Chain.Id) (near far : Config) (events : List Event) :
    ((start id near far).run events).Gracious := by
  have both := run_induction (P := fun d => d.Sound ∧ d.Gracious) (d := start id near far)
    ⟨sound_start id near far, ?_⟩ ?_ events
  · exact both.2
  · intro s held parting
    cases s <;> obtain lingering | ended := parting
    · exact absurd rfl lingering
    · cases ended
    · exact absurd rfl lingering
    · cases ended
  · rintro d ⟨side, act⟩ ⟨sound, gracious⟩
    refine ⟨(exchanged_step sound side act).sound, fun s held parting => ?_⟩
    have aged := ages_step sound side act s
    obtain before | complete := aged.parting held parting
    · exact complete_step sound side act (gracious s (aged.held held) before)
    · exact complete

/-- A graceful end means that nothing was lost. Whatever the run, if the error that ended one side is the
graceful one while a user still holds that side, then it had closed its write side, and its peer has
accepted every chunk that it wrote and its end marker; and it has accepted every chunk that the peer
wrote, and the peer's end marker behind them. So it stays, whatever happens later. -/
theorem graceful_end_lost_nothing (id : Chain.Id) (near far : Config) (events later : List Event)
    (side : Side)
    (ended : (((start id near far).run events).party side).stream.terminal = some .closed)
    (held : (((start id near far).run events).party side).stream.users ≠ 0) :
    let d := (start id near far).run (events ++ later)
    let p := d.party side
    let q := d.party side.opposite
    p.stream.buffer.closed = true ∧ q.accepted = p.wrote ++ [[]] ∧
      p.stream.receiver.peerEnded = true ∧ q.stream.buffer.closed = true ∧
      p.accepted = q.wrote ++ [[]] := by
  intro d p q
  have complete : p.view.Complete := by
    have before := gracious_run id near far events side held (.inr ended)
    have sound := (agrees_run id near far events).1
    have after := complete_run sound later before
    rw [run, run, ← List.foldl_append] at after
    exact after
  obtain ⟨-, agrees⟩ : d.Sound ∧ d.Obeys View.Agrees := agrees_run id near far (events ++ later)
  obtain ⟨theirs, ours, closed⟩ := complete.delivered (agrees side) (agrees.back side)
  exact ⟨complete.closed, theirs, complete.peerEnded, closed, ours⟩

/-- A run in which both ends close, hear of each other's end, and one lingers to the last. -/
def farewell : List Event :=
  [(.near, .write [7]), (.near, .close), (.far, .close), (.near, .stitch 1), (.far, .stitch 1),
    (.near, .take), (.near, .take), (.near, .pass (.ok ())), (.far, .receive),
    (.far, .take), (.far, .take), (.far, .pass (.ok ())), (.near, .receive),
    (.near, .take), (.near, .pass (.ok ())), (.far, .receive),
    (.near, .take), (.near, .pass (.ok ())), (.far, .receive),
    (.far, .take), (.far, .pass (.ok ())), (.near, .receive),
    (.far, .take), (.far, .pass (.ok ())), (.near, .receive), (.near, .expire)]

theorem graceful_end_farewell :
    let d := (start ⟨7⟩ {} {}).run farewell
    d.near.stream.terminal = some .closed ∧ d.near.stream.users ≠ 0 ∧
      d.near.stream.buffer.closed = true ∧ d.far.accepted = [[7], []] ∧ d.near.accepted = [[]] := by
  intro d
  have ended : ((start ⟨7⟩ {} {}).run farewell).near.stream.terminal = some .closed := by
    decide +kernel
  have held : ((start ⟨7⟩ {} {}).run farewell).near.stream.users ≠ 0 := by
    decide +kernel
  obtain ⟨closed, theirs, -, -, ours⟩ :=
    graceful_end_lost_nothing ⟨7⟩ {} {} farewell [] .near ended held
  rw [List.append_nil] at closed theirs ours
  have wrote : d.near.wrote = [[7]] ∧ d.far.wrote = [] := by
    decide +kernel
  refine ⟨ended, held, closed, ?_, ?_⟩
  · exact theirs.trans (congrArg (· ++ [[]]) wrote.1)
  · exact ours.trans (congrArg (· ++ [[]]) wrote.2)

end Duplex

end Tether.Stream
