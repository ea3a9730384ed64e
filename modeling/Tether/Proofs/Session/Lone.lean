import Tether.Proofs.Session.Ending

/-!
# One session and any peer

The runs that the laws of one session are about. Its reading activity is given what a peer or a
stream makes of it: any chunk, the end of the stream or a failure, at any time. What the users of the
session do, and how its messages move, comes in between in any order. An act that cannot happen
changes nothing.

`Stepped` says once what an act can do to the connections of a session whose table is in order, and
`Changed` what it can make of any state; every invariant follows from the cases of one of them.
-/

namespace Tether.Session

namespace Party

/-- What can happen at a session. -/
inductive Act where
  | dial
  | accept
  | write (conn : ConnKey) (data : Bytes)
  | read (conn : ConnKey)
  | close (conn : ConnKey)
  /-- The session is closed, or its last user lets go. -/
  | shut
  /-- The user lets go of the accepter. -/
  | unlisten
  /-- A message takes its next step. -/
  | move (job : Nat)
  | cancel (job : Nat)
  /-- A read of the stream gives this. -/
  | take (r : Except Stream.Error (Option Bytes))
  /-- The stream comes to stand in another way. -/
  | flow (stream : Stream.Endpoint)

namespace Act

/-- The cause for which an act ends the session. -/
def ending? : Act → Option Codec.Error
  | .shut => some (.stream .closed)
  | .take r =>
    match Codec.ofRead Envelope.unpacked r with
    | .ok (some _) => none
    | .ok none => some (.stream .closed)
    | .error cause => some cause
  | _ => none

/-- The envelope that an act brings. -/
def envelope? : Act → Option Envelope
  | .take r => (Codec.ofRead Envelope.unpacked r).toOption.join
  | _ => none

/-- An envelope comes in. -/
def hear (e : Envelope) : Act :=
  .take (.ok (some e.value.encoding))

variable {act : Act}

theorem envelope?_of_ending {cause : Codec.Error} (ending : act.ending? = some cause) :
    act.envelope? = none := by
  cases act with
  | take r =>
    unfold ending? at ending
    unfold envelope?
    dsimp only at ending ⊢
    split at ending
    · cases ending
    · next given => rw [given]; rfl
    · next given => rw [given]; rfl
  | dial | accept | write | read | close | shut | unlisten | move | cancel | flow => rfl

theorem ending?_of_envelope {e : Envelope} (envelope : act.envelope? = some e) :
    act.ending? = none := by
  cases ending : act.ending? with
  | none => rfl
  | some cause => cases (envelope?_of_ending ending).symm.trans envelope

end Act

def step (p : Party) : Act → Party
  | .dial => p.dial
  | .accept => p.accept
  | .write k data => p.send (.payload k data)
  | .read k => p.read k
  | .close k => p.close k
  | .shut => p.shut
  | .unlisten => { p with state := { p.state with listening := false } }
  | .move i => p.move i
  | .cancel i => p.cancel i
  | .take r => p.take r
  | .flow stream => p.flow stream

/-- A session at its start. -/
def start (role : Role) (stream : Stream.Endpoint) : Party :=
  { state := .new role, stream }

/-- The session after a run. -/
def run (p : Party) (acts : List Act) : Party :=
  acts.foldl step p

variable {p p' : Party} {act : Act}

@[simp]
theorem run_append (p : Party) (earlier later : List Act) :
    p.run (earlier ++ later) = (p.run earlier).run later :=
  List.foldl_append

theorem lasts_step (p : Party) (act : Act) : p.Lasts (p.step act) := by
  cases act with
  | dial => exact .dial p
  | accept => exact .accept p
  | write k data => exact .send p _
  | read k => exact .read p k
  | close k => exact .close p k
  | shut => exact .shut p
  | unlisten => exact .unlisten p
  | move i => exact .move p i
  | cancel i => exact .cancel p i
  | take r => exact .take p r
  | flow stream => exact .flow p stream

theorem lasts_run (p : Party) (acts : List Act) : p.Lasts (p.run acts) :=
  List.foldlRecOn acts step (Lasts.refl p) fun _ lasts act _ => lasts.trans (lasts_step _ act)

theorem state_close (p : Party) (k : ConnKey) : (p.close k).state = (p.state.close k).1 := by
  unfold close
  generalize p.state.close k = outcome
  obtain ⟨s, id⟩ := outcome
  cases id <;> rfl

/-- What an act can make of the state of a session, whatever the table says. -/
inductive Changed (s : State) : Act → State → Prop
  /-- Nothing has changed but what concerns sending. -/
  | sent {act : Act} {s' : State} (goesOn : act.ending? = none) (same : s.SameReading s') :
    Changed s act s'
  | dialed : Changed s .dial s.dial.1
  | accepted (rest : List ConnKey) : Changed s .accept { s with accepted := rest }
  | read {k : ConnKey} {s' : State} {r : Except Error (Option Bytes)}
    (given : s.read? k = some (s', r)) : Changed s (.read k) s'
  | closed (k : ConnKey) : Changed s (.close k) (s.close k).1
  | unlistened : Changed s .unlisten { s with listening := false }
  | routed {act : Act} {s' : State} (goesOn : act.ending? = none) (routed : s.Routed s') :
    Changed s act s'
  | finished {act : Act} {cause : Codec.Error} (ending : act.ending? = some cause) :
    Changed s act (s.teardown cause).1

theorem changed_take (p : Party) (r : Except Stream.Error (Option Bytes)) :
    Changed p.state (.take r) (p.take r).state := by
  unfold take State.intake
  cases given : Codec.ofRead Envelope.unpacked r with
  | error cause => exact .finished (by simp only [Act.ending?, given])
  | ok e =>
    cases e with
    | none => exact .finished (by simp only [Act.ending?, given])
    | some e =>
      have routed := p.state.routed_dispatch e
      dsimp only
      generalize p.state.dispatch e = outcome at routed ⊢
      obtain ⟨state, reason⟩ := outcome
      cases reason <;> exact .routed (by simp only [Act.ending?, given]) routed

/-- An act does nothing else to the state. -/
theorem changed_step (p : Party) (act : Act) : Changed p.state act (p.step act).state := by
  have still {act : Act} (goesOn : act.ending? = none) : Changed p.state act p.state :=
    .sent goesOn (.refl p.state)
  cases act with
  | dial =>
    change Changed p.state .dial p.dial.state
    unfold dial
    split
    · exact .dialed
    · exact still rfl
  | accept =>
    change Changed p.state .accept p.accept.state
    obtain same | ⟨k, rest, -, same⟩ := p.accept_cases <;> rw [same]
    · exact still rfl
    · exact .accepted rest
  | write k data => exact still rfl
  | read k =>
    change Changed p.state (.read k) (p.read k).state
    unfold read
    split
    · next given => exact .read given
    · exact still rfl
  | close k => exact p.state_close k ▸ .closed k
  | shut => exact .finished rfl
  | unlisten => exact .unlistened
  | move i => exact .sent rfl (p.sameReading_move i).state
  | cancel i => exact .sent rfl (p.sameReading_cancel i).state
  | take r => exact changed_take p r
  | flow stream =>
    change Changed p.state (.flow stream) (p.flow stream).state
    unfold flow
    split <;> exact still rfl

/-- A close with nothing in between is its three acts in a row. -/
theorem close_eq_acts {k : ConnKey} {id : ConnId} (listed : p.state.Listed)
    (known : p.state.id? k = some id) (resting : id ∉ p.leaving) (paid : id ∉ p.owing) :
    p.close k = ((p.finish k).forget id).announce id := by
  unfold close
  obtain ⟨ended, same⟩ | ⟨opened, id', known', finished⟩ := p.finish_cases k
  · obtain ⟨-, closed⟩ | ⟨opened, -⟩ := p.state.close_outcomes k
    · rw [same, closed, forget, if_neg resting, announce, if_neg paid]
    · exact absurd opened ended
  cases known.symm.trans known'
  obtain ⟨e, mem, rfl, closed⟩ := State.close_of_open listed opened
  cases (listed.named mem).symm.trans known
  rw [finished, closed, forget, if_pos (List.mem_append_right _ List.mem_cons_self)]
  obtain ⟨gone, -⟩ | ⟨-, forgotten⟩ :=
    (p.state.modifyConn e.conn (·.finish .closed)).forget?_cases e.id
  · exact absurd ⟨e, mem, rfl⟩ gone
  · dsimp only
    rw [forgotten, announce, if_pos (List.mem_append_right _ List.mem_cons_self)]
    simp only [List.erase_append_right _ resting, List.erase_append_right _ paid,
      List.erase_cons_head, List.append_nil]
    rfl

/-! ## What an act can do -/

/-- Nothing has changed but what concerns sending, and who holds the connections. -/
structure Still (p p' : Party) : Prop where
  conns : p.state.SameConns p'.state
  table : p'.state.table = p.state.table
  role : p'.state.role = p.state.role
  nextId : p'.state.nextId = p.state.nextId
  accepting : p'.state.accepting = p.state.accepting
  ended : p'.state.ended = p.state.ended
  reads : p'.reads = p.reads
  queue : p'.handed ++ p'.state.accepted = p.handed ++ p.state.accepted

/-- What an act can lead to. -/
inductive Stepped (p : Party) : Act → Party → Prop
  | plain {act : Act} {p' : Party} (ending : act.ending? = none) (envelope : act.envelope? = none)
    (closes : ∀ k, act = .close k → ¬p.state.Open k) (still : p.Still p')
    (listens : p'.state.listening = true ↔ p.state.listening = true ∧ act ≠ .unlisten) :
    Stepped p act p'
  | dialed (role : p.state.role = .dial) (alive : p.state.ended = none)
    (new : ∀ k, p.state.id? k ≠ some ⟨p.state.nextId⟩) : Stepped p .dial p.dials
  | read {k : ConnKey} {state : State} {r : Except Error (Option Bytes)}
    (given : p.state.read? k = some (state, r)) :
    Stepped p (.read k) { p with state, reads := p.reads ++ [(k, r)] }
  | closed {a : Entry} {p' : Party} (mem : a ∈ p.state.table)
    (state : p'.state = p.state.retire a (·.finish .closed)) (reads : p'.reads = p.reads)
    (handed : p'.handed = p.handed) : Stepped p (.close a.conn) p'
  | finished {act : Act} {cause : Codec.Error} (ending : act.ending? = some cause) :
    Stepped p act { p with state := (p.state.teardown cause).1 }
  | heard {act : Act} {e : Envelope} {reason : Option Reason} {p' : Party}
    (envelope : act.envelope? = some e) (dispatched : p.state.Dispatched e (p'.state, reason))
    (reads : p'.reads = p.reads) (handed : p'.handed = p.handed) : Stepped p act p'

/-- An act opens a connection under the given name. -/
inductive Opened (p : Party) : Act → ConnId → Party → Prop
  | dialed (role : p.state.role = .dial) (alive : p.state.ended = none)
    (new : ∀ k, p.state.id? k ≠ some ⟨p.state.nextId⟩) : Opened p .dial ⟨p.state.nextId⟩ p.dials
  | heard {act : Act} {e : Envelope} {data : Bytes} {p' : Party} (envelope : act.envelope? = some e)
    (content : e.content = .payload 0 data) (alive : p.state.ended = none) (welcome : p.state.Welcomes)
    (unknown : ∀ a ∈ p.state.table, a.id ≠ e.conn)
    (state : p'.state = { p.state.enroll e.conn [.payload data] 1 with
      accepted := p.state.accepted ++ [p.state.conns.size] }) (reads : p'.reads = p.reads)
    (handed : p'.handed = p.handed) : Opened p act e.conn p'

theorem Still.refl (p : Party) : p.Still p :=
  ⟨fun _ => rfl, rfl, rfl, rfl, rfl, rfl, rfl, rfl⟩

theorem Still.of_sameReading (same : p.SameReading p') : p.Still p' := by
  have role := congrArg State.role same.state.rest
  have nextId := congrArg State.nextId same.state.rest
  have accepting := congrArg State.accepting same.state.rest
  have accepted := congrArg State.accepted same.state.rest
  dsimp only at accepted
  exact ⟨same.state.conns, same.state.table, role, nextId, accepting, same.state.ended, same.reads,
    by rw [same.handed, accepted]⟩

theorem Still.accept (p : Party) : p.Still p.accept := by
  obtain same | ⟨k, rest, line, same⟩ := p.accept_cases
  · rw [same]
    exact .refl p
  · rw [same]
    exact ⟨fun _ => rfl, rfl, rfl, rfl, rfl, rfl, rfl, by simp [line]⟩

theorem listening_accept (p : Party) : p.accept.state.listening = p.state.listening := by
  obtain same | ⟨k, rest, -, same⟩ := p.accept_cases <;> rw [same]

/-- Nothing is done that a reader or the peer could tell. -/
theorem Stepped.of_still (ending : act.ending? = none) (envelope : act.envelope? = none)
    (closes : ∀ k, act = .close k → ¬p.state.Open k) (still : p.Still p')
    (same : p'.state.listening = p.state.listening) (other : act ≠ .unlisten) : p.Stepped act p' :=
  .plain ending envelope closes still (by simp [same, other])

theorem stepped_dial (filed : p.state.Filed)
    (new : p.state.role = .dial → p.state.ended = none → ∀ k, p.state.id? k ≠ some ⟨p.state.nextId⟩) :
    p.Stepped .dial p.dial := by
  have nothing : p.Stepped .dial p := .of_still rfl rfl nofun (.refl p) rfl nofun
  unfold dial
  split
  · next role =>
    by_cases alive : p.state.ended = none
    · have dialed := p.state.dial_of_alive alive (filed.unknown (new role alive))
      rw [dialed]
      exact .dialed role alive (new role alive)
    · rw [State.dial_of_ended alive]
      exact nothing
  · exact nothing

theorem stepped_read (p : Party) (k : ConnKey) : p.Stepped (.read k) (p.read k) := by
  unfold read
  split
  · next given => exact .read given
  · exact .of_still rfl rfl nofun (.refl p) rfl nofun

theorem stepped_close (filed : p.state.Filed) (k : ConnKey) : p.Stepped (.close k) (p.close k) := by
  by_cases opened : p.state.Open k
  · obtain ⟨a, mem, rfl, closed⟩ := State.close_of_open filed.toListed opened
    unfold close
    rw [closed]
    exact .closed mem rfl rfl rfl
  · have nothing : p.state.close k = (p.state, none) := by
      obtain same | ⟨a, mem, rfl, -⟩ := State.close_cases filed.toListed k
      · exact same
      · exact absurd (filed.entry mem).2 opened
    unfold close
    rw [nothing]
    exact .of_still rfl rfl (fun _ same => by cases same; exact opened) (.refl p) rfl nofun

theorem stepped_take (filed : p.state.Filed) (r : Except Stream.Error (Option Bytes)) :
    p.Stepped (.take r) (p.take r) := by
  cases given : Codec.ofRead Envelope.unpacked r with
  | error cause =>
    have ending : (Act.take r).ending? = some cause := by simp only [Act.ending?, given]
    unfold take State.intake
    rw [given]
    exact .finished ending
  | ok e =>
    cases e with
    | none =>
      have ending : (Act.take r).ending? = some (.stream .closed) := by simp only [Act.ending?, given]
      unfold take State.intake
      rw [given]
      exact .finished ending
    | some e =>
      have envelope : (Act.take r).envelope? = some e := by
        simp only [Act.envelope?, given]
        rfl
      obtain ⟨state, reason, dispatched, taken⟩ := take_cases filed.toListed given
      rw [taken]
      cases reason <;> exact .heard envelope dispatched rfl rfl

/-- An act has no other outcomes. -/
theorem stepped_step (filed : p.state.Filed)
    (new : p.state.role = .dial → p.state.ended = none →
      act = .dial → ∀ k, p.state.id? k ≠ some ⟨p.state.nextId⟩) : p.Stepped act (p.step act) := by
  have quiet {act : Act} (same : p.SameReading (p.step act)) (ending : act.ending? = none)
      (envelope : act.envelope? = none) (closes : ∀ k, act ≠ .close k) (other : act ≠ .unlisten) :
      p.Stepped act (p.step act) :=
    .of_still ending envelope (fun k close => absurd close (closes k)) (.of_sameReading same)
      same.state.listening other
  cases act with
  | dial => exact stepped_dial filed fun role alive => new role alive rfl
  | accept => exact .of_still rfl rfl nofun (.accept p) p.listening_accept nofun
  | write k data => exact quiet ⟨.refl _, rfl, rfl, rfl, rfl, rfl, rfl⟩ rfl rfl nofun nofun
  | read k => exact stepped_read p k
  | close k => exact stepped_close filed k
  | shut => exact .finished rfl
  | unlisten =>
    exact .plain rfl rfl nofun ⟨fun _ => rfl, rfl, rfl, rfl, rfl, rfl, rfl, rfl⟩ (by simp [step])
  | move i => exact quiet (sameReading_move p i) rfl rfl nofun nofun
  | cancel i => exact quiet (sameReading_cancel p i) rfl rfl nofun nofun
  | take r => exact stepped_take filed r
  | flow stream =>
    obtain ⟨stream', same⟩ := p.flow_eq stream
    refine quiet ?_ rfl rfl nofun nofun
    change p.SameReading (p.flow stream)
    rw [same]
    exact ⟨.refl _, rfl, rfl, rfl, rfl, rfl, rfl⟩

/-- The connection that is opened comes last. -/
theorem Opened.id? {id : ConnId} (h : p.Opened act id p') (k : ConnKey) :
    p'.state.id? k = if k = p.state.conns.size then some id else p.state.id? k := by
  cases h with
  | dialed _ _ _ => exact id?_dials k
  | @heard _ e data _ _ _ _ _ _ state _ _ =>
    rw [state]
    exact @State.map_enroll p.state e.conn _ 1 _ Conn.id k

/-- An act opens a connection, or it leaves those that there are and all that wait to be accepted or
were. -/
theorem Stepped.opened_or (h : p.Stepped act p') : (∃ id, p.Opened act id p') ∨
    (∀ k, p'.state.id? k = p.state.id? k) ∧
      p'.handed ++ p'.state.accepted = p.handed ++ p.state.accepted := by
  cases h with
  | plain _ _ _ still _ => exact .inr ⟨still.conns.ids, still.queue⟩
  | dialed role alive new => exact .inl ⟨_, .dialed role alive new⟩
  | read given =>
    have ids := (State.sameSending_read given).ids
    obtain ⟨c, c', -, -, rfl⟩ := State.read?_eq_some given
    exact .inr ⟨ids, rfl⟩
  | closed _ state _ handed =>
    rw [state, handed]
    exact .inr ⟨State.id?_retire fun _ => rfl, rfl⟩
  | @finished _ cause _ =>
    have accepted := congrArg State.accepted (p.state.teardown_rest cause)
    dsimp only at accepted
    exact .inr ⟨(State.sameSending_teardown cause p.state).ids, by rw [accepted]⟩
  | heard envelope dispatched reads handed =>
    rw [handed]
    generalize here : p'.state = state at dispatched
    cases dispatched with
    | ignored _ _ => exact .inr ⟨fun _ => rfl, rfl⟩
    | aborted _ _ _ | faulted _ _ _ _ =>
      exact .inr ⟨State.id?_retire fun _ => rfl, rfl⟩
    | delivered _ _ _ => exact .inr ⟨State.id?_deliver _, rfl⟩
    | refused _ _ _ _ _ _ => exact .inr ⟨fun _ => rfl, rfl⟩
    | opened alive welcome unknown content =>
      exact .inl ⟨_, .heard envelope content alive welcome unknown here reads handed⟩

theorem Stepped.id?_cases (h : p.Stepped act p') {k : ConnKey} {id : ConnId}
    (known : p'.state.id? k = some id) : p.state.id? k = some id ∨
      p.state.id? k = none ∧ k = p.state.conns.size ∧ p.Opened act id p' := by
  obtain ⟨name, opened⟩ | ⟨ids, -⟩ := h.opened_or
  · rw [opened.id?] at known
    split at known
    · next last =>
      cases known
      exact .inr ⟨last ▸ State.id?_size, last, opened⟩
    · exact .inl known
  · exact .inl (ids k ▸ known)

theorem Stepped.id?_of_absent (h : p.Stepped act p') {k : ConnKey} (absent : p'.state.id? k = none) :
    p.state.id? k = none := by
  obtain ⟨name, opened⟩ | ⟨ids, -⟩ := h.opened_or
  · rw [opened.id?] at absent
    split at absent
    · cases absent
    · exact absent
  · exact ids k ▸ absent

/-! ## What holds after every run -/

end Party

namespace State

/-- A session is in order. -/
structure Tidy (side : Role) (s : State) : Prop where
  role : s.role = side
  filed : s.Filed
  shut : s.ended ≠ none → s.accepting = false
  welcomes : side = .accept → s.ended = none → s.listening = true → s.accepting = true
  nextId : side = .dial → s.nextId = UInt64.ofNat s.conns.size
  dialed : side = .dial → ∀ {k id}, s.id? k = some id → id = ⟨UInt64.ofNat k⟩

namespace Tidy

variable {side : Role} {s s' : State}

/-- Every connection keeps its name, and none is added. -/
theorem congr (h : s.Tidy side) (role : s'.role = s.role) (filed : s'.Filed)
    (shut : s'.ended ≠ none → s'.accepting = false)
    (welcomes : side = .accept → s'.ended = none → s'.listening = true → s'.accepting = true)
    (nextId : s'.nextId = s.nextId) (ids : ∀ k, s'.id? k = s.id? k) : s'.Tidy side := by
  refine ⟨role.trans h.role, filed, shut, welcomes, fun dials => ?_, fun dials k id known => ?_⟩
  · rw [nextId, size_congr ids]
    exact h.nextId dials
  · exact h.dialed dials (ids k ▸ known)

theorem retire (h : s.Tidy side) {a : Entry} (mem : a ∈ s.table) {f : Conn → Conn}
    (ids : ∀ c, (f c).id = c.id) (ends : ∀ c, (f c).terminal ≠ none) : (s.retire a f).Tidy side :=
  h.congr rfl (h.filed.retire mem ids ends) h.shut h.welcomes rfl (id?_retire ids)

theorem dial (h : s.Tidy side) (alive : s.ended = none) (new : ∀ k, s.id? k ≠ some ⟨s.nextId⟩) :
    Tidy side { s.enroll ⟨s.nextId⟩ [] 0 with nextId := s.nextId + 1 } := by
  have ids (k : ConnKey) : (s.enroll ⟨s.nextId⟩ [] 0).id? k = if k = s.conns.size then _ else _ :=
    map_enroll Conn.id k
  have filed : (s.enroll ⟨s.nextId⟩ [] 0).Filed := h.filed.enroll alive (h.filed.unknown new)
  refine ⟨h.role, filed.congr (fun _ => rfl) (fun _ => Iff.rfl) rfl rfl,
    fun ended => absurd alive ended, h.welcomes, fun dials => ?_, fun dials k id known => ?_⟩
  · change s.nextId + 1 = UInt64.ofNat (s.conns.push _).size
    rw [Array.size_push, UInt64.ofNat_add, h.nextId dials]
    rfl
  · replace known := (ids k).symm.trans known
    split at known
    · next last =>
      cases known
      rw [last, h.nextId dials]
    · exact h.dialed dials known

theorem dispatched (h : s.Tidy side) {e : Envelope} {reason : Option Reason}
    (dispatched : s.Dispatched e (s', reason)) : s'.Tidy side := by
  cases dispatched with
  | ignored _ _ => exact h
  | aborted mem _ _ => exact h.retire mem (fun _ => rfl) fun _ => nofun
  | delivered mem _ _ =>
    exact h.congr rfl (h.filed.deliver _) h.shut h.welcomes rfl (sameSending_deliver _).ids
  | faulted mem _ _ _ => exact h.retire mem (fun _ => rfl) fun _ => nofun
  | refused alive _ _ _ _ deaf =>
    exact h.congr rfl (h.filed.congr (fun _ => rfl) (fun _ => Iff.rfl) rfl rfl)
      (fun ended => absurd alive ended)
      (fun accepts alive listening => (deaf listening).trans (h.welcomes accepts alive listening)) rfl
      fun _ => rfl
  | @opened data alive welcome unknown _ =>
    have accepts : side = .accept := h.role.symm.trans welcome.role
    have filed : (s.enroll e.conn [.payload data] 1).Filed := h.filed.enroll alive unknown
    exact ⟨h.role, filed.congr (fun _ => rfl) (fun _ => Iff.rfl) rfl rfl,
      fun ended => absurd alive ended, h.welcomes, fun dials => (nomatch accepts.symm.trans dials),
      fun dials => (nomatch accepts.symm.trans dials)⟩

theorem teardown (h : s.Tidy side) (cause : Codec.Error) : (s.teardown cause).1.Tidy side := by
  have rest := s.teardown_rest cause
  have role := congrArg State.role rest
  have nextId := congrArg State.nextId rest
  refine h.congr role (h.filed.teardown cause) (fun _ => ?_)
    (fun _ alive => absurd alive (ended_teardown cause s)) nextId (sameSending_teardown cause s).ids
  unfold State.teardown
  split
  · next ended => exact h.shut (by rw [ended]; nofun)
  · rfl

theorem stepped {p p' : Party} {act : Party.Act} (h : p.state.Tidy side)
    (stepped : p.Stepped act p') : p'.state.Tidy side := by
  cases stepped with
  | plain _ _ _ still listens =>
    have ids := still.conns.ids
    refine h.congr still.role (h.filed.congr ids still.conns.isOpen still.table still.ended) ?_ ?_
      still.nextId ids
    · rw [still.ended, still.accepting]
      exact h.shut
    · rw [still.ended, still.accepting]
      exact fun accepts alive listening => h.welcomes accepts alive (listens.mp listening).1
  | dialed role alive new => exact h.dial alive new
  | read given =>
    have ids := (sameSending_read given).ids
    have filed := h.filed.read given
    obtain ⟨c, c', -, -, rfl⟩ := read?_eq_some given
    exact h.congr rfl filed h.shut h.welcomes rfl ids
  | closed mem state _ _ =>
    rw [state]
    exact h.retire mem (fun _ => rfl) fun _ => nofun
  | finished _ => exact h.teardown _
  | heard _ dispatched _ _ => exact h.dispatched dispatched

end Tidy

theorem tidy_new (side : Role) : (new side).Tidy side :=
  ⟨rfl, ⟨⟨.nil, nofun, nofun, fun _ => rfl⟩, nofun⟩, nofun, fun accepts _ _ => by rw [accepts]; rfl,
    fun _ => rfl, fun _ => nofun⟩

end State

namespace Party

variable {p : Party} {act : Act} {side : Role}

/-- Numbers that have not come round had not before. -/
theorem fits_of_append {first : Party} {earlier later : List Act}
    (fits : side = .dial → (first.run (earlier ++ later)).state.conns.size ≤ UInt64.size)
    (dials : side = .dial) : (first.run earlier).state.conns.size ≤ UInt64.size := by
  have longer := (lasts_run (first.run earlier) later).state.size
  rw [← run_append] at longer
  exact Nat.le_trans longer (fits dials)

/-- The next act of a session in order, if the numbers of the connections dialed do not come round
by it. -/
theorem stepped_of_fits (tidy : p.state.Tidy side)
    (fits : side = .dial → (p.step act).state.conns.size ≤ UInt64.size) : p.Stepped act (p.step act) := by
  refine stepped_step tidy.filed fun role alive dial => ?_
  subst dial
  have dials : side = .dial := tidy.role.symm.trans role
  have room := fits dials
  change p.dial.state.conns.size ≤ _ at room
  unfold Party.dial at room
  rw [role] at room
  dsimp only at room
  rw [State.size_dial alive] at room
  exact State.new_nextId (tidy.dialed dials) (tidy.nextId dials) room

/-- What holds at first and is kept by every act holds after every run in which the numbers of the
connections dialed do not come round. -/
theorem run_induction {P : List Act → Party → Prop} {first : Party} (tidy : first.state.Tidy side)
    (begins : P [] first)
    (concat : ∀ {acts act p}, first.run acts = p → p.state.Tidy side → p.Stepped act (p.step act) →
      P acts p → P (acts ++ [act]) (p.step act)) {acts : List Act}
    (fits : side = .dial → (first.run acts).state.conns.size ≤ UInt64.size) :
    (first.run acts).state.Tidy side ∧ P acts (first.run acts) := by
  have goes (later : List Act) : ∀ earlier, earlier ++ later = acts →
      (first.run earlier).state.Tidy side ∧ P earlier (first.run earlier) →
      (first.run acts).state.Tidy side ∧ P acts (first.run acts) := by
    induction later with
    | nil =>
      intro earlier whole held
      rw [← whole, List.append_nil]
      exact held
    | cons act later ih =>
      intro earlier whole ⟨tidy, held⟩
      have stepped : Stepped _ act (step _ act) := stepped_of_fits tidy fun dials => by
        refine Nat.le_trans ?_ (fits dials)
        rw [← whole, run_append]
        exact (lasts_run _ later).state.size
      refine ih (earlier ++ [act]) (by rw [← whole, List.append_assoc]; rfl) ?_
      rw [run_append]
      exact ⟨tidy.stepped stepped, concat rfl tidy stepped held⟩
  exact goes acts [] rfl ⟨tidy, begins⟩

theorem tidy_run {first : Party} (tidy : first.state.Tidy side) {acts : List Act}
    (fits : side = .dial → (first.run acts).state.conns.size ≤ UInt64.size) :
    (first.run acts).state.Tidy side :=
  (run_induction (P := fun _ _ => True) tidy trivial (fun _ _ _ _ => trivial) fits).1

/-- No connection is forgotten, and none is renamed. -/
theorem id?_run {first : Party} (tidy : first.state.Tidy side) {acts : List Act}
    (fits : side = .dial → (first.run acts).state.conns.size ≤ UInt64.size) {k : ConnKey} {id : ConnId}
    (known : first.state.id? k = some id) : (first.run acts).state.id? k = some id := by
  refine (run_induction (P := fun _ p => p.state.id? k = some id) tidy known
    (fun _ _ stepped before => ?_) fits).2
  obtain ⟨name, opened⟩ | ⟨ids, -⟩ := stepped.opened_or
  · rw [opened.id?, if_neg (State.ne_size before), before]
  · rw [ids, before]

end Party

end Tether.Session
