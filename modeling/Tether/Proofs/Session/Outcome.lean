import Tether.Proofs.Session.Living

/-!
# Connections have one end

The law of one outcome, for a session and any peer: the reads of a connection give the payloads that
came, numbered upwards from zero, and then one answer for good; each write behind the end fails with
the same end. Which end it is, the life of the connection says: the first of a close at this end, an
abort or a gap of the peer, and the end of the session. The end of the session breaks each connection
that is open then, once, and is what every later call on the session answers.
-/

namespace Tether.Session

/-- The cause with which a connection is broken. -/
def Inbound.cause? : Inbound → Option Codec.Error
  | .broken cause => some cause
  | .payload _ | .abort _ => none

/-- The cause with which a session ended a connection. -/
def Error.cause? : Error → Option Codec.Error
  | .session cause => some cause
  | .closed | .aborted _ | .value _ => none

/-- What a connection holds for its reader. -/
def State.inbox (s : State) (k : ConnKey) : List Inbound :=
  (s.conns[k]?.map Conn.inbox).getD []

/-- The cause with which a session ended a connection, if it did. -/
def State.cause? (s : State) (k : ConnKey) : Option Codec.Error :=
  (s.conns[k]?.map Conn.terminal).join.bind Error.cause?

namespace Party

/-- The payloads for a connection that some acts bring. -/
def said (id : ConnId) (acts : List Act) : List (UInt64 × Bytes) :=
  (acts.filterMap Act.envelope?).filterMap (·.payload? id)

/-- What an act hands to a connection. -/
def gained (p p' : Party) (k : ConnKey) : List Inbound :=
  (p'.state.inbox k).drop (p.state.inbox k).length

/-- All that a run hands to a connection. -/
def received (k : ConnKey) : Party → List Act → List Inbound
  | _, [] => []
  | p, act :: acts => p.gained (p.step act) k ++ received k (p.step act) acts

/-- The causes with which a run breaks a connection. -/
def broken (k : ConnKey) (p : Party) (acts : List Act) : List Codec.Error :=
  (received k p acts).filterMap Inbound.cause?

/-- The acts of a run since a connection was opened, and the one that opened it. -/
inductive Since (first : Party) (k : ConnKey) (id : ConnId) : List Act → List Act → Prop
  | intro {earlier later : List Act} {act : Act} (absent : (first.run earlier).state.id? k = none)
    (opened : ((first.run earlier).step act).state.id? k = some id) :
    Since first k id (earlier ++ act :: later) (act :: later)

/-- What the user of a connection gets of a life: the answers of the reads so far, of the next one, and
of each write once it has ended. -/
structure Gives (p : Party) (k : ConnKey) (l : Life) : Prop where
  answered : ∀ {n r}, (p.answers k)[n]? = some r → l.answer? n = some r
  next : (p.state.read? k).map Prod.snd = l.answer? (p.answers k).length
  refused : ∀ {e} data, l.fate = some e →
    Outgoing.start p.state p.stream (.payload k data) = (p.state, p.stream, .settled (.error e))

variable {p p' first : Party} {k : ConnKey} {id : ConnId} {l : Life} {act : Act}

theorem received_concat (p : Party) (acts : List Act) (act : Act) (k : ConnKey) :
    received k p (acts ++ [act]) =
      received k p acts ++ (p.run acts).gained ((p.run acts).step act) k := by
  induction acts generalizing p with
  | nil => exact List.append_nil _
  | cons a acts ih =>
    simp only [List.cons_append, received, ih, List.append_assoc]
    rfl

theorem Since.concat {acts since : List Act} (h : first.Since k id acts since) (act : Act) :
    first.Since k id (acts ++ [act]) (since ++ [act]) := by
  obtain ⟨absent, opened⟩ := h
  simp only [List.append_assoc, List.cons_append]
  exact .intro absent opened

/-! ## Payloads come in order -/

theorem said_concat (id : ConnId) (acts : List Act) (act : Act) :
    said id (acts ++ [act]) = said id acts ++ (act.envelope?.bind (·.payload? id)).toList := by
  unfold said
  rw [List.filterMap_append, List.filterMap_append]
  cases envelope : act.envelope? with
  | none => simp [envelope]
  | some e => cases payload : e.payload? id <;> simp [envelope, payload]

/-- One act adds the payload with the next number that it brings, or nothing. -/
theorem arrived_after (l : Life) (k : ConnKey) (id : ConnId) (act : Act) :
    (numbered (l.after (act.happening? k id)).arrived).Sublist
      (numbered l.arrived ++ (act.envelope?.bind (·.payload? id)).toList) := by
  have same {l' : Life} (arrived : l'.arrived = l.arrived) : (numbered l'.arrived).Sublist
      (numbered l.arrived ++ (act.envelope?.bind (·.payload? id)).toList) := by
    rw [arrived]
    exact List.sublist_append_left _ _
  cases fate : l.fate with
  | some e => exact same (by rw [Life.after_of_fate fate])
  | none =>
    cases happens : act.happening? k id with
    | none => exact same (by rw [l.after_none])
    | some h =>
      rw [Life.after_of_open fate]
      cases h with
      | ended e => exact same rfl
      | said content =>
        cases content with
        | abort reason => exact same rfl
        | payload seq data =>
          have payload : act.envelope?.bind (·.payload? id) = some (seq, data) := by
            obtain ⟨-, same⟩ | ⟨_, -, same⟩ | ⟨_, envelope, same⟩ := Act.happening?_cases happens
            · cases same
            · cases same
            · cases same
              rw [envelope]
              exact if_pos rfl
          unfold Life.meet
          dsimp only
          split
          · exact same rfl
          · next notOld =>
            split
            · exact same rfl
            · next notBeyond =>
              have next := UInt64.le_antisymm (UInt64.not_lt.mp notBeyond) (UInt64.not_lt.mp notOld)
              rw [numbered_concat, payload, next]
              exact List.Sublist.refl _

theorem numbered_through {l : Life} {earlier : List Act} (k : ConnKey) (id : ConnId)
    (before : (numbered l.arrived).Sublist (said id earlier)) (later : List Act) :
    (numbered (l.through k id later).arrived).Sublist (said id (earlier ++ later)) := by
  induction later generalizing earlier l with
  | nil => rwa [List.append_nil]
  | cons act later ih =>
    rw [List.append_cons]
    refine ih ((arrived_after l k id act).trans ?_)
    rw [said_concat]
    exact before.append_right _

/-- The payloads that come to a connection are numbered upwards from zero, and all were said. -/
theorem numbered_sublist_said (k : ConnKey) (id : ConnId) (since : List Act) :
    (numbered (Life.of k id since).arrived).Sublist (said id since) :=
  @numbered_through {} [] k id (List.nil_sublist _) since

/-! ## What is handed over -/

theorem Stepped.answers (h : p.Stepped act p') (k : ConnKey) (id : ConnId) :
    p'.answers k = p.answers k ∨ act.happening? k id = none ∧ p.state.id? k ≠ none ∧
      ∃ r, p'.answers k = p.answers k ++ [r] := by
  cases h with
  | plain _ _ _ still _ => exact .inl (answers_congr still.reads k)
  | dialed _ _ _ => exact .inl rfl
  | @read l state r given =>
    have answers : ({ p with state, reads := p.reads ++ [(l, r)] } : Party).answers k =
        p.answers k ++ if l = k then [r] else [] := answers_concat rfl k
    by_cases here : l = k
    · obtain ⟨c, -, conn, -⟩ := State.read?_eq_some given
      have known := State.id?_of_getElem? (here ▸ conn)
      rw [if_pos here] at answers
      exact .inr ⟨rfl, known ▸ nofun, r, answers⟩
    · rw [if_neg here, List.append_nil] at answers
      exact .inl answers
  | closed _ _ reads _ => exact .inl (answers_congr reads k)
  | finished _ => exact .inl rfl
  | heard _ _ reads _ => exact .inl (answers_congr reads k)

theorem Stepped.answers_of_absent (h : p.Stepped act p') (absent : p.state.id? k = none) :
    p'.answers k = p.answers k := by
  obtain same | ⟨-, known, -⟩ := h.answers k ⟨0⟩
  · exact same
  · exact absurd absent known

theorem inbox_of_absent (absent : p.state.id? k = none) : p.state.inbox k = [] := by
  rw [State.inbox, Option.map_eq_none_iff.mp absent]
  rfl

theorem Follows.inbox (h : p.Follows k l) (known : p.state.id? k = some id) :
    p.state.inbox k = l.handed.drop (p.answers k).length := by
  obtain ⟨c, conn, -⟩ := Option.map_eq_some_iff.mp known
  rw [State.inbox, conn]
  exact (h.shows conn).inbox

theorem Follows.within (h : p.Follows k l) (known : p.state.id? k = some id) (goesOn : l.fate = none) :
    (p.answers k).length ≤ l.handed.length := by
  obtain ⟨c, conn, -⟩ := Option.map_eq_some_iff.mp known
  exact Nat.le_trans ((h.shows conn).within goesOn) l.arrived_length_le

/-- An act hands to a connection what it adds to its life. -/
theorem Follows.gained (h : p.Follows k l) (known : p.state.id? k = some id)
    (h' : p'.Follows k (l.after (act.happening? k id))) (known' : p'.state.id? k = some id)
    (stepped : p.Stepped act p') :
    l.handed ++ p.gained p' k = (l.after (act.happening? k id)).handed := by
  obtain ⟨more, longer⟩ := l.handed_after (act.happening? k id)
  rw [Party.gained, h.inbox known, h'.inbox known', ← longer, List.length_drop, List.drop_drop,
    List.append_cancel_left_eq]
  obtain answers | ⟨happens, -, r, answers⟩ := stepped.answers k id
  · rw [answers]
    by_cases all : (p.answers k).length ≤ l.handed.length
    · rw [Nat.add_sub_cancel' all, List.drop_left]
    · cases fate : l.fate with
      | none => exact absurd (h.within known fate) all
      | some e =>
        rw [Life.after_of_fate fate, List.append_right_eq_self] at longer
        rw [longer, List.append_nil, List.drop_eq_nil_of_le (by omega)]
  · rw [happens, l.after_none, List.append_right_eq_self] at longer
    rw [answers, longer, List.append_nil, List.length_append, List.length_singleton,
      List.drop_eq_nil_of_le (by omega)]

/-- A connection begins its life with the act that opens it. -/
theorem Opened.follows (h : p.Opened act id p') (filed : p.state.Filed)
    (unread : p.answers p.state.conns.size = []) :
    p'.Follows p.state.conns.size (Life.of p.state.conns.size id [act]) := by
  have older {a : Entry} (mem : a ∈ p.state.table) : a.conn ≠ p.state.conns.size :=
    State.ne_size (filed.entry mem).1
  have last {inbox : List Inbound} {name : ConnId} :
      (p.state.conns.push { id := name, inbox })[p.state.conns.size]? = some { id := name, inbox } :=
    Array.getElem?_push_size
  cases h with
  | dialed _ _ _ =>
    refine ⟨fun {c} conn => ?_, fun {a} mem here => ?_⟩
    · cases last.symm.trans conn
      have answers : p.dials.answers p.state.conns.size = [] := unread
      rw [answers]
      exact .new _
    · obtain rfl | mem := List.mem_cons.mp mem
      · rfl
      · exact absurd here (older mem)
  | @heard _ e data _ envelope content _ _ _ state reads _ =>
    rw [Act.life_of_first envelope content]
    refine ⟨fun {c} conn => ?_, fun {a} mem here => ?_⟩
    · rw [state] at conn
      cases last.symm.trans conn
      rw [answers_congr reads, unread]
      exact (Conn.Shows.new e.conn).deliver rfl data
    · rw [state] at mem
      obtain rfl | mem := List.mem_cons.mp mem
      · rfl
      · exact absurd here (older mem)

/-! ## What holds after every run -/

/-- What a run has made of the connections. -/
structure Traced (first : Party) (acts : List Act) (p : Party) : Prop where
  absent : ∀ {k}, p.state.id? k = none → p.answers k = [] ∧ received k first acts = []
  known : ∀ {k id}, p.state.id? k = some id → ∃ since, first.Since k id acts since ∧
    p.Follows k (Life.of k id since) ∧ received k first acts = (Life.of k id since).handed

theorem traced_start (side : Role) (stream : Stream.Endpoint) :
    Traced (start side stream) [] (start side stream) :=
  ⟨fun _ => ⟨rfl, rfl⟩, nofun⟩

/-- One more act adds to the lives of the connections that there are, and begins that of one that it
opens. -/
theorem Traced.stepped {acts : List Act} (h : first.Traced acts p) (reached : first.run acts = p)
    (filed : p.state.Filed) (stepped : p.Stepped act (p.step act)) :
    first.Traced (acts ++ [act]) (p.step act) := by
  have received (k : ConnKey) :
      received k first (acts ++ [act]) = received k first acts ++ p.gained (p.step act) k := by
    rw [received_concat, reached]
  refine ⟨fun {k} absent => ?_, fun {k id} known => ?_⟩
  · have before := stepped.id?_of_absent absent
    obtain ⟨unread, nothing⟩ := h.absent before
    rw [stepped.answers_of_absent before, received, nothing, gained, inbox_of_absent absent]
    exact ⟨unread, List.drop_nil⟩
  · obtain before | ⟨absent, last, opened⟩ := stepped.id?_cases known
    · obtain ⟨since, traced, follows, got⟩ := h.known before
      have follows' := follows.stepped filed before stepped
      refine ⟨since ++ [act], traced.concat act, ?_, ?_⟩
      · rwa [Life.of_concat]
      · rw [received, got, Life.of_concat]
        exact follows.gained before follows' known stepped
    · obtain ⟨unread, nothing⟩ := h.absent absent
      have follows : (p.step act).Follows k (Life.of k id [act]) := by
        subst last
        exact opened.follows filed unread
      have unread' := (stepped.answers_of_absent absent).trans unread
      refine ⟨[act], ?_, follows, ?_⟩
      · rw [← reached] at absent known
        exact .intro absent known
      · rw [received, nothing, gained, inbox_of_absent absent, follows.inbox known, unread']
        rfl

theorem traced_run {side : Role} {stream : Stream.Endpoint} {acts : List Act}
    (fits : side = .dial → ((start side stream).run acts).state.conns.size ≤ UInt64.size) :
    ((start side stream).run acts).state.Tidy side ∧
      Traced (start side stream) acts ((start side stream).run acts) :=
  run_induction (P := Traced (start side stream)) (State.tidy_new side) (traced_start side stream)
    (fun reached tidy stepped traced => traced.stepped reached tidy.filed stepped) fits

/-! ## The end of the session -/

theorem Stepped.ended (h : p.Stepped act p') :
    p'.state.ended = p.state.ended.or act.ending? := by
  cases h with
  | plain ending _ _ still _ => rw [still.ended, ending, Option.or_none]
  | dialed _ _ _ => exact (Option.or_none).symm
  | read given =>
    obtain ⟨c, c', -, -, rfl⟩ := State.read?_eq_some given
    exact (Option.or_none).symm
  | closed _ state _ _ =>
    rw [state]
    exact (Option.or_none).symm
  | @finished _ cause ending =>
    rw [ending]
    unfold State.teardown
    split
    · next ended =>
      rw [ended]
      rfl
    · next alive => rw [alive, Option.none_or]
  | heard envelope dispatched _ _ =>
    rw [Act.ending?_of_envelope envelope, Option.or_none]
    generalize p'.state = state at dispatched
    cases dispatched <;> rfl

theorem ended_run {side : Role} {stream : Stream.Endpoint} {acts : List Act}
    (fits : side = .dial → ((start side stream).run acts).state.conns.size ≤ UInt64.size) :
    ((start side stream).run acts).state.ended = acts.findSome? Act.ending? := by
  refine (run_induction (P := fun acts p => p.state.ended = acts.findSome? Act.ending?)
    (State.tidy_new side) rfl (fun _ _ stepped before => ?_) fits).2
  rw [stepped.ended, before, List.findSome?_append]
  simp

/-- Behind the end of the session nothing ends, and nothing is opened. -/
theorem Stepped.terminal (h : p.Stepped act p') (filed : p.state.Filed) (ended : p.state.ended ≠ none)
    (k : ConnKey) : p'.state.conns[k]?.map Conn.terminal = p.state.conns[k]?.map Conn.terminal := by
  have empty {a : Entry} (mem : a ∈ p.state.table) : False := by
    rw [filed.emptied ended] at mem
    cases mem
  cases h with
  | plain _ _ _ still _ => exact still.conns.map (fun _ => rfl) k
  | dialed _ alive _ => exact absurd alive ended
  | read given =>
    obtain ⟨c, c', conn, read, rfl⟩ := State.read?_eq_some given
    exact State.map_replaceConn conn (Conn.read?_same read).2.2 k
  | closed mem _ _ _ => exact (empty mem).elim
  | finished _ => rw [State.teardown_of_ended ended]
  | heard _ dispatched _ _ =>
    generalize p'.state = state at dispatched
    cases dispatched with
    | ignored _ _ => rfl
    | aborted mem _ _ | delivered mem _ _ | faulted mem _ _ _ => exact (empty mem).elim
    | refused alive _ _ _ _ _ => exact absurd alive ended
    | opened alive _ _ _ => exact absurd alive ended

theorem terminal_run {side : Role} (tidy : p.state.Tidy side) (ended : p.state.ended ≠ none)
    (acts : List Act) (k : ConnKey) :
    (p.run acts).state.conns[k]?.map Conn.terminal = p.state.conns[k]?.map Conn.terminal := by
  induction acts generalizing p with
  | nil => rfl
  | cons act acts ih =>
    have stepped : p.Stepped act (p.step act) :=
      stepped_step tidy.filed fun _ alive => absurd alive ended
    have ended' : (p.step act).state.ended ≠ none := mt (lasts_step p act).state.alive ended
    exact (ih (tidy.stepped stepped) ended').trans (stepped.terminal tidy.filed ended k)

theorem Opened.ending (h : p.Opened act id p') : act.ending? = none := by
  cases h with
  | dialed _ _ _ => rfl
  | heard envelope _ _ _ _ _ _ _ => exact Act.ending?_of_envelope envelope

theorem ending_of_after {cause : Codec.Error} (before : l.fate ≠ some (.session cause))
    (fate : (l.after (act.happening? k id)).fate = some (.session cause)) :
    act.ending? = some cause := by
  cases goesOn : l.fate with
  | some e =>
    rw [Life.after_of_fate goesOn] at fate
    exact absurd fate before
  | none =>
    cases happens : act.happening? k id with
    | none =>
      rw [happens, l.after_none, goesOn] at fate
      cases fate
    | some h =>
      rw [happens, Life.after_of_open goesOn] at fate
      obtain ⟨-, rfl⟩ | ⟨_, ending, rfl⟩ | ⟨content, -, rfl⟩ := Act.happening?_cases happens
      · cases fate
      · cases fate
        exact ending
      · cases content with
        | abort reason => cases fate
        | payload seq data =>
          unfold Life.meet at fate
          dsimp only at fate
          split at fate
          · exact absurd fate before
          · split at fate
            · cases fate
            · exact absurd fate before

/-- A life that is ended by the session has seen the end of the session. -/
theorem ending_of_through {cause : Codec.Error} (before : l.fate ≠ some (.session cause))
    {acts : List Act} (fate : (l.through k id acts).fate = some (.session cause)) :
    ∃ act ∈ acts, act.ending? = some cause := by
  induction acts generalizing l with
  | nil => exact absurd fate before
  | cons act acts ih =>
    by_cases now : (l.after (act.happening? k id)).fate = some (.session cause)
    · exact ⟨act, List.mem_cons_self, ending_of_after before now⟩
    · obtain ⟨act, mem, ending⟩ := ih now fate
      exact ⟨act, List.mem_cons_of_mem _ mem, ending⟩

/-- The end of the session is handed to a connection as often as it ends it. -/
theorem causes_handed (l : Life) :
    l.handed.filterMap Inbound.cause? = (l.fate.bind Error.cause?).toList := by
  have payloads : (l.arrived.map Inbound.payload).filterMap Inbound.cause? = [] := by
    simp [List.filterMap_map, Function.comp_def, Inbound.cause?]
  rw [Life.handed, List.filterMap_append, payloads, List.nil_append]
  cases l.fate with
  | none => rfl
  | some e => cases e <;> rfl

theorem Follows.map_terminal (h : p.Follows k l) (known : p.state.id? k = some id) :
    p.state.conns[k]?.map Conn.terminal = some l.fate := by
  obtain ⟨c, conn, -⟩ := Option.map_eq_some_iff.mp known
  rw [conn, Option.map_some, (h.shows conn).terminal]

theorem Since.subset {acts since : List Act} (h : first.Since k id acts since) :
    ∀ act ∈ since, act ∈ acts := by
  obtain ⟨-, -⟩ := h
  exact fun act mem => List.mem_append_right _ mem

section Broken

variable {side : Role} {stream : Stream.Endpoint} {earlier later : List Act} {cause : Codec.Error}

/-- A connection is broken as often as the session ended it. -/
theorem Traced.broken_eq {acts : List Act} (traced : Traced first acts p) (k : ConnKey) :
    broken k first acts = (p.state.cause? k).toList := by
  unfold State.cause?
  cases known : p.state.id? k with
  | none =>
    rw [broken, (traced.absent known).2, Option.map_eq_none_iff.mp known]
    rfl
  | some id =>
    obtain ⟨since, -, follows, got⟩ := traced.known known
    rw [broken, got, causes_handed, follows.map_terminal known]
    rfl

/-- The act that ends a session gives each open connection that end. The others keep theirs, which is
another. -/
theorem cause?_ending (traced : Traced first earlier p) (filed : p.state.Filed)
    (alive : ∀ act ∈ earlier, act.ending? = none) (stepped : p.Stepped act p')
    (ending : act.ending? = some cause) (k : ConnKey) :
    (p.state.Open k → p'.state.cause? k = some cause) ∧
      (¬p.state.Open k → p'.state.cause? k = none) := by
  have ids : p'.state.id? k = p.state.id? k := by
    obtain ⟨_, opened⟩ | ⟨ids, -⟩ := stepped.opened_or
    · cases opened.ending.symm.trans ending
    · exact ids k
  unfold State.cause?
  cases known : p.state.id? k with
  | none =>
    rw [Option.map_eq_none_iff.mp (ids.trans known)]
    refine ⟨fun ⟨c, conn, _⟩ => ?_, fun _ => rfl⟩
    cases known.symm.trans (State.id?_of_getElem? conn)
  | some id =>
    obtain ⟨since, traced', follows, -⟩ := traced.known known
    have follows' := follows.stepped filed known stepped
    rw [follows'.map_terminal (ids.trans known), Act.happening?_of_ending ending]
    by_cases opened : p.state.Open k
    · rw [Life.after_of_open ((follows.isOpen_iff known).mp opened)]
      exact ⟨fun _ => rfl, fun ended => absurd opened ended⟩
    · obtain ⟨e, fate⟩ := follows.fate_of_not_open known opened
      rw [Life.after_of_fate fate, fate]
      refine ⟨fun opened' => absurd opened' opened, fun _ => ?_⟩
      cases e with
      | closed | aborted _ | value _ => rfl
      | session cause =>
        obtain ⟨act, mem, ending⟩ := ending_of_through (l := {}) nofun fate
        cases (alive act (traced'.subset act mem)).symm.trans ending

/-- The end of the session breaks each connection that is open then, once, and no other. -/
theorem broken_run (fits : side = .dial →
      ((start side stream).run (earlier ++ act :: later)).state.conns.size ≤ UInt64.size)
    (alive : ∀ act ∈ earlier, act.ending? = none) (ending : act.ending? = some cause) (k : ConnKey) :
    let first := start side stream
    ((first.run earlier).state.Open k → broken k first (earlier ++ act :: later) = [cause]) ∧
      (¬(first.run earlier).state.Open k → broken k first (earlier ++ act :: later) = []) := by
  intro first
  have whole : first.run (earlier ++ act :: later) =
      ((first.run earlier).step act).run later := run_append first earlier _
  obtain ⟨tidy, traced⟩ := traced_run (fits_of_append fits)
  have stepped : (first.run earlier).Stepped act ((first.run earlier).step act) :=
    stepped_step tidy.filed fun _ _ dial => by
      subst dial
      cases ending
  have ended : ((first.run earlier).step act).state.ended ≠ none := by
    rw [stepped.ended, ending]
    cases (first.run earlier).state.ended <;> nofun
  -- Behind the end of the session no connection ends and none is opened.
  have rest := terminal_run (tidy.stepped stepped) ended later k
  rw [(traced_run fits).2.broken_eq, whole, State.cause?, rest]
  obtain ⟨opened, shut⟩ := cause?_ending traced tidy.filed alive stepped ending k
  exact ⟨fun held => congrArg Option.toList (opened held),
    fun ended => congrArg Option.toList (shut ended)⟩

end Broken

/-! ## The law -/

theorem Follows.gives (h : p.Follows k l) (filed : p.state.Filed) (known : p.state.id? k = some id) :
    p.Gives k l := by
  obtain ⟨c, conn, -⟩ := Option.map_eq_some_iff.mp known
  have shows := h.shows conn
  refine ⟨shows.answered, ?_, fun {e} data fate => ?_⟩
  · rw [← shows.next, State.read?, conn, h.fed filed known]
    dsimp only
    rw [Option.map_map]
    rfl
  · have refused : p.state.mayStart (.payload k data) = .error e := by
      simp only [State.mayStart, conn, Conn.check, shows.terminal, fate]
    rw [Outgoing.start, refused]

/-- The law of one outcome. After any run, in which the numbers of the connections dialed have not come
round:

* each connection was opened by some act, and its user gets what its life from that act on says; it was
  handed just that, and its payloads are numbered upwards from zero, among those that the peer said;
* the session has ended by the first act that ends it, if there is one. Then the table is empty, later
  dials and, behind the connections that wait, later accepts answer that end, and the run has broken
  each connection that was open at that act once, and no other. -/
theorem one_outcome {side : Role} {stream : Stream.Endpoint} {acts : List Act}
    (fits : side = .dial → ((start side stream).run acts).state.conns.size ≤ UInt64.size) :
    let first := start side stream
    let p := first.run acts
    (∀ {k id}, p.state.id? k = some id → ∃ since, first.Since k id acts since ∧
      p.Gives k (Life.of k id since) ∧ received k first acts = (Life.of k id since).handed ∧
      (numbered (Life.of k id since).arrived).Sublist (said id since)) ∧
    p.state.ended = acts.findSome? Act.ending? ∧
    ∀ {cause}, p.state.ended = some cause →
      p.state.table = [] ∧
      p.state.dial = (p.state, .error (.session cause)) ∧
      (p.state.accepted = [] → p.state.accept? = some (p.state, .error (.session cause))) ∧
      ∃ earlier act later, acts = earlier ++ act :: later ∧ act.ending? = some cause ∧
        (first.run earlier).state.ended = none ∧
        ∀ k, ((first.run earlier).state.Open k → broken k first acts = [cause]) ∧
          (¬(first.run earlier).state.Open k → broken k first acts = []) := by
  intro first p
  obtain ⟨tidy, traced⟩ := traced_run fits
  have ended : p.state.ended = acts.findSome? Act.ending? := ended_run fits
  refine ⟨fun {k id} known => ?_, ended, fun {cause} spent => ⟨?_, ?_, fun line => ?_, ?_⟩⟩
  · obtain ⟨since, opened, follows, got⟩ := traced.known known
    exact ⟨since, opened, follows.gives tidy.filed known, got, numbered_sublist_said k id since⟩
  · exact tidy.filed.emptied (by rw [spent]; nofun)
  · rw [State.dial, spent]
  · have accepting : p.state.accepting = false := tidy.shut (by rw [spent]; nofun)
    rw [State.accept?, line, accepting, State.sessionError, spent]
    rfl
  · rw [ended] at spent
    obtain ⟨earlier, act, later, rfl, ending, alive⟩ := List.findSome?_eq_some_iff.mp spent
    refine ⟨earlier, act, later, rfl, ending, ?_, fun k => broken_run fits alive ending k⟩
    exact (ended_run (fits_of_append fits)).trans (List.findSome?_eq_none_iff.mpr alive)

/-- A run of a dialing session. Of its four connections the first is open at the end of the session,
the peer leaves out a payload of the second and closes the third, and the last is closed here. Each is
read twice behind its end. -/
def fourEnds : List Act :=
  let reads (k : ConnKey) : List Act := [.read k, .read k]
  let said (k seq : UInt64) (data : Bytes) : Act := .hear ⟨⟨k⟩, .payload seq data⟩
  List.replicate 4 .dial ++
    [said 0 0 [1], said 1 0 [7], said 0 0 [1], said 0 1 [2], said 1 2 [8],
      .hear ⟨⟨2⟩, .abort .closed⟩, .hear ⟨⟨2⟩, .abort .gone⟩, .close 3] ++
    [.read 0, .read 0, .read 1] ++ reads 1 ++ reads 2 ++ reads 3 ++ [.shut, .close 0] ++ reads 0

/-- A session that dials, over a stream with default settings. -/
def dialer : Party :=
  start .dial (.new 0 ⟨7⟩ {})

theorem one_outcome_fourEnds :
    (dialer.run fourEnds).state.conns.size ≤ UInt64.size ∧
      (dialer.run fourEnds).answers 0 =
        gives [[1], [2]] ++ List.replicate 2 (.error (.session (.stream .closed))) ∧
      (dialer.run fourEnds).answers 1 =
        gives [[7]] ++ List.replicate 2 (.error (.aborted (State.gap 2 1))) ∧
      (dialer.run fourEnds).answers 2 = List.replicate 2 (.ok none) ∧
      (dialer.run fourEnds).answers 3 = List.replicate 2 (.error .closed) ∧
      (List.range 4).map (broken · dialer fourEnds) = [[.stream .closed], [], [], []] ∧
      (dialer.run fourEnds).state.table = [] ∧
      ∃ since, dialer.Since 1 ⟨1⟩ fourEnds since ∧
        (dialer.run fourEnds).Gives 1 (Life.of 1 ⟨1⟩ since) := by
  have fits : (dialer.run fourEnds).state.conns.size ≤ UInt64.size := by decide +kernel
  have known : (dialer.run fourEnds).state.id? 1 = some ⟨1⟩ := by decide +kernel
  have ended : (dialer.run fourEnds).state.ended = some (.stream .closed) := by decide +kernel
  obtain ⟨lives, -, spent⟩ := @one_outcome .dial (.new 0 ⟨7⟩ {}) fourEnds fun _ => fits
  obtain ⟨since, opened, gives, -⟩ := lives known
  exact ⟨fits, by decide +kernel, by decide +kernel, by decide +kernel, by decide +kernel,
    by decide +kernel, (spent ended).1, since, opened, gives⟩

end Party

end Tether.Session
