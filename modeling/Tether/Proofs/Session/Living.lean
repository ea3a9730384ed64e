import Tether.Proofs.Session.Life

/-!
# Connections live as their lives say

A session keeps what it knows of a connection in three places: the table, the state of the connection
and its inbox. Every act, whichever way it goes through the three, leaves them as the life of the
connection says.
-/

namespace Tether.Session

namespace Party

/-- What an act makes happen to the connection with the given handle and number. -/
def Act.happening? (k : ConnKey) (id : ConnId) : Act → Option Happening
  | .close l => if l = k then some (.ended .closed) else none
  | act =>
    match act.ending? with
    | some cause => some (.ended (.session cause))
    | none => act.envelope?.bind fun e => if e.conn = id then some (.said e.content) else none

end Party

/-- A life after some more acts. -/
def Life.through (l : Life) (k : ConnKey) (id : ConnId) (acts : List Party.Act) : Life :=
  acts.foldl (fun l act => l.after (act.happening? k id)) l

/-- The life that some acts give a connection, from the one that opens it on. -/
def Life.of (k : ConnKey) (id : ConnId) (since : List Party.Act) : Life :=
  Life.through {} k id since

theorem Life.arrived_through (l : Life) (k : ConnKey) (id : ConnId) (acts : List Party.Act) :
    l.arrived <+: (l.through k id acts).arrived := by
  induction acts generalizing l with
  | nil => exact List.prefix_refl _
  | cons act acts ih => exact (l.arrived_after _).trans (ih _)

theorem Life.of_concat (k : ConnKey) (id : ConnId) (since : List Party.Act) (act : Party.Act) :
    Life.of k id (since ++ [act]) = (Life.of k id since).after (act.happening? k id) :=
  List.foldl_append

namespace State

variable {s : State} {k : ConnKey}

/-- What the end of a session does to an open connection. -/
def breaking (cause : Codec.Error) (c : Conn) : Conn :=
  (c.finish (.session cause)).hand (.broken cause)

theorem getElem?_retire_of_ne {a : Entry} {f : Conn → Conn} (other : a.conn ≠ k) :
    (s.retire a f).conns[k]? = s.conns[k]? :=
  Array.getElem?_modify.trans (if_neg other)

theorem getElem?_deliver_of_ne {a : Entry} {data : Bytes} (other : a.conn ≠ k) :
    (s.deliver a data).conns[k]? = s.conns[k]? :=
  Array.getElem?_modify.trans (if_neg other)

theorem getElem?_breakConn (cause : Codec.Error) (s : State) (table : List Entry)
    (distinct : table.Pairwise fun a b => a.conn ≠ b.conn) (k : ConnKey) :
    (table.foldl (breakConn cause) s).conns[k]? =
      if table.any (·.conn = k) then s.conns[k]?.map (breaking cause) else s.conns[k]? := by
  induction table generalizing s with
  | nil => rfl
  | cons a rest ih =>
    obtain ⟨others, distinct⟩ := List.pairwise_cons.mp distinct
    have first : (s.breakConn cause a).conns[k]? =
        if a.conn = k then s.conns[k]?.map (breaking cause) else s.conns[k]? :=
      Array.getElem?_modify
    rw [List.foldl_cons, ih _ distinct, first, List.any_cons]
    by_cases here : a.conn = k
    · have none' : rest.any (·.conn = k) = false :=
        List.any_eq_false.mpr fun b mem same => others b mem (here.trans (of_decide_eq_true same).symm)
      simp [here, none']
    · simp [here]

theorem Filed.distinct (h : s.Filed) : s.table.Pairwise fun a b => a.conn ≠ b.conn :=
  h.unique.imp_of_mem fun mem mem' other same => other (congrArg Entry.id (h.eq_of_conn mem mem' same))

theorem Filed.any_conn_iff (h : s.Filed) (k : ConnKey) :
    s.table.any (·.conn = k) = true ↔ s.Open k := by
  rw [List.any_eq_true]
  constructor
  · rintro ⟨a, mem, same⟩
    exact of_decide_eq_true same ▸ (h.entry mem).2
  · intro opened
    obtain ⟨a, mem, same⟩ := h.listed opened
    exact ⟨a, mem, decide_eq_true same⟩

theorem teardown_of_ended {cause : Codec.Error} (ended : s.ended ≠ none) : (s.teardown cause).1 = s := by
  unfold teardown
  split
  · rfl
  · next alive => exact absurd alive ended

/-- The end of a session breaks each connection that is open, once, and no other. -/
theorem getElem?_teardown (h : s.Filed) (cause : Codec.Error) (k : ConnKey) :
    (s.teardown cause).1.conns[k]? =
      if s.table.any (·.conn = k) then s.conns[k]?.map (breaking cause) else s.conns[k]? := by
  by_cases alive : s.ended = none
  · unfold teardown
    rw [alive]
    exact getElem?_breakConn cause s s.table h.distinct k
  · rw [teardown_of_ended alive, h.emptied alive]
    rfl

end State

namespace Party

variable {p p' : Party} {k : ConnKey} {id : ConnId} {l : Life} {act : Act}

namespace Act

theorem happening?_of_ending {cause : Codec.Error} (ending : act.ending? = some cause) :
    act.happening? k id = some (.ended (.session cause)) := by
  cases act with
  | close l => cases ending
  | dial | accept | write | read | shut | unlisten | move | cancel | take | flow =>
    simp only [happening?, ending]

theorem happening?_of_envelope {e : Envelope} (envelope : act.envelope? = some e) :
    act.happening? k id = if e.conn = id then some (.said e.content) else none := by
  have ending := ending?_of_envelope envelope
  cases act with
  | close l => cases envelope
  | dial | accept | write | read | shut | unlisten | move | cancel | take | flow =>
    simp only [happening?, ending, envelope, Option.bind_some]

theorem happening?_of_plain (ending : act.ending? = none) (envelope : act.envelope? = none)
    (other : act ≠ .close k) : act.happening? k id = none := by
  cases act with
  | close l => exact if_neg fun same => other (congrArg _ same)
  | dial | accept | write | read | shut | unlisten | move | cancel | take | flow =>
    simp only [happening?, ending, envelope, Option.bind_none]

/-- What happens to a connection is a close of it, the end of the session, or an envelope for it. -/
theorem happening?_cases {h : Happening} (happens : act.happening? k id = some h) :
    (act = .close k ∧ h = .ended .closed) ∨
      (∃ cause, act.ending? = some cause ∧ h = .ended (.session cause)) ∨
      ∃ content, act.envelope? = some ⟨id, content⟩ ∧ h = .said content := by
  cases ending : act.ending? with
  | some cause =>
    rw [happening?_of_ending ending] at happens
    exact .inr (.inl ⟨cause, rfl, (Option.some.inj happens).symm⟩)
  | none =>
    cases envelope : act.envelope? with
    | some e =>
      rw [happening?_of_envelope envelope] at happens
      split at happens
      · next named => exact .inr (.inr ⟨e.content, named ▸ rfl, (Option.some.inj happens).symm⟩)
      · cases happens
    | none =>
      by_cases closes : act = .close k
      · have ends : (close k).happening? k id = some (.ended .closed) := if_pos rfl
        rw [closes, ends] at happens
        exact .inl ⟨closes, (Option.some.inj happens).symm⟩
      · cases (happening?_of_plain ending envelope closes).symm.trans happens

/-- The first payload begins a life. -/
theorem life_of_first {e : Envelope} {data : Bytes} (envelope : act.envelope? = some e)
    (content : e.content = .payload 0 data) (k : ConnKey) :
    Life.of k e.conn [act] = { arrived := [data] } := by
  have happens : act.happening? k e.conn = some (.said (.payload 0 data)) := by
    rw [happening?_of_envelope envelope, if_pos rfl, content]
  change Life.after {} (act.happening? k e.conn) = _
  rw [happens]
  rfl

end Act

/-- What a session holds of a connection is what its life says. -/
structure Follows (p : Party) (k : ConnKey) (l : Life) : Prop where
  shows : ∀ {c}, p.state.conns[k]? = some c → c.Shows l (p.answers k)
  next : ∀ {a}, a ∈ p.state.table → a.conn = k → a.nextRead = UInt64.ofNat l.arrived.length

namespace Follows

theorem isOpen_iff (h : p.Follows k l) (known : p.state.id? k = some id) :
    p.state.Open k ↔ l.fate = none := by
  obtain ⟨c, conn, -⟩ := Option.map_eq_some_iff.mp known
  have terminal := (h.shows conn).terminal
  constructor
  · rintro ⟨c', conn', opened⟩
    cases conn.symm.trans conn'
    exact terminal.symm.trans opened
  · exact fun goesOn => ⟨c, conn, terminal.trans goesOn⟩

/-- What was handed over is what came. -/
theorem arrived (h : p.Follows k l) (known : p.state.id? k = some id) : p.arrived k = l.arrived := by
  obtain ⟨c, conn, -⟩ := Option.map_eq_some_iff.mp known
  have shows := h.shows conn
  have waiting : p.state.waiting k = l.arrived.drop (p.answers k).length := by
    rw [State.waiting_of_getElem? conn, Conn.waiting, shows.inbox, Life.payloads_drop]
  rw [Party.arrived, got_eq, Life.payloads_answers fun _ _ => shows.answered, waiting,
    List.take_append_drop]

theorem fate_of_not_open (h : p.Follows k l) (known : p.state.id? k = some id)
    (ended : ¬p.state.Open k) : ∃ e, l.fate = some e :=
  Option.ne_none_iff_exists'.mp (mt (h.isOpen_iff known).mpr ended)

/-- The reader of a connection is fed as long as its life goes on. -/
theorem fed (h : p.Follows k l) (filed : p.state.Filed) (known : p.state.id? k = some id) :
    p.state.table.any (·.conn = k) = l.fate.isNone := by
  rw [Bool.eq_iff_iff, filed.any_conn_iff, h.isOpen_iff known, Option.isNone_iff_eq_none]

/-- The connection is as it was, for its reader. -/
theorem congr (h : p.Follows k l)
    (conn : p'.state.conns[k]?.map Conn.reading = p.state.conns[k]?.map Conn.reading)
    (table : ∀ a ∈ p'.state.table, a.conn = k → ∃ b ∈ p.state.table, b.conn = k ∧
      b.nextRead = a.nextRead)
    (answers : p'.answers k = p.answers k) : p'.Follows k l := by
  refine ⟨fun {c'} known => ?_, fun {a} mem here => ?_⟩
  · rw [known] at conn
    obtain ⟨c, known, same⟩ := Option.map_eq_some_iff.mp conn.symm
    rw [answers]
    exact (h.shows known).congr same.symm
  · obtain ⟨b, mem, here, same⟩ := table a mem here
    exact same ▸ h.next mem here

/-- The connection ends. -/
theorem finish (h : p.Follows k l) (goesOn : l.fate = none) {c c' : Conn} {e : Error}
    (known : p.state.conns[k]? = some c) (known' : p'.state.conns[k]? = some c')
    (terminal : c'.terminal = some e) (inbox : c'.inbox = c.inbox ++ e.event?.toList)
    (ended : c'.ended = c.ended) (table : ∀ a ∈ p'.state.table, a ∈ p.state.table)
    (reads : p'.reads = p.reads) : p'.Follows k { l with fate := some e } := by
  refine ⟨fun {d} conn => ?_, fun {a} mem here => h.next (table a mem) here⟩
  cases known'.symm.trans conn
  rw [answers_congr reads]
  exact (h.shows known).finish goesOn terminal inbox ended

/-- The entry of a connection that is ended is taken out of the table. -/
theorem retire (h : p.Follows k l) (goesOn : l.fate = none) {a : Entry} {c : Conn} {f : Conn → Conn}
    {e : Error} (here : a.conn = k) (known : p.state.conns[k]? = some c)
    (state : p'.state = p.state.retire a f) (terminal : (f c).terminal = some e)
    (inbox : (f c).inbox = c.inbox ++ e.event?.toList) (ended : (f c).ended = c.ended)
    (reads : p'.reads = p.reads) : p'.Follows k { l with fate := some e } := by
  subst here
  have known' : p'.state.conns[a.conn]? = some (f c) := by
    rw [state]
    exact (State.getElem?_modifyConn known a.conn).trans (if_pos rfl)
  refine h.finish goesOn known known' terminal inbox ended (fun b mem => ?_) reads
  rw [state] at mem
  exact (State.mem_retire.mp mem).1

/-- Another connection is ended. -/
theorem retire_of_ne (h : p.Follows k l) {a : Entry} {f : Conn → Conn} (other : a.conn ≠ k)
    (state : p'.state = p.state.retire a f) (reads : p'.reads = p.reads) : p'.Follows k l := by
  refine h.congr ?_ (fun b mem here => ?_) (answers_congr reads k)
  · rw [state, State.getElem?_retire_of_ne other]
  · rw [state] at mem
    exact ⟨b, (State.mem_retire.mp mem).1, here, rfl⟩

/-- The handle and the name of an open connection stand for each other. -/
theorem entry (filed : p.state.Filed) (known : p.state.id? k = some id) {a : Entry}
    (mem : a ∈ p.state.table) (here : a.conn = k) : a.id = id :=
  Option.some.inj ((filed.entry mem).1.symm.trans (here ▸ known))

/-- What is said under the name of a connection does not count if it is not open. -/
theorem after_of_ne (h : p.Follows k l) (filed : p.state.Filed) (known : p.state.id? k = some id)
    {e : Envelope} (other : ∀ a ∈ p.state.table, a.id = e.conn → a.conn ≠ k) :
    l.after (if e.conn = id then some (.said e.content) else none) = l := by
  split
  · next named =>
    have ended : ¬p.state.Open k := fun opened => by
      obtain ⟨a, mem, here⟩ := filed.listed opened
      exact other a mem ((entry filed known mem here).trans named.symm) here
    obtain ⟨e, fate⟩ := h.fate_of_not_open known ended
    exact Life.after_of_fate fate _
  · exact l.after_none

theorem ne_of_entry (filed : p.state.Filed) {a b : Entry} {name : ConnId} (mem : a ∈ p.state.table)
    (named : a.id = name) (other : a.conn ≠ k) (mem' : b ∈ p.state.table) (named' : b.id = name) :
    b.conn ≠ k := by
  rwa [filed.eq_of_id mem' mem (named'.trans named.symm)]

section Dispatched

variable {e : Envelope}

/-- An envelope ends an open connection. -/
theorem dispatch_retire (h : p.Follows k l) (filed : p.state.Filed) (known : p.state.id? k = some id)
    {a : Entry} {reason : Reason} (mem : a ∈ p.state.table) (named : a.id = e.conn)
    (state : p'.state = p.state.retire a (State.aborting reason)) (reads : p'.reads = p.reads)
    (meets : a.nextRead = UInt64.ofNat l.arrived.length →
      l.meet (.said e.content) = { l with fate := some (.aborted reason) }) :
    p'.Follows k (l.after (if e.conn = id then some (.said e.content) else none)) := by
  by_cases here : a.conn = k
  · obtain ⟨c, conn, opened⟩ := here ▸ (filed.entry mem).2
    have goesOn := (h.isOpen_iff known).mp ⟨c, conn, opened⟩
    rw [if_pos (named.symm.trans (entry filed known mem here)), Life.after_of_open goesOn,
      meets (h.next mem here)]
    refine h.retire goesOn here conn state ?_ rfl rfl reads
    simp [State.aborting, Conn.finish, Conn.hand, opened]
  · rw [h.after_of_ne filed known fun b mem' named' => ne_of_entry filed mem named here mem' named']
    exact h.retire_of_ne here state reads

theorem dispatch_deliver (h : p.Follows k l) (filed : p.state.Filed) (known : p.state.id? k = some id)
    {a : Entry} {data : Bytes} (mem : a ∈ p.state.table) (named : a.id = e.conn)
    (content : e.content = .payload a.nextRead data) (state : p'.state = p.state.deliver a data)
    (reads : p'.reads = p.reads) :
    p'.Follows k (l.after (if e.conn = id then some (.said e.content) else none)) := by
  have answers := answers_congr reads k
  have table {b : Entry} (mem' : b ∈ p'.state.table) : ∃ b' ∈ p.state.table, State.advance a b' = b :=
    State.mem_deliver.mp (state ▸ mem')
  by_cases here : a.conn = k
  · obtain ⟨c, conn, opened⟩ := here ▸ (filed.entry mem).2
    have goesOn := (h.isOpen_iff known).mp ⟨c, conn, opened⟩
    have next := h.next mem here
    have meets : l.meet (.said e.content) = { l with arrived := l.arrived ++ [data] } := by
      simp [content, Life.meet, next]
    rw [if_pos (named.symm.trans (entry filed known mem here)), Life.after_of_open goesOn, meets]
    refine ⟨fun {d} conn' => ?_, fun {b} mem' here' => ?_⟩
    · have handed : p'.state.conns[k]? = some (c.hand (.payload data)) := by
        rw [state, State.deliver, here]
        exact (State.getElem?_modifyConn conn k).trans (if_pos rfl)
      cases handed.symm.trans conn'
      rw [answers]
      exact (h.shows conn).deliver goesOn data
    · obtain ⟨b, held, rfl⟩ := table mem'
      rw [(State.advance_same a b).2] at here'
      cases filed.eq_of_conn held mem (here'.trans here.symm)
      rw [State.advance, if_pos rfl, List.length_append, UInt64.ofNat_add, next]
      rfl
  · rw [h.after_of_ne filed known fun b mem' named' => ne_of_entry filed mem named here mem' named']
    refine h.congr ?_ (fun b mem' here' => ?_) answers
    · rw [state, State.getElem?_deliver_of_ne here]
    · obtain ⟨b, held, rfl⟩ := table mem'
      rw [(State.advance_same a b).2] at here'
      have other : b.id ≠ a.id := fun same => here (filed.eq_of_id held mem same ▸ here')
      exact ⟨b, held, here', by rw [State.advance, if_neg other]⟩

/-- An envelope for a name that is not open. -/
theorem dispatch_unknown (h : p.Follows k l) (filed : p.state.Filed) (known : p.state.id? k = some id)
    (unknown : ∀ a ∈ p.state.table, a.id ≠ e.conn) (follows : p'.Follows k l) :
    p'.Follows k (l.after (if e.conn = id then some (.said e.content) else none)) := by
  rwa [h.after_of_ne filed known fun a mem named => absurd named (unknown a mem)]

theorem dispatched (h : p.Follows k l) (filed : p.state.Filed) (known : p.state.id? k = some id)
    {state : State} {reason : Option Reason} (dispatched : p.state.Dispatched e (state, reason))
    (here : p'.state = state) (reads : p'.reads = p.reads) :
    p'.Follows k (l.after (if e.conn = id then some (.said e.content) else none)) := by
  have answers := answers_congr reads k
  cases dispatched with
  | ignored old _ =>
    have follows : p'.Follows k l :=
      h.congr (by rw [here]) (fun a mem conn => ⟨a, here ▸ mem, conn, rfl⟩) answers
    split
    · next named =>
      by_cases opened : p.state.Open k
      · obtain ⟨a, mem, conn⟩ := filed.listed opened
        obtain ⟨seq, data, content, old⟩ := old a mem ((entry filed known mem conn).trans named.symm)
        rw [h.next mem conn] at old
        rw [Life.after_of_open ((h.isOpen_iff known).mp opened), content]
        simpa only [Life.meet, if_pos old] using follows
      · obtain ⟨e, fate⟩ := h.fate_of_not_open known opened
        rwa [Life.after_of_fate fate]
    · rwa [l.after_none]
  | aborted mem named content =>
    exact h.dispatch_retire filed known mem named here reads fun _ => by rw [content]; rfl
  | delivered mem named content => exact h.dispatch_deliver filed known mem named content here reads
  | @faulted a seq data mem named content beyond =>
    refine h.dispatch_retire filed known mem named here reads fun next => ?_
    rw [next] at beyond
    have notOld := UInt64.not_lt.mpr (UInt64.le_of_lt beyond)
    simp only [content, Life.meet, if_neg notOld, if_pos beyond, next]
  | refused _ unknown _ _ _ _ =>
    exact h.dispatch_unknown filed known unknown (h.congr (by rw [here])
      (fun a mem conn => ⟨a, by rw [here] at mem; exact mem, conn, rfl⟩) answers)
  | opened _ _ unknown _ =>
    have last : k ≠ p.state.conns.size := State.ne_size known
    refine h.dispatch_unknown filed known unknown (h.congr ?_ (fun a mem conn => ?_) answers)
    · rw [here]
      exact congrArg (Option.map _) (Array.getElem?_push.trans (if_neg last))
    · rw [here] at mem
      obtain rfl | mem := List.mem_cons.mp mem
      · exact absurd conn.symm last
      · exact ⟨a, mem, conn, rfl⟩

end Dispatched

theorem read (h : p.Follows k l) (filed : p.state.Filed) (known : p.state.id? k = some id)
    {l' : ConnKey} {state : State} {r : Except Error (Option Bytes)}
    (read : p.state.read? l' = some (state, r)) :
    Follows { p with state, reads := p.reads ++ [(l', r)] } k l := by
  obtain ⟨c, c', conn, given, rfl⟩ := State.read?_eq_some read
  have answers : ({ p with
      state := p.state.modifyConn l' fun _ => c'
      reads := p.reads ++ [(l', r)] } : Party).answers k =
        p.answers k ++ if l' = k then [r] else [] := answers_concat rfl k
  have conns := State.getElem?_modifyConn (f := fun _ => c') conn k
  refine ⟨fun {d} conn' => ?_, fun mem here => h.next mem here⟩
  rw [answers]
  replace conn' := conns.symm.trans conn'
  split at conn'
  · next here =>
    subst here
    cases conn'
    rw [if_pos rfl]
    exact (h.shows conn).read (h.fed filed known ▸ given)
  · next other =>
    rw [if_neg other, List.append_nil]
    exact h.shows conn'

theorem teardown (h : p.Follows k l) (filed : p.state.Filed) (known : p.state.id? k = some id)
    (cause : Codec.Error) : Follows { p with state := (p.state.teardown cause).1 } k
      (l.after (some (.ended (.session cause)))) := by
  have conns := State.getElem?_teardown filed cause k
  have table : (p.state.teardown cause).1.table = [] := State.table_teardown cause filed.toListed
  by_cases opened : p.state.Open k
  · obtain ⟨c, conn, goesOn⟩ := opened
    rw [if_pos ((filed.any_conn_iff k).mpr ⟨c, conn, goesOn⟩), conn] at conns
    have fate := (h.isOpen_iff known).mp ⟨c, conn, goesOn⟩
    rw [Life.after_of_open fate]
    refine h.finish fate conn conns ?_ rfl rfl (fun a mem => ?_) rfl
    · simp [State.breaking, Conn.finish, Conn.hand, goesOn]
    · rw [table] at mem
      cases mem
  · obtain ⟨e, fate⟩ := h.fate_of_not_open known opened
    rw [if_neg (mt (filed.any_conn_iff k).mp opened)] at conns
    rw [Life.after_of_fate fate]
    refine h.congr (congrArg _ conns) (fun a mem _ => ?_) rfl
    rw [table] at mem
    cases mem

/-- The connection follows its life in every act. -/
theorem stepped (h : p.Follows k l) (filed : p.state.Filed) (known : p.state.id? k = some id)
    (stepped : p.Stepped act p') : p'.Follows k (l.after (act.happening? k id)) := by
  cases stepped with
  | plain ending envelope closes still _ =>
    have follows : p'.Follows k l := h.congr (still.conns k)
      (fun a mem here => ⟨a, still.table ▸ mem, here, rfl⟩) (answers_congr still.reads k)
    by_cases same : act = .close k
    · obtain ⟨e, fate⟩ := h.fate_of_not_open known (closes k same)
      rwa [Life.after_of_fate fate]
    · rwa [Act.happening?_of_plain ending envelope same, l.after_none]
  | dialed _ _ _ =>
    have happens : Act.dial.happening? k id = none := rfl
    rw [happens, l.after_none]
    have last : k ≠ p.state.conns.size := State.ne_size known
    refine h.congr ?_ (fun a mem conn => ?_) rfl
    · exact congrArg (Option.map _) (Array.getElem?_push.trans (if_neg last))
    · obtain rfl | mem := List.mem_cons.mp mem
      · exact absurd conn.symm last
      · exact ⟨a, mem, conn, rfl⟩
  | @read l' _ _ given =>
    have happens : (Act.read l').happening? k id = none := rfl
    rw [happens, l.after_none]
    exact h.read filed known given
  | @closed a _ mem state reads handed =>
    by_cases here : a.conn = k
    · obtain ⟨c, conn, goesOn⟩ := here ▸ (filed.entry mem).2
      have fate := (h.isOpen_iff known).mp ⟨c, conn, goesOn⟩
      have happens : (Act.close a.conn).happening? k id = some (.ended .closed) := if_pos here
      rw [happens, Life.after_of_open fate]
      refine h.retire fate here conn state ?_ (List.append_nil _).symm rfl reads
      simp [Conn.finish, goesOn]
    · have happens : (Act.close a.conn).happening? k id = none := if_neg here
      rw [happens, l.after_none]
      exact h.retire_of_ne here state reads
  | finished ending =>
    rw [Act.happening?_of_ending ending]
    exact h.teardown filed known _
  | heard envelope dispatched reads handed =>
    rw [Act.happening?_of_envelope envelope]
    exact h.dispatched filed known dispatched rfl reads

end Follows

end Party

end Tether.Session
