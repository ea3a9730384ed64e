import Tether.Proofs.Session.Routing

/-!
# What a side has heard

The payloads that came to a connection are, while it is open, those that the peer's stream took for
it and that were heard, and the table expects the next of them. Once it has ended they are a first
part of those.
-/

namespace Tether.Session

namespace Party

/-- The payloads that reads of a connection gave. -/
def got (p : Party) (k : ConnKey) : List Bytes :=
  p.reads.filterMap fun (l, r) => if l = k then readPayload? r else none

/-- The payloads that were handed to a connection: those read, and those that wait. -/
def arrived (p : Party) (k : ConnKey) : List Bytes :=
  p.got k ++ p.state.waiting k

/-- The payloads for a connection among what was heard of the peer. -/
def came (p q : Party) (id : ConnId) : List (UInt64 × Bytes) :=
  payloads id (q.sent.take p.heard)

/-- What a side holds against what it has heard of its peer. -/
structure Hears (p q : Party) : Prop where
  heard_le : p.heard ≤ q.sent.length
  /-- Nothing comes to a connection that there is not. -/
  absent : ∀ {k}, p.state.id? k = none → p.arrived k = []
  arrived : ∀ {k id}, p.state.id? k = some id → p.arrived k <+: (p.came q id).map Prod.snd
  current : ∀ {e}, e ∈ p.state.table → p.arrived e.conn = (p.came q e.id).map Prod.snd ∧
    e.nextRead = UInt64.ofNat (p.came q e.id).length

variable {p p' q q' : Party} {k : ConnKey} {id : ConnId}

theorem got_congr (reads : p'.reads = p.reads) (k : ConnKey) : p'.got k = p.got k := by
  rw [got, reads, got]

theorem arrived_congr (reads : p'.reads = p.reads) (waiting : p'.state.waiting k = p.state.waiting k) :
    p'.arrived k = p.arrived k := by
  rw [arrived, got_congr reads, waiting, arrived]

theorem got_concat {l : ConnKey} {r : Except Error (Option Bytes)}
    (reads : p'.reads = p.reads ++ [(l, r)]) (k : ConnKey) :
    p'.got k = p.got k ++ if l = k then (readPayload? r).toList else [] := by
  unfold got
  rw [reads, List.filterMap_append]
  by_cases same : l = k
  · cases given : readPayload? r <;> simp [same, given]
  · simp [same]

theorem came_congr (heard : p'.heard = p.heard) (heard_le : p.heard ≤ q.sent.length)
    (sent : q.sent <+: q'.sent) (id : ConnId) : p'.came q' id = p.came q id := by
  obtain ⟨more, sent⟩ := sent
  rw [came, heard, ← sent, List.take_append_of_le_length heard_le, came]

/-- Nothing is heard, and nothing comes to any connection. -/
theorem Hears.congr (h : Hears p q) (ids : ∀ k, p'.state.id? k = p.state.id? k)
    (arrived : ∀ k, p'.arrived k = p.arrived k) (heard : p'.heard = p.heard)
    (table : ∀ a ∈ p'.state.table, a ∈ p.state.table) (sent : q.sent <+: q'.sent) : Hears p' q' := by
  have came := came_congr heard h.heard_le sent
  refine ⟨heard ▸ Nat.le_trans h.heard_le sent.length_le, fun unknown => ?_, fun known => ?_,
    fun mem => ?_⟩
  · rw [arrived]
    exact h.absent (ids _ ▸ unknown)
  · rw [arrived, came]
    exact h.arrived (ids _ ▸ known)
  · rw [arrived, came]
    exact h.current (table _ mem)

/-! ## The next envelope -/

section Next

variable {bytes : Bytes} {e : Envelope}

/-- One more chunk is heard. -/
theorem came_succ (found : q.sent[p.heard]? = some bytes) (read : Envelope.unpacked bytes = .ok e)
    (heard : p'.heard = p.heard + 1) (id : ConnId) :
    p'.came q id = p.came q id ++ (e.payload? id).toList := by
  rw [came, heard, List.take_add_one, found]
  exact payloads_concat id read

/-- The next payload of a correct peer bears the next number of a connection that the peer has. -/
theorem next_of_sound (sound : q.Sound) (found : q.sent[p.heard]? = some bytes)
    (read : Envelope.unpacked bytes = .ok e) {seq : UInt64} {data : Bytes}
    (content : e.content = .payload seq data) :
    seq = UInt64.ofNat (p.came q e.conn).length ∧
      ∃ l, q.state.id? l = some e.conn ∧ (p.came q e.conn).length < (q.written l).length := by
  have one : e.payload? e.conn = some (seq, data) := by
    rw [Envelope.payload?, content]
    exact if_pos rfl
  -- What was heard with the next payload behind it is a first part of what the peer's stream took.
  have front : p.came q e.conn ++ [(seq, data)] <+: payloads e.conn q.sent := by
    have longer : payloads e.conn (q.sent.take (p.heard + 1)) <+: payloads e.conn q.sent :=
      payloads_mono _ (List.take_prefix _ _)
    rw [List.take_add_one, found] at longer
    have added : payloads e.conn (q.sent.take p.heard ++ [bytes]) = _ := payloads_concat e.conn read
    rw [one] at added
    exact added ▸ longer
  by_cases named : ∃ l, q.state.id? l = some e.conn
  · obtain ⟨l, named⟩ := named
    rw [sound.logged.said named] at front
    obtain ⟨more, whole⟩ := front
    have here := getElem?_numbered (q.written l) (p.came q e.conn).length
    rw [← whole, List.append_assoc, List.getElem?_append_right (Nat.le_refl _), Nat.sub_self] at here
    obtain ⟨payload, found, same⟩ := Option.map_eq_some_iff.mp here.symm
    cases same
    exact ⟨rfl, l, named, (List.getElem?_eq_some_iff.mp found).1⟩
  · have none' : payloads e.conn q.sent = [] :=
      sound.logged.unsaid fun l known => named ⟨l, known⟩
    rw [none'] at front
    exact absurd (List.prefix_nil.mp front) (by simp)

/-- An envelope is heard that brings no payload to any connection that stays open. -/
theorem Hears.pass (h : Hears p q) (found : q.sent[p.heard]? = some bytes)
    (read : Envelope.unpacked bytes = .ok e) (heard : p'.heard = p.heard + 1)
    (ids : ∀ k, p'.state.id? k = p.state.id? k) (arrived : ∀ k, p'.arrived k = p.arrived k)
    (table : ∀ a ∈ p'.state.table, a ∈ p.state.table ∧ e.payload? a.id = none) : Hears p' q := by
  have inside := (List.getElem?_eq_some_iff.mp found).1
  have came := came_succ found read heard
  refine ⟨heard ▸ inside, fun unknown => ?_, fun {k id} known => ?_, fun {a} mem => ?_⟩
  · rw [arrived]
    exact h.absent (ids _ ▸ unknown)
  · rw [arrived, came, List.map_append]
    exact (h.arrived (ids _ ▸ known)).trans (List.prefix_append _ _)
  · obtain ⟨mem, other⟩ := table a mem
    rw [arrived, came, other]
    simpa using h.current mem

/-- The next payload of an open connection is heard and handed over. -/
theorem Hears.deliver (h : Hears p q) (found : q.sent[p.heard]? = some bytes)
    (read : Envelope.unpacked bytes = .ok e) (heard : p'.heard = p.heard + 1)
    (unique : ∀ {k l id}, p.state.id? k = some id → p.state.id? l = some id → k = l)
    (listed : p.state.Listed) {a : Entry} {seq : UInt64} {data : Bytes} (mem : a ∈ p.state.table)
    (named : a.id = e.conn) (content : e.content = .payload seq data)
    (state : p'.state = p.state.deliver a data) (reads : p'.reads = p.reads) : Hears p' q := by
  have inside := (List.getElem?_eq_some_iff.mp found).1
  have known := listed.named mem
  have came (id : ConnId) :
      p'.came q id = p.came q id ++ if a.id = id then [(seq, data)] else [] := by
    rw [came_succ found read heard, Envelope.payload?, content, named]
    dsimp only
    split <;> rfl
  have arrived (k : ConnKey) : p'.arrived k = p.arrived k ++ if a.conn = k then [data] else [] := by
    rw [Party.arrived, got_congr reads, state, State.waiting_deliver known, ← List.append_assoc,
      Party.arrived]
  have ids (k : ConnKey) : p'.state.id? k = p.state.id? k := by rw [state, State.id?_deliver]
  -- The connection and its name stand for each other.
  have same {k : ConnKey} {id : ConnId} (known' : p.state.id? k = some id) : a.conn = k ↔ a.id = id := by
    constructor
    · rintro rfl
      exact Option.some.inj (known.symm.trans known')
    · rintro rfl
      exact unique known known'
  refine ⟨heard ▸ inside, fun {k} unknown => ?_, fun {k id} known' => ?_, fun {b} mem' => ?_⟩
  · rw [ids] at unknown
    have other : a.conn ≠ k := fun here => by
      rw [here, unknown] at known
      cases known
    rw [arrived, if_neg other, List.append_nil, h.absent unknown]
  · rw [ids] at known'
    rw [arrived, came, List.map_append]
    by_cases here : a.conn = k
    · rw [if_pos here, if_pos ((same known').mp here), ← here, ← (same known').mp here,
        (h.current mem).1]
      exact List.prefix_refl _
    · rw [if_neg here, if_neg (mt (same known').mpr here), List.append_nil, List.map_nil,
        List.append_nil]
      exact h.arrived known'
  · rw [state] at mem'
    obtain ⟨b, mem₀, rfl⟩ := State.mem_deliver.mp mem'
    rw [(State.advance_same a b).1, (State.advance_same a b).2, arrived, came, State.advance]
    obtain ⟨held, next⟩ := h.current mem₀
    by_cases here : b.id = a.id
    · cases listed.eq_of_id mem₀ mem here
      simp [held, next, UInt64.ofNat_add]
    · have other : b.conn ≠ a.conn := fun eq => here (congrArg Entry.id (listed.eq_of_conn mem₀ mem eq))
      simpa [here, Ne.symm here, Ne.symm other] using ⟨held, next⟩

end Next

/-- A connection is added for which nothing has come but what it is handed at once. -/
theorem Hears.enroll (h : Hears p q) {inbox : List Inbound} {nextRead : UInt64}
    (conns : ∀ k, p'.state.id? k = if k = p.state.conns.size then some id else p.state.id? k)
    (waiting : ∀ k, p'.state.waiting k =
      if k = p.state.conns.size then inbox.filterMap Inbound.payload? else p.state.waiting k)
    (table : p'.state.table = { id, conn := p.state.conns.size, nextRead } :: p.state.table)
    (reads : p'.reads = p.reads) (heard_le : p'.heard ≤ q.sent.length)
    (others : ∀ id', id' ≠ id → p'.came q id' = p.came q id')
    (new : ∀ k, p.state.id? k ≠ some id) (listed : p.state.Listed)
    (first : (p'.came q id).map Prod.snd = inbox.filterMap Inbound.payload?)
    (next : nextRead = UInt64.ofNat (p'.came q id).length) : Hears p' q := by
  have size : p.state.id? p.state.conns.size = none := State.id?_size
  have nothing : p.got p.state.conns.size = [] := (List.append_eq_nil_iff.mp (h.absent size)).1
  have arrived (k : ConnKey) : p'.arrived k = if k = p.state.conns.size then
      (p'.came q id).map Prod.snd else p.arrived k := by
    rw [Party.arrived, got_congr reads, waiting]
    split
    · next last => rw [last, nothing, first, List.nil_append]
    · rfl
  have other {k : ConnKey} {id' : ConnId} (known : p.state.id? k = some id') :
      k ≠ p.state.conns.size ∧ id' ≠ id := by
    refine ⟨fun last => ?_, fun same => new k (same ▸ known)⟩
    rw [last, size] at known
    cases known
  refine ⟨heard_le, fun {k} unknown => ?_, fun {k id'} known => ?_, fun {a} mem => ?_⟩
  · rw [conns] at unknown
    split at unknown
    · cases unknown
    · next last =>
      rw [arrived, if_neg last, h.absent unknown]
  · rw [conns] at known
    rw [arrived]
    split at known
    · next last =>
      cases known
      simp only [if_pos last, List.prefix_refl]
    · rw [if_neg (other known).1, others _ (other known).2]
      exact h.arrived known
  · rw [table] at mem
    rw [arrived]
    rcases List.mem_cons.mp mem with rfl | mem
    · exact ⟨if_pos rfl, next⟩
    · obtain ⟨apart, apart'⟩ := other (listed.named mem)
      rw [if_neg apart, others _ apart']
      exact h.current mem

end Party

end Tether.Session
