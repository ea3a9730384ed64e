import Tether.Proofs.Session.Envelope
import Tether.Proofs.Session.Sending

/-!
# Payloads are numbered in the order of the wire

A payload takes its number when it gets the turn and gives it back if the stream does not take it.
So the payloads of a connection that the stream took are those whose writes answered success, in
that order, and their numbers count up from zero without a gap.
-/

namespace Tether.Session

/-! ## What the stream took -/

/-- The envelopes that some chunks hold. -/
def envelopes (chunks : List Bytes) : List Envelope :=
  chunks.filterMap fun bytes => (Envelope.unpacked bytes).toOption

/-- The payload in an envelope, if it is one for the given connection. -/
def Envelope.payload? (id : ConnId) (e : Envelope) : Option (UInt64 × Bytes) :=
  match e.content with
  | .payload seq data => if e.conn = id then some (seq, data) else none
  | .abort _ => none

theorem Envelope.payload?_payload (id id' : ConnId) (seq : UInt64) (data : Bytes) :
    (⟨id, .payload seq data⟩ : Envelope).payload? id' =
      if id = id' then some (seq, data) else none :=
  rfl

/-- The payloads for a connection that some chunks hold. -/
def payloads (id : ConnId) (chunks : List Bytes) : List (UInt64 × Bytes) :=
  (envelopes chunks).filterMap (·.payload? id)

/-- Payloads with their numbers, from zero. -/
def numbered (data : List Bytes) : List (UInt64 × Bytes) :=
  data.mapIdx fun n payload => (UInt64.ofNat n, payload)

theorem envelopes_concat {chunks : List Bytes} {bytes : Bytes} {e : Envelope}
    (read : Envelope.unpacked bytes = .ok e) :
    envelopes (chunks ++ [bytes]) = envelopes chunks ++ [e] := by
  simp [envelopes, read, Except.toOption]

theorem payloads_concat (id : ConnId) {chunks : List Bytes} {bytes : Bytes} {e : Envelope}
    (read : Envelope.unpacked bytes = .ok e) :
    payloads id (chunks ++ [bytes]) = payloads id chunks ++ (e.payload? id).toList := by
  unfold payloads
  rw [envelopes_concat read, List.filterMap_append]
  cases h : e.payload? id <;> simp [h]

theorem payloads_mono (id : ConnId) {chunks chunks' : List Bytes} (h : chunks <+: chunks') :
    payloads id chunks <+: payloads id chunks' :=
  (h.filterMap _).filterMap _

theorem numbered_concat (data : List Bytes) (payload : Bytes) :
    numbered (data ++ [payload]) = numbered data ++ [(UInt64.ofNat data.length, payload)] :=
  List.mapIdx_concat

theorem getElem?_numbered (data : List Bytes) (n : Nat) :
    (numbered data)[n]? = data[n]?.map fun payload => (UInt64.ofNat n, payload) :=
  List.getElem?_mapIdx

theorem map_snd_numbered (data : List Bytes) : (numbered data).map Prod.snd = data := by
  refine List.ext_getElem? fun n => ?_
  simp only [numbered, List.getElem?_map, List.getElem?_mapIdx, Option.map_map, Function.comp_def,
    Option.map_id']

/-! ## Numbers of connections -/

namespace State

/-- The name of a connection. -/
def id? (s : State) (k : ConnKey) : Option ConnId :=
  s.conns[k]?.map (·.id)

/-- The number of the next payload of a connection. -/
def next? (s : State) (k : ConnKey) : Option UInt64 :=
  s.conns[k]?.map (·.nextWrite)

theorem id?_eq_none_iff {s : State} {k : ConnKey} : s.id? k = none ↔ s.conns.size ≤ k := by
  rw [id?, Option.map_eq_none_iff, Array.getElem?_eq_none_iff]

theorem id?_of_getElem? {s : State} {k : ConnKey} {c : Conn} (known : s.conns[k]? = some c) :
    s.id? k = some c.id :=
  Option.map_eq_some_iff.mpr ⟨c, known, rfl⟩

/-- The same names, as many connections. -/
theorem size_congr {s s' : State} (ids : ∀ k, s'.id? k = s.id? k) : s'.conns.size = s.conns.size :=
  Nat.le_antisymm (id?_eq_none_iff.mp ((ids _).trans (id?_eq_none_iff.mpr (Nat.le_refl _))))
    (id?_eq_none_iff.mp ((ids _).symm.trans (id?_eq_none_iff.mpr (Nat.le_refl _))))

theorem exists_next? {s : State} {k : ConnKey} {id : ConnId} (h : s.id? k = some id) :
    ∃ n, s.next? k = some n := by
  obtain ⟨c, known, -⟩ := Option.map_eq_some_iff.mp h
  exact ⟨c.nextWrite, by rw [next?, known]; rfl⟩

theorem id?_modifyConn {s : State} {k : ConnKey} {f : Conn → Conn} (keeps : ∀ c, (f c).id = c.id)
    (l : ConnKey) : (s.modifyConn k f).id? l = s.id? l := by
  unfold id? modifyConn
  rw [Array.getElem?_modify]
  split
  · simp [Function.comp_def, keeps]
  · rfl

theorem next?_modifyConn {s : State} {k : ConnKey} {f : Conn → Conn} {g : UInt64 → UInt64}
    (moves : ∀ c, (f c).nextWrite = g c.nextWrite) (l : ConnKey) :
    (s.modifyConn k f).next? l = if k = l then (s.next? l).map g else s.next? l := by
  unfold next? modifyConn
  rw [Array.getElem?_modify]
  split
  · simp [Function.comp_def, moves]
  · rfl

theorem id?_giveBack (s : State) (m : Message) (k : ConnKey) : (s.giveBack m).id? k = s.id? k := by
  cases m with
  | payload l data =>
    rw [giveBack, id?_modifyConn]
    exact fun _ => rfl
  | abort id reason => rfl

theorem next?_giveBack_payload (s : State) (k : ConnKey) (data : Bytes) (l : ConnKey) :
    (s.giveBack (.payload k data)).next? l =
      if k = l then (s.next? l).map (· - 1) else s.next? l :=
  next?_modifyConn (fun _ => rfl) l

theorem id?_reserve (s : State) (m : Message) (k : ConnKey) : (s.reserve m).1.id? k = s.id? k := by
  cases m with
  | payload l data =>
    simp only [reserve]
    split
    · rw [id?_modifyConn]
      exact fun _ => rfl
    · rfl
  | abort id reason => rfl

theorem next?_reserve_payload (s : State) (k : ConnKey) (data : Bytes) (l : ConnKey) :
    (s.reserve (.payload k data)).1.next? l =
      if k = l then (s.next? l).map (· + 1) else s.next? l := by
  simp only [reserve]
  split
  · exact next?_modifyConn (fun _ => rfl) l
  · next unknown =>
    split
    · next same =>
      subst same
      rw [next?, unknown]
      rfl
    · rfl

/-- The envelope of a payload bears the name and the number that its connection has. -/
theorem reserve_payload {s : State} {k : ConnKey} {id : ConnId} {n : UInt64}
    (named : s.id? k = some id) (next : s.next? k = some n) (data : Bytes) :
    (s.reserve (.payload k data)).2 = ⟨id, .payload n data⟩ := by
  obtain ⟨c, known, rfl⟩ := Option.map_eq_some_iff.mp named
  rw [next?, known] at next
  cases next
  simp only [reserve, known]

/-- Only a connection that there is can be written to. -/
theorem exists_id?_of_mayStart {s : State} {k : ConnKey} {data : Bytes}
    (may : s.mayStart (.payload k data) = .ok ()) : ∃ id, s.id? k = some id := by
  cases known : s.conns[k]? with
  | none =>
    simp only [mayStart, known] at may
    cases may
  | some c => exact ⟨c.id, id?_of_getElem? known⟩

/-- Connections may have been added. What concerns the sending of those that there were is as it was. -/
structure Enlarges (s s' : State) : Prop where
  ids : ∀ {k id}, s.id? k = some id → s'.id? k = some id
  next : ∀ {k}, s.id? k ≠ none → s'.next? k = s.next? k
  new : ∀ {k n}, s.id? k = none → s'.next? k = some n → n = 0
  turn : s'.turn = s.turn
  nextTicket : s'.nextTicket = s.nextTicket

end State

namespace Party

variable {p p' : Party} {i j : Nat} {o : Outgoing}

/-- The payloads of a connection whose writes answered success. -/
def written (p : Party) (k : ConnKey) : List Bytes :=
  p.wrote.filterMap fun (l, data) => if l = k then some data else none

theorem written_concat {l : ConnKey} {data : Bytes} (wrote : p'.wrote = p.wrote ++ [(l, data)])
    (k : ConnKey) : p'.written k = p.written k ++ if l = k then [data] else [] := by
  unfold written
  rw [wrote, List.filterMap_append]
  by_cases same : l = k <;> simp [same]

theorem written_mono (wrote : p.wrote <+: p'.wrote) (k : ConnKey) : p.written k <+: p'.written k :=
  wrote.filterMap _

theorem written_congr (wrote : p'.wrote = p.wrote) (k : ConnKey) : p'.written k = p.written k := by
  rw [written, wrote, written]

/-! ## The log -/

/-- The payloads that the stream took are those written, numbered without a gap. -/
structure Logged (p : Party) : Prop where
  ids : ∀ {k l id}, p.state.id? k = some id → p.state.id? l = some id → k = l
  said : ∀ {k id}, p.state.id? k = some id → payloads id p.sent = numbered (p.written k)
  unsaid : ∀ {id}, (∀ k, p.state.id? k ≠ some id) → payloads id p.sent = []
  unwritten : ∀ {k}, p.state.id? k = none → p.written k = []
  readable : ∀ bytes ∈ p.sent, ∃ e, Envelope.unpacked bytes = .ok e

theorem Logged.congr (h : p.Logged) (ids : ∀ k, p'.state.id? k = p.state.id? k)
    (sent : p'.sent = p.sent) (wrote : p'.wrote = p.wrote) : p'.Logged := by
  have written := written_congr wrote
  refine ⟨?_, ?_, ?_, ?_, ?_⟩ <;> simp only [ids, sent, written]
  · exact h.ids
  · exact h.said
  · exact h.unsaid
  · exact h.unwritten
  · exact h.readable

/-- A connection is added under a name that is new. -/
theorem Logged.register (h : p.Logged) {n : ConnKey} {id : ConnId}
    (ids : ∀ k, p'.state.id? k = if k = n then some id else p.state.id? k)
    (free : p.state.id? n = none) (new : ∀ k, p.state.id? k ≠ some id) (sent : p'.sent = p.sent)
    (wrote : p'.wrote = p.wrote) : p'.Logged := by
  have written := written_congr wrote
  refine ⟨fun {k l id'} known known' => ?_, fun {k id'} known => ?_, fun {id'} unknown => ?_,
    fun {k} unknown => ?_, sent ▸ h.readable⟩
  · rw [ids] at known known'
    split at known <;> split at known'
    · next same same' => exact same.trans same'.symm
    · cases known
      exact absurd known' (new l)
    · cases known'
      exact absurd known (new k)
    · exact h.ids known known'
  · rw [sent, written]
    rw [ids] at known
    split at known
    · next same =>
      cases known
      rw [h.unsaid new, h.unwritten (same ▸ free)]
      rfl
    · exact h.said known
  · rw [sent]
    refine h.unsaid fun k known => unknown k ?_
    rw [ids, if_neg fun same => ?_, known]
    rw [same, free] at known
    cases known
  · rw [written]
    rw [ids] at unknown
    split at unknown
    · cases unknown
    · exact h.unwritten unknown

/-- The stream takes an abort. -/
theorem Logged.abort (h : p.Logged) {id : ConnId} {reason : Reason} {bytes : Bytes}
    (packed : (⟨id, .abort reason⟩ : Envelope).packed = .ok bytes)
    (ids : ∀ k, p'.state.id? k = p.state.id? k) (sent : p'.sent = p.sent ++ [bytes])
    (wrote : p'.wrote = p.wrote) : p'.Logged := by
  have read := Envelope.unpacked_of_packed packed
  have same (id : ConnId) : payloads id p'.sent = payloads id p.sent := by
    rw [sent, payloads_concat id read]
    exact List.append_nil _
  have written := written_congr wrote
  refine ⟨?_, ?_, ?_, ?_, fun bytes' mem => ?_⟩
  case refine_5 =>
    rw [sent, List.mem_append, List.mem_singleton] at mem
    obtain mem | rfl := mem
    · exact h.readable bytes' mem
    · exact ⟨_, read⟩
  all_goals simp only [ids, same, written]
  · exact h.ids
  · exact h.said
  · exact h.unsaid
  · exact h.unwritten

/-- The stream takes the next payload of a connection. -/
theorem Logged.payload (h : p.Logged) {k : ConnKey} {id : ConnId} {data bytes : Bytes}
    (named : p.state.id? k = some id)
    (packed : (⟨id, .payload (UInt64.ofNat (p.written k).length) data⟩ : Envelope).packed = .ok bytes)
    (ids : ∀ k, p'.state.id? k = p.state.id? k) (sent : p'.sent = p.sent ++ [bytes])
    (wrote : p'.wrote = p.wrote ++ [(k, data)]) : p'.Logged := by
  have read := Envelope.unpacked_of_packed packed
  have said (id' : ConnId) : payloads id' p'.sent = payloads id' p.sent ++
      if id = id' then [(UInt64.ofNat (p.written k).length, data)] else [] := by
    rw [sent, payloads_concat id' read, Envelope.payload?_payload]
    split <;> rfl
  refine ⟨fun known known' => ?_, fun {l id'} known => ?_, fun {id'} unknown => ?_,
    fun {l} unknown => ?_, fun bytes' mem => ?_⟩
  · exact h.ids (ids _ ▸ known) (ids _ ▸ known')
  · rw [ids] at known
    rw [said, written_concat wrote, h.said known]
    by_cases same : k = l
    · subst same
      cases named.symm.trans known
      rw [if_pos rfl, if_pos rfl, numbered_concat]
    · have other : id ≠ id' := fun eq => same (h.ids named (eq ▸ known))
      rw [if_neg same, if_neg other, List.append_nil, List.append_nil]
  · have other : id ≠ id' := fun eq => unknown k ((ids k).trans (eq ▸ named))
    rw [said, if_neg other, List.append_nil]
    exact h.unsaid fun l known => unknown l ((ids l).trans known)
  · rw [ids] at unknown
    have other : k ≠ l := fun eq => by
      rw [eq, unknown] at named
      cases named
    rw [written_concat wrote, if_neg other, List.append_nil, h.unwritten unknown]
  · rw [sent, List.mem_append, List.mem_singleton] at mem
    obtain mem | rfl := mem
    · exact h.readable bytes' mem
    · exact ⟨_, read⟩

/-! ## The numbers that are out -/

/-- Whether a message is a payload of a connection that has its number and waits for room. -/
def Sends (p : Party) (k : ConnKey) : Prop :=
  ∃ i data t packed, p.job? i = some ⟨.payload k data, .sending t packed⟩

/-- The envelope of a message that is the next to go out for its connection. -/
def envelope? (p : Party) : Message → Option Envelope
  | .payload k data =>
    (p.state.id? k).map fun id => ⟨id, .payload (UInt64.ofNat (p.written k).length) data⟩
  | .abort id reason => some ⟨id, .abort reason⟩

/-- The number of each connection is that of its next payload, or one more while a payload has its
number and waits for room. -/
structure Numbered (p : Party) : Prop where
  idle : ∀ {k n}, p.state.next? k = some n → ¬p.Sends k → n = UInt64.ofNat (p.written k).length
  busy : ∀ {k n}, p.state.next? k = some n → p.Sends k → n = UInt64.ofNat (p.written k).length + 1
  carries : ∀ {i m t packed}, p.job? i = some ⟨m, .sending t packed⟩ →
    ∃ e, p.envelope? m = some e ∧ packed = e.packed

theorem envelope?_congr (ids : ∀ k, p'.state.id? k = p.state.id? k)
    (wrote : p'.wrote = p.wrote) (m : Message) : p'.envelope? m = p.envelope? m := by
  cases m with
  | payload k data => rw [envelope?, envelope?, ids, written_congr wrote]
  | abort id reason => rfl

/-- The messages that wait for room are the same. -/
def SameSending (p p' : Party) : Prop :=
  ∀ {i m t packed}, p'.job? i = some ⟨m, .sending t packed⟩ ↔
    p.job? i = some ⟨m, .sending t packed⟩

theorem Numbered.congr (h : p.Numbered) (ids : ∀ k, p'.state.id? k = p.state.id? k)
    (next : ∀ k, p'.state.next? k = p.state.next? k) (wrote : p'.wrote = p.wrote)
    (jobs : p.SameSending p') : p'.Numbered := by
  have sends (k : ConnKey) : p'.Sends k ↔ p.Sends k :=
    exists_congr fun _ => exists_congr fun _ => exists_congr fun _ => exists_congr fun _ => jobs
  have written := written_congr wrote
  refine ⟨?_, ?_, fun known => ?_⟩
  · simp only [next, sends, written]
    exact h.idle
  · simp only [next, sends, written]
    exact h.busy
  · rw [envelope?_congr ids wrote]
    exact h.carries (jobs.mp known)

/-- A message that waits for room is of a connection that there is. -/
theorem Numbered.exists_id? (h : p.Numbered) {k : ConnKey} (sends : p.Sends k) :
    ∃ id, p.state.id? k = some id := by
  obtain ⟨i, data, t, packed, known⟩ := sends
  obtain ⟨e, next, -⟩ := h.carries known
  obtain ⟨id, named, -⟩ := Option.map_eq_some_iff.mp next
  exact ⟨id, named⟩

/-- Connections are added that nothing was written to. -/
theorem Numbered.enlarge (h : p.Numbered) (unwritten : ∀ {k}, p.state.id? k = none → p.written k = [])
    (larger : p.state.Enlarges p'.state) (wrote : p'.wrote = p.wrote) (jobs : p.SameSending p') :
    p'.Numbered := by
  have sends (k : ConnKey) : p'.Sends k ↔ p.Sends k :=
    exists_congr fun _ => exists_congr fun _ => exists_congr fun _ => exists_congr fun _ => jobs
  have written := written_congr wrote
  refine ⟨fun {k n} next idle => ?_, fun {k n} next busy => ?_, fun {i m t packed} known => ?_⟩
  · rw [written]
    cases named : p.state.id? k with
    | none =>
      rw [larger.new named next, unwritten named]
      rfl
    | some id =>
      rw [larger.next (named ▸ nofun)] at next
      exact h.idle next (mt (sends k).mpr idle)
  · obtain ⟨id, named⟩ := h.exists_id? ((sends k).mp busy)
    rw [larger.next (named ▸ nofun)] at next
    rw [written]
    exact h.busy next ((sends k).mp busy)
  · obtain ⟨e, next, packs⟩ := h.carries (jobs.mp known)
    refine ⟨e, ?_, packs⟩
    cases m with
    | abort id reason => exact next
    | payload k data =>
      obtain ⟨id, named, rfl⟩ := Option.map_eq_some_iff.mp next
      rw [envelope?, larger.ids named, written]
      rfl

/-- Once the message that had the turn has left, no message waits for room. -/
theorem not_sending_of_left (queued : p.Queued) {m : Message} {t : Nat}
    {packed : Except Wire.Error Bytes} (known : p.job? i = some ⟨m, .sending t packed⟩)
    (jobs : ∀ j, p'.job? j = if i = j then none else p.job? j) {j : Nat} {m' : Message} {t' : Nat}
    {packed' : Except Wire.Error Bytes} : p'.job? j ≠ some ⟨m', .sending t' packed'⟩ := by
  intro known'
  rw [jobs] at known'
  split at known'
  · cases known'
  · next other => exact other (queued.sending_unique known known')

/-- No connection but that of the message that has the turn has a number out. -/
theorem not_sends_of_other (queued : p.Queued) {m : Message} {t : Nat}
    {packed : Except Wire.Error Bytes} (known : p.job? i = some ⟨m, .sending t packed⟩)
    {k : ConnKey} (other : ∀ data, m ≠ .payload k data) : ¬p.Sends k := by
  rintro ⟨j, data, t', packed', known'⟩
  cases queued.sending_unique known known'
  cases known.symm.trans known'
  exact other data rfl

/-- A message leaves that has the turn: a payload gives its number back. -/
theorem Numbered.giveBack (h : p.Numbered) (queued : p.Queued) {m : Message} {t : Nat}
    {packed : Except Wire.Error Bytes} (known : p.job? i = some ⟨m, .sending t packed⟩)
    (next : ∀ k, p'.state.next? k = (p.state.giveBack m).next? k) (wrote : p'.wrote = p.wrote)
    (jobs : ∀ j, p'.job? j = if i = j then none else p.job? j) : p'.Numbered := by
  have none_sends {j m' t' packed'} : p'.job? j ≠ some ⟨m', .sending t' packed'⟩ :=
    not_sending_of_left queued known jobs
  refine ⟨fun {k n} next' _ => ?_, fun _ ⟨_, _, _, _, known'⟩ => absurd known' none_sends,
    fun known' => absurd known' none_sends⟩
  rw [written_congr wrote]
  rw [next] at next'
  cases m with
  | abort id reason => exact h.idle next' (not_sends_of_other queued known nofun)
  | payload l data =>
    rw [State.next?_giveBack_payload] at next'
    split at next'
    · next same =>
      subst same
      obtain ⟨n', before, rfl⟩ := Option.map_eq_some_iff.mp next'
      rw [h.busy before ⟨i, data, t, packed, known⟩, UInt64.add_sub_cancel]
    · next other =>
      exact h.idle next' (not_sends_of_other queued known fun _ same => other (by cases same; rfl))

/-- A message takes the turn: a payload takes its number. -/
theorem Numbered.acquire (h : p.Numbered) (queued : p.Queued) {m : Message} {t : Nat} {turn : Turn}
    (free : p.state.turn.acquire? t = some turn) (may : p.state.mayStart m = .ok ())
    (state : p'.state = ({ p.state with turn }.reserve m).1) (wrote : p'.wrote = p.wrote)
    (jobs : ∀ j, p'.job? j =
      if i = j then some ⟨m, .sending t (p.state.reserve m).2.packed⟩ else p.job? j) :
    p'.Numbered := by
  obtain ⟨rest, line, -⟩ := Turn.acquire?_eq_some.mp free
  have idle (k : ConnKey) : ¬p.Sends k := fun ⟨_, _, _, _, known'⟩ =>
    queued.not_sending (by rw [line]) known'
  have alone {j m' t' packed} (known' : p'.job? j = some ⟨m', .sending t' packed⟩) :
      i = j ∧ m' = m ∧ packed = (p.state.reserve m).2.packed := by
    rw [jobs] at known'
    split at known'
    · next same =>
      cases known'
      exact ⟨same, rfl, rfl⟩
    · exact absurd known' (queued.not_sending (by rw [line]))
  have ids (k : ConnKey) : p'.state.id? k = p.state.id? k := by
    rw [state]
    exact State.id?_reserve _ m k
  cases m with
  | abort id reason =>
    refine ⟨fun next _ => ?_, fun _ ⟨_, _, _, _, known'⟩ => ?_, fun known' => ?_⟩
    · rw [written_congr wrote]
      rw [state] at next
      exact h.idle next (idle _)
    · cases (alone known').2.1
    · obtain ⟨-, rfl, rfl⟩ := alone known'
      exact ⟨_, rfl, rfl⟩
  | payload k data =>
    obtain ⟨id, named⟩ := State.exists_id?_of_mayStart may
    obtain ⟨n, before⟩ := State.exists_next? named
    have next (l : ConnKey) : p'.state.next? l =
        if k = l then (p.state.next? l).map (· + 1) else p.state.next? l := by
      rw [state]
      exact State.next?_reserve_payload _ k data l
    refine ⟨fun {l n'} next' sends => ?_, fun {l n'} next' sends => ?_, fun known' => ?_⟩
    · rw [written_congr wrote]
      rw [next] at next'
      split at next'
      · next same =>
        have taken : p'.job? i = _ := (jobs i).trans (if_pos rfl)
        exact absurd ⟨i, data, t, _, same ▸ taken⟩ sends
      · exact h.idle next' (idle l)
    · rw [written_congr wrote]
      obtain ⟨j, data', t', packed, known'⟩ := sends
      obtain ⟨-, same, -⟩ := alone known'
      cases same
      rw [next, if_pos rfl, before] at next'
      cases next'
      rw [h.idle before (idle k)]
    · obtain ⟨-, rfl, rfl⟩ := alone known'
      refine ⟨_, ?_, rfl⟩
      rw [envelope?_congr ids wrote, State.reserve_payload named before, envelope?, named,
        h.idle before (idle k)]
      rfl

/-- The stream takes the message that has the turn. -/
theorem Numbered.taken (h : p.Numbered) (queued : p.Queued) {m : Message} {t : Nat}
    {packed : Except Wire.Error Bytes} (known : p.job? i = some ⟨m, .sending t packed⟩)
    (next : ∀ k, p'.state.next? k = p.state.next? k)
    (wrote : p'.wrote = p.wrote ++ m.payload?.toList)
    (jobs : ∀ j, p'.job? j = if i = j then none else p.job? j) : p'.Numbered := by
  have none_sends {j m' t' packed'} : p'.job? j ≠ some ⟨m', .sending t' packed'⟩ :=
    not_sending_of_left queued known jobs
  refine ⟨fun {k n} next' _ => ?_, fun _ ⟨_, _, _, _, known'⟩ => absurd known' none_sends,
    fun known' => absurd known' none_sends⟩
  rw [next] at next'
  cases m with
  | abort id reason =>
    rw [written_congr (wrote.trans (List.append_nil _))]
    exact h.idle next' (not_sends_of_other queued known nofun)
  | payload l data =>
    rw [written_concat wrote]
    split
    · next same =>
      subst same
      rw [h.busy next' ⟨i, data, t, packed, known⟩, List.length_append, List.length_singleton,
        UInt64.ofNat_add]
      rfl
    · next other =>
      rw [List.append_nil]
      exact h.idle next' (not_sends_of_other queued known fun _ same => other (by cases same; rfl))

/-! ## All of it -/

/-- The sending side of a session is in order. -/
structure Sound (p : Party) : Prop where
  queued : p.Queued
  logged : p.Logged
  numbered : p.Numbered

/-- The messages that wait for room are the same when one is replaced that does not. -/
theorem sameSending_of_set (known : p.job? i = some o)
    (stage : ∀ t packed, o.stage ≠ .sending t packed) {o' : Option Outgoing}
    (stage' : ∀ m t packed, o' ≠ some ⟨m, .sending t packed⟩)
    (jobs : ∀ j, p'.job? j = if i = j then o' else p.job? j) : p.SameSending p' := by
  intro j m t packed
  rw [jobs]
  split
  · next same =>
    subst same
    refine ⟨fun known' => absurd known' (stage' m t packed), fun known' => ?_⟩
    cases known.symm.trans known'
    exact absurd rfl (stage t packed)
  · exact Iff.rfl

theorem sameSending_send (p : Party) (m : Message) : p.SameSending (p.send m) := by
  intro j m' t packed
  rw [job?_send]
  split
  · next last =>
    refine ⟨nofun, fun known => absurd (lt_of_job? known) (last ▸ Nat.lt_irrefl _)⟩
  · exact Iff.rfl

theorem Sound.send (h : p.Sound) (m : Message) : (p.send m).Sound :=
  ⟨h.queued.send m, h.logged.congr (fun _ => rfl) rfl rfl,
    h.numbered.congr (fun _ => rfl) (fun _ => rfl) rfl (sameSending_send p m)⟩

theorem id?_cancel (s : State) (o : Outgoing) (k : ConnKey) : (o.cancel s).id? k = s.id? k := by
  unfold Outgoing.cancel
  split
  · rfl
  · rfl
  · exact State.id?_giveBack s o.message k

theorem Numbered.giveUp (h : p.Numbered) (queued : p.Queued) (known : p.job? i = some o) :
    (p.giveUp i o).Numbered := by
  have jobs (j : Nat) : (p.giveUp i o).job? j = if i = j then none else p.job? j :=
    job?_setJob known none j
  -- Without a number to give back nothing changes but the turn.
  have plain (stage : ∀ t packed, o.stage ≠ .sending t packed)
      (ids : ∀ k, (o.cancel p.state).id? k = p.state.id? k)
      (next : ∀ k, (o.cancel p.state).next? k = p.state.next? k) : (p.giveUp i o).Numbered :=
    h.congr ids next rfl (sameSending_of_set known stage (by nofun) jobs)
  obtain ⟨m, stage⟩ := o
  cases stage with
  | fresh => exact plain nofun (fun _ => rfl) fun _ => rfl
  | waiting t => exact plain nofun (fun _ => rfl) fun _ => rfl
  | sending t packed => exact h.giveBack queued known (fun _ => rfl) rfl jobs

theorem Sound.giveUp (h : p.Sound) (known : p.job? i = some o) : (p.giveUp i o).Sound :=
  ⟨h.queued.giveUp known, h.logged.congr (id?_cancel p.state o) rfl rfl,
    h.numbered.giveUp h.queued known⟩

theorem Numbered.settle (h : p.Numbered) (queued : p.Queued) (known : p.job? i = some o)
    {outcome : Outgoing.Outcome} (moved : o.Moved p.state p.stream outcome) :
    (p.settle i o outcome).Numbered := by
  cases moved with
  | enqueued fresh _ _ =>
    have stage (t packed) : o.stage ≠ .sending t packed := by rw [fresh]; nofun
    exact h.congr (fun _ => rfl) (fun _ => rfl) rfl
      (sameSending_of_set known stage (fun _ _ _ same => by cases same) (job?_setJob known _))
  | acquired waits free may _ => exact h.acquire queued free may rfl rfl (job?_setJob known _)
  | taken sends _ _ =>
    obtain ⟨m, stage⟩ := o
    cases sends
    exact h.taken queued known (fun _ => rfl) rfl (job?_setJob known none)
  | failed _ => exact h.giveUp queued known

theorem Logged.taken (h : p.Logged) (numbered : p.Numbered) {t : Nat} {bytes : Bytes}
    (known : p.job? i = some o) (sends : o.stage = .sending t (.ok bytes)) (stream : Stream.Endpoint) :
    (p.settle i o (p.state.leave t, stream, .settled (.ok ()))).Logged := by
  obtain ⟨m, stage⟩ := o
  cases sends
  obtain ⟨e, next, packed⟩ := numbered.carries known
  cases m with
  | abort id reason =>
    cases next
    exact h.abort packed.symm (fun _ => rfl) rfl (List.append_nil _)
  | payload k data =>
    obtain ⟨id, named, rfl⟩ := Option.map_eq_some_iff.mp next
    exact h.payload named packed.symm (fun _ => rfl) rfl rfl

theorem Sound.settle (h : p.Sound) (known : p.job? i = some o) {outcome : Outgoing.Outcome}
    (moved : o.Moved p.state p.stream outcome) : (p.settle i o outcome).Sound := by
  refine ⟨h.queued.settle known moved, ?_, h.numbered.settle h.queued known moved⟩
  cases moved with
  | enqueued _ _ _ => exact h.logged.congr (fun _ => rfl) rfl rfl
  | acquired _ _ _ _ => exact h.logged.congr (State.id?_reserve _ o.message) rfl rfl
  | taken sends _ _ => exact h.logged.taken h.numbered known sends _
  | failed _ => exact h.logged.congr (id?_cancel p.state o) rfl rfl

end Party

/-- Nothing that concerns sending has changed. -/
structure State.SameSending (s s' : State) : Prop where
  ids : ∀ k, s'.id? k = s.id? k
  next : ∀ k, s'.next? k = s.next? k
  turn : s'.turn = s.turn
  nextTicket : s'.nextTicket = s.nextTicket

namespace Party

variable {p : Party}

/-- A step of the reading activity or of a reader. -/
theorem Sound.congr (h : p.Sound) {p' : Party} (same : p.state.SameSending p'.state)
    (jobs : p'.jobs = p.jobs) (sent : p'.sent = p.sent) (wrote : p'.wrote = p.wrote) : p'.Sound := by
  have job (i : Nat) : p'.job? i = p.job? i := by rw [job?, jobs, job?]
  refine ⟨h.queued.congr same.turn same.nextTicket fun known _ => job _ ▸ known,
    h.logged.congr same.ids sent wrote, h.numbered.congr same.ids same.next wrote ?_⟩
  intro i m t packed
  rw [job]

/-- A connection is added under a name that is new. -/
theorem Sound.register (h : p.Sound) {p' : Party} {n : ConnKey} {id : ConnId}
    (free : p.state.id? n = none) (new : ∀ k, p.state.id? k ≠ some id)
    (ids : ∀ k, p'.state.id? k = if k = n then some id else p.state.id? k)
    (next : ∀ k, p'.state.next? k = if k = n then some 0 else p.state.next? k)
    (turn : p'.state.turn = p.state.turn) (nextTicket : p'.state.nextTicket = p.state.nextTicket)
    (jobs : p'.jobs = p.jobs) (sent : p'.sent = p.sent) (wrote : p'.wrote = p.wrote) : p'.Sound := by
  have job (i : Nat) : p'.job? i = p.job? i := by rw [job?, jobs, job?]
  have other {k : ConnKey} (known : p.state.id? k ≠ none) : k ≠ n := fun same => known (same ▸ free)
  refine ⟨h.queued.congr turn nextTicket fun known _ => job _ ▸ known,
    h.logged.register ids free new sent wrote, h.numbered.enlarge h.logged.unwritten
      ⟨fun {k id} known => ?_, fun {k} known => ?_, fun {k m} absent known => ?_, turn, nextTicket⟩
      wrote ?_⟩
  · rw [ids, if_neg (other (known ▸ nofun)), known]
  · rw [next, if_neg (other known)]
  · rw [next] at known
    split at known
    · cases known
      rfl
    · rw [State.next?, Option.map_eq_none_iff.mp absent] at known
      cases known
  · intro i m t packed
    rw [job]

end Party

end Tether.Session
