import Tether.Proofs.Stream.Delivery

/-!
# Ends of a stream never accuse each other

An end takes a count of its peer for a fault if it lies outside of what it has sent and not yet
released. So a count that is older than one that came before would be fatal to a healthy stream,
and so would a unit behind the end marker.

Counts cannot come in the wrong order. Each tells how far the receiver had come when it was queued,
so the counts on their way from one end, in the order of sending, never decrease; a cut or a writer
that is let go only takes some of them out. Links are left for good: the messages of an end are
ordered by their links too, and whoever reads a link has left all older ones. So a message that can
still arrive was sent after all those that have.
-/

namespace Tether.Stream

open Chain (LinkId)
open Link (Side)

/-- The counts that messages bring. -/
def countsOf (messages : List (LinkId × Bytes)) : List Nat :=
  messages.filterMap fun x => Party.countOf? x.2

@[simp]
theorem countsOf_append (front back : List (LinkId × Bytes)) :
    countsOf (front ++ back) = countsOf front ++ countsOf back :=
  List.filterMap_append

theorem countOf?_eq_some {data : Bytes} {count : Nat} :
    Party.countOf? data = some count ↔
      Frame.decode data = .ok (.sync count) ∨ Frame.decode data = .ok (.ack count) := by
  unfold Party.countOf?
  split <;> simp_all

theorem mem_countsOf {messages : List (LinkId × Bytes)} {count : Nat} :
    count ∈ countsOf messages ↔ ∃ x ∈ messages, Party.countOf? x.2 = some count :=
  List.mem_filterMap

/-- Messages in the order of sending, on links that are left for good. -/
structure InOrder (messages : List (LinkId × Bytes)) (last : Option LinkId) (stitched : LinkId) :
    Prop where
  counts : (countsOf messages).Pairwise (· ≤ ·)
  links : (messages.map (·.1)).Pairwise (· ≤ ·)
  link_le : ∀ x ∈ messages, x.1 ≤ stitched
  last_le : ∀ k, last = some k → k ≤ stitched ∧ ∀ x ∈ messages, x.1 ≤ k

namespace InOrder

variable {messages fewer : List (LinkId × Bytes)} {last last' : Option LinkId}
  {stitched stitched' k : LinkId} {data : Bytes}

/-- Messages that are lost or arrive leave the others in order. -/
theorem sublist (h : InOrder messages last stitched) (sub : fewer.Sublist messages)
    (lost : last' = last ∨ last' = none) : InOrder fewer last' stitched where
  counts := h.counts.sublist (sub.filterMap _)
  links := h.links.sublist (sub.map _)
  link_le := fun x mem => h.link_le x (sub.subset mem)
  last_le := by
    rintro j held
    rcases lost with rfl | rfl
    · exact ⟨(h.last_le j held).1, fun x mem => (h.last_le j held).2 x (sub.subset mem)⟩
    · cases held

/-- A new message comes last, with a count no lower than the others, on a link no older. -/
theorem concat (h : InOrder messages last stitched) (given : stitched ≤ stitched')
    (known : k ≤ stitched') (older : ∀ x ∈ messages, x.1 ≤ k)
    (lower : ∀ count, Party.countOf? data = some count → ∀ c ∈ countsOf messages, c ≤ count) :
    InOrder (messages ++ [(k, data)]) (some k) stitched' where
  counts := by
    rw [countsOf_append, List.pairwise_append]
    refine ⟨h.counts, ?_, ?_⟩
    · cases count : Party.countOf? data <;> simp [countsOf, count]
    · intro c mem count new
      obtain ⟨x, mem', found⟩ := mem_countsOf.mp new
      rw [List.mem_singleton.mp mem'] at found
      exact lower count found c mem
  links := by
    rw [List.map_append, List.pairwise_append]
    refine ⟨h.links, List.pairwise_singleton _ _, ?_⟩
    intro j mem l new
    obtain ⟨x, mem', rfl⟩ := List.mem_map.mp mem
    rw [List.mem_singleton.mp new]
    exact older x mem'
  link_le := by
    intro x mem
    rcases List.mem_append.mp mem with mem | mem
    · exact Nat.le_trans (h.link_le x mem) given
    · rw [List.mem_singleton.mp mem]
      exact known
  last_le := by
    rintro _ ⟨⟩
    refine ⟨known, fun x mem => ?_⟩
    rcases List.mem_append.mp mem with mem | mem
    · exact older x mem
    · exact Nat.le_of_eq (congrArg Prod.fst (List.mem_singleton.mp mem))

/-- A reply goes to the writer that the end will have by then. -/
theorem concat_addressed (h : InOrder messages last stitched) {reply : Option Frame}
    (lower : ∀ f ∈ reply, ∀ count, Party.countOf? f.encode = some count →
      ∀ c ∈ countsOf messages, c ≤ count) :
    InOrder (messages ++ addressed last reply) last stitched := by
  match last, reply with
  | none, _ => simpa [addressed] using h
  | some j, none => simpa [addressed] using h
  | some j, some f =>
    obtain ⟨known, older⟩ := h.last_le j rfl
    exact h.concat (Nat.le_refl _) known older (lower f rfl)

/-- What precedes the oldest message of a link in flight is for older links. -/
theorem front_lt {front back : List (LinkId × Bytes)}
    (h : InOrder (front ++ (k, data) :: back) last stitched) (first : ∀ x ∈ front, x.1 ≠ k) :
    ∀ x ∈ front, x.1 < k := by
  intro x mem
  have links := h.links
  rw [List.map_append, List.pairwise_append] at links
  have le := links.2.2 x.1 (List.mem_map_of_mem mem) k (by simp)
  exact Nat.lt_of_le_of_ne le (first x mem)

end InOrder

namespace View

/-- What keeps an end from ever finding fault with its peer. -/
structure Agrees (v w : View) (cut : List LinkId) : Prop extends Delivers v w cut where
  inOrder : InOrder v.outgoing v.last v.stitched
  heard_sorted : v.heard.Pairwise (· ≤ ·)
  /-- The peer's receiver has come at least as far as the end was told. -/
  known : ∀ h ∈ v.acked :: v.heard, h ≤ w.receiver.expected
  /-- What can still arrive tells of no less than what has arrived. -/
  recalls : ∀ h ∈ v.acked :: v.heard, ∀ x ∈ w.outgoing, v.stitched ≤ x.1 →
    ∀ count, Party.countOf? x.2 = some count → h ≤ count
  /-- Numbers are words of 64 bits; as long as they suffice, no fault was found. -/
  faultless : v.log.length < UInt64.size → w.log.length < UInt64.size → v.faulted = false

variable {v v' w : View} {cut : List LinkId} {data : Bytes}

/-- A count is never ahead of the receiver that it tells of. -/
theorem Genuine.count_le (h : v.Genuine data) {count : Nat}
    (counts : Party.countOf? data = some count) : count ≤ v.receiver.expected := by
  obtain ⟨f, rfl, vouched⟩ := h
  rcases countOf?_eq_some.mp counts with read | read
  · rw [← Frame.eq_of_decode_encode read] at vouched
    exact vouched
  · rw [← Frame.eq_of_decode_encode read] at vouched
    exact vouched

theorem Delivers.counts_le (h : v.Delivers w cut) : ∀ c ∈ countsOf v.outgoing,
    c ≤ v.receiver.expected := by
  intro c mem
  obtain ⟨x, mem, counts⟩ := mem_countsOf.mp mem
  exact (h.honest x mem).count_le counts

/-- The receiver has come no further than its peer. -/
theorem Delivers.expected_le (h : v.Delivers w cut) : v.receiver.expected ≤ w.log.length := by
  rw [← h.counted]
  exact h.delivered.length_le

theorem Delivers.expected_eq_of_ended (h : v.Delivers w cut) (back : w.Delivers v cut)
    (ended : v.receiver.peerEnded = true) : v.receiver.expected = w.log.length := by
  obtain ⟨front, rest, same⟩ := List.append_of_mem (h.ended.mp ended)
  have part : front ++ [[]] <+: w.wrote ++ endMarker w.closed :=
    List.IsPrefix.trans ⟨rest, by rw [same, List.append_assoc]; rfl⟩ h.delivered
  obtain ⟨all, closed⟩ := eq_wrote_of_endMarker back.nonempty part
  have bound := h.delivered.length_le
  rw [← h.counted, same] at *
  simp only [log, closed, endMarker_true, ← all, List.length_append, List.length_cons,
    List.length_nil] at bound ⊢
  omega

/-- A message of a peer is read back, as long as words of 64 bits suffice for the numbers. -/
theorem Genuine.decode_eq_ok (h : v.Genuine data) (reached : v.receiver.expected ≤ w.log.length)
    (fits : v.log.length < UInt64.size) (fits' : w.log.length < UInt64.size) :
    ∃ f, Frame.decode data = .ok f := by
  obtain ⟨f, rfl, vouched⟩ := h
  refine ⟨f, Frame.decode_encode ?_⟩
  cases f with
  | chunk seq payload =>
    obtain ⟨bound, -⟩ := List.getElem?_eq_some_iff.mp vouched
    exact Nat.lt_trans bound fits
  | sync count => exact Nat.lt_of_le_of_lt vouched (Nat.lt_of_le_of_lt reached fits')
  | ack count => exact Nat.lt_of_le_of_lt vouched (Nat.lt_of_le_of_lt reached fits')

/-! ## What an end does by itself -/

theorem Acts.inOrder (act : Acts cut v v') (h : InOrder v.outgoing v.last v.stitched)
    (lower : ∀ c ∈ countsOf v.outgoing, c ≤ v.receiver.expected) :
    InOrder v'.outgoing v'.last v'.stitched := by
  cases act with
  | fades fewer kept lost => exact h.sublist fewer (lost.imp id And.left)
  | writes => exact h
  | closes => exact h
  | @sends unit k found bound =>
    obtain ⟨known, older⟩ := h.last_le k bound
    have sent : InOrder (v.outgoing ++ [(k, (Frame.chunk v.cursor unit).encode)]) (some k)
        v.stitched := by
      refine h.concat (Nat.le_refl _) known older ?_
      intro count counts
      rcases countOf?_eq_some.mp counts with read | read <;>
        cases Frame.eq_of_decode_encode read
    rw [← bound] at sent
    exact sent
  | @stitches k newer =>
    refine h.concat (Nat.le_of_lt newer) (Nat.le_refl k)
      (fun x mem => Nat.le_trans (h.link_le x mem) (Nat.le_of_lt newer)) ?_
    intro count counts c mem
    rcases countOf?_eq_some.mp counts with read | read
    · cases Frame.eq_of_decode_encode read
      exact lower c mem
    · cases Frame.eq_of_decode_encode read

/-- A new message of an end tells of no less than its receiver has reached. -/
theorem Acts.new_counts (act : Acts cut v v') : ∀ x ∈ v'.outgoing,
    x ∈ v.outgoing ∨ ∀ count, Party.countOf? x.2 = some count → count = v.receiver.expected := by
  cases act with
  | fades fewer => exact fun x mem => .inl (fewer.subset mem)
  | writes => exact fun x mem => .inl mem
  | closes => exact fun x mem => .inl mem
  | @sends unit k found bound =>
    intro x mem
    refine (List.mem_append.mp mem).imp id fun new count counts => ?_
    rw [List.mem_singleton.mp new] at counts
    rcases countOf?_eq_some.mp counts with read | read
    · cases Frame.eq_of_decode_encode (f := .chunk v.cursor unit) read
    · cases Frame.eq_of_decode_encode (f := .chunk v.cursor unit) read
  | @stitches k newer =>
    intro x mem
    refine (List.mem_append.mp mem).imp id fun new count counts => ?_
    rw [List.mem_singleton.mp new] at counts
    rcases countOf?_eq_some.mp counts with read | read
    · cases Frame.eq_of_decode_encode (f := .sync v.receiver.expected) read
      rfl
    · cases Frame.eq_of_decode_encode (f := .sync v.receiver.expected) read

/-- What an end was told and which link it reads, it changes by itself only for a newer link. -/
theorem Acts.told (act : Acts cut v v') :
    v'.acked = v.acked ∧ v'.heard = v.heard ∧ v.stitched ≤ v'.stitched ∧
      v'.faulted = v.faulted := by
  cases act with
  | stitches newer => exact ⟨rfl, rfl, Nat.le_of_lt newer, rfl⟩
  | _ => exact ⟨rfl, rfl, Nat.le_refl _, rfl⟩

/-! ## What a message does -/

/-- The reply to a message tells how far the receiver has come with it. -/
theorem Takes.new_counts (act : Takes v data v') : v.receiver.expected ≤ v'.receiver.expected ∧
    ∀ x ∈ v'.outgoing, x ∈ v.outgoing ∨
      ∀ count, Party.countOf? x.2 = some count → count = v'.receiver.expected := by
  obtain ⟨-, receiver, outgoing⟩ | ⟨seq, payload, r, -, taken, rfl⟩ := act.received
  · rw [receiver, outgoing]
    exact ⟨Nat.le_refl _, fun x mem => .inl mem⟩
  · obtain ⟨more, counts⟩ := reply_count taken
    refine ⟨more, fun x mem => (List.mem_append.mp mem).imp id fun new count found => ?_⟩
    obtain ⟨f, mem, -, same⟩ := mem_addressed new
    rw [same] at found
    rcases counts f mem with rfl | rfl <;> rcases countOf?_eq_some.mp found with read | read <;>
      cases Frame.eq_of_decode_encode read <;> rfl

theorem Takes.inOrder (act : Takes v data v') (h : InOrder v.outgoing v.last v.stitched)
    (lower : ∀ c ∈ countsOf v.outgoing, c ≤ v.receiver.expected) :
    InOrder v'.outgoing v'.last v'.stitched := by
  have links : v'.last = v.last ∧ v'.stitched = v.stitched := by
    cases act <;> exact ⟨rfl, rfl⟩
  rw [links.1, links.2]
  obtain ⟨-, -, outgoing⟩ | ⟨seq, payload, r, -, taken, rfl⟩ := act.received
  · rw [outgoing]
    exact h
  · obtain ⟨more, counts⟩ := reply_count taken
    refine h.concat_addressed fun f mem count found c old => ?_
    have reached : count = r.receiver.expected := by
      rcases counts f mem with rfl | rfl <;> rcases countOf?_eq_some.mp found with read | read <;>
        cases Frame.eq_of_decode_encode read <;> rfl
    rw [reached]
    exact Nat.le_trans (lower c old) more

/-- A message adds to what the end was told at most its own count. -/
theorem Takes.told (act : Takes v data v') :
    v'.heard = v.heard ++ (Party.countOf? data).toList ∧
      (v'.acked = v.acked ∨ Party.countOf? data = some v'.acked) := by
  have brings : ∀ {count}, Frame.decode data = .ok (.sync count) ∨
      Frame.decode data = .ok (.ack count) → Party.countOf? data = some count :=
    countOf?_eq_some.mpr
  cases act with
  | garbled read => simp [Party.countOf?, read]
  | unit read => simp [Party.countOf?, read, receipt]
  | afterEnd read => simp [Party.countOf?, read]
  | count read => simp [brings (read.imp And.left And.left)]
  | outside read => simp [brings read]
  | late read => simp [brings read]

theorem Takes.mem_told (act : Takes v data v') :
    ∀ h ∈ v'.acked :: v'.heard, h ∈ v.acked :: v.heard ∨ Party.countOf? data = some h := by
  obtain ⟨heard, acked⟩ := act.told
  intro h mem
  rcases List.mem_cons.mp mem with rfl | mem
  · rcases acked with same | counts
    · exact .inl (same ▸ List.mem_cons_self)
    · exact .inr counts
  · rw [heard] at mem
    rcases List.mem_append.mp mem with mem | mem
    · exact .inl (List.mem_cons_of_mem _ mem)
    · exact .inr (Option.mem_toList.mp mem)

theorem Takes.stitched_eq (act : Takes v data v') : v'.stitched = v.stitched := by
  cases act <;> rfl

/-- The counts of a peer that can arrive lie between what was told before and what was sent. -/
theorem Agrees.count_bounds (h : v.Agrees w cut) (back : w.Agrees v cut)
    (mem : (v.stitched, data) ∈ w.outgoing) {count : Nat}
    (counts : Party.countOf? data = some count) :
    (∀ told ∈ v.acked :: v.heard, told ≤ count) ∧ count ≤ w.receiver.expected ∧
      count ≤ v.log.length := by
  have reached := (back.honest _ mem).count_le counts
  refine ⟨fun told old => ?_, reached, ?_⟩
  · exact h.recalls told old _ mem (Nat.le_refl _) count counts
  · exact Nat.le_trans reached back.expected_le

/-- A unit of a peer that has the number expected does not follow the end marker. -/
theorem Agrees.notEnded (h : v.Agrees w cut) (back : w.Agrees v cut)
    (mem : (v.stitched, data) ∈ w.outgoing) {payload : Bytes}
    (read : Frame.decode data = .ok (.chunk v.receiver.expected payload)) :
    v.receiver.peerEnded = false := by
  obtain ⟨f, rfl, vouched⟩ := back.honest _ mem
  rw [← Frame.eq_of_decode_encode read] at vouched
  obtain ⟨bound, -⟩ := List.getElem?_eq_some_iff.mp vouched
  cases ended : v.receiver.peerEnded with
  | false => rfl
  | true =>
    have all := h.toDelivers.expected_eq_of_ended back.toDelivers ended
    omega

/-- No message of a peer is a fault. -/
theorem Agrees.faulted_eq (h : v.Agrees w cut) (back : w.Agrees v cut)
    (mem : (v.stitched, data) ∈ w.outgoing) (act : Takes v data v')
    (fits : v.log.length < UInt64.size) (fits' : w.log.length < UInt64.size) :
    v'.faulted = v.faulted := by
  cases act with
  | garbled read =>
    obtain ⟨f, good⟩ := (back.honest _ mem).decode_eq_ok back.expected_le fits' fits
    rw [good] at read
    cases read
  | unit => rfl
  | afterEnd read refused =>
    obtain ⟨rfl, ended⟩ := Receiver.chunk_eq_error refused
    have notEnded := h.notEnded back mem read
    rw [ended] at notEnded
    cases notEnded
  | count => rfl
  | outside read outside =>
    obtain ⟨lower, -, upper⟩ := h.count_bounds back mem (countOf?_eq_some.mpr read)
    have := lower v.acked List.mem_cons_self
    omega
  | late => rfl

end View

namespace Duplex

/-- Exchanges keep the messages of both ends in order. -/
theorem agrees_kept : Law.Kept View.Agrees := by
  intro v w v' w' cut cut' exchange h back
  obtain ⟨forth, peer⟩ := delivers_kept exchange h.toDelivers back.toDelivers
  cases exchange with
  | acts more act =>
    obtain ⟨acked, heard, newer, faulted⟩ := act.told
    have log := act.log_prefix.length_le
    refine ⟨⟨forth, act.inOrder h.inOrder h.counts_le, ?_, ?_, ?_, ?_⟩,
      ⟨peer, back.inOrder, back.heard_sorted, ?_, ?_, ?_⟩⟩
    · rw [heard]
      exact h.heard_sorted
    · rw [acked, heard]
      exact h.known
    · rw [acked, heard]
      exact fun told old x mem arrives => h.recalls told old x mem (Nat.le_trans newer arrives)
    · rw [faulted]
      exact fun fits => h.faultless (Nat.lt_of_le_of_lt log fits)
    · rw [act.received.2.1]
      exact back.known
    · intro told old x mem arrives count counts
      rcases act.new_counts x mem with mem | new
      · exact back.recalls told old x mem arrives count counts
      · rw [new count counts]
        exact back.known told old
    · exact fun fits fits' => back.faultless fits (Nat.lt_of_le_of_lt log fits')
  | @takes _ _ _ data front rest inFlight first act =>
    have arrived : (v.stitched, data) ∈ w.outgoing :=
      inFlight ▸ List.mem_append_right _ List.mem_cons_self
    have fewer : (front ++ rest).Sublist w.outgoing :=
      inFlight ▸ (List.sublist_cons_self _ _).append_left _
    obtain ⟨more, new⟩ := act.new_counts
    have log := act.log_eq
    -- what is left and can still arrive was sent after the message
    have later : ∀ count, Party.countOf? data = some count → ∀ x ∈ front ++ rest,
        v.stitched ≤ x.1 → ∀ c, Party.countOf? x.2 = some c → count ≤ c := by
      intro count counts x mem arrives c found
      have order := back.inOrder
      rw [inFlight] at order
      rcases List.mem_append.mp mem with mem | mem
      · exact absurd arrives (Nat.not_le.mpr (order.front_lt first x mem))
      · have sorted := order.counts
        rw [countsOf_append, List.pairwise_append] at sorted
        have tail : countsOf ((v.stitched, data) :: rest) = count :: countsOf rest := by
          simp [countsOf, counts]
        rw [tail] at sorted
        exact (List.pairwise_cons.mp sorted.2.1).1 c (mem_countsOf.mpr ⟨x, mem, found⟩)
    refine ⟨⟨forth, act.inOrder h.inOrder h.counts_le, ?_, ?_, ?_, ?_⟩,
      ⟨peer, back.inOrder.sublist fewer (.inl rfl), back.heard_sorted, ?_, ?_, ?_⟩⟩
    · rw [act.told.1, List.pairwise_append]
      refine ⟨h.heard_sorted, ?_, fun told old c same => ?_⟩
      · cases Party.countOf? data <;> simp
      · obtain ⟨lower, -⟩ := h.count_bounds back arrived (Option.mem_toList.mp same)
        exact lower told (List.mem_cons_of_mem _ old)
    · intro told mem
      rcases act.mem_told told mem with old | counts
      · exact h.known told old
      · exact (h.count_bounds back arrived counts).2.1
    · rw [act.stitched_eq]
      intro told mem x left arrives count counts
      rcases act.mem_told told mem with old | brought
      · exact h.recalls told old x (fewer.subset left) arrives count counts
      · exact later told brought x left arrives count counts
    · rw [log]
      intro fits fits'
      rw [h.faulted_eq back arrived act fits fits']
      exact h.faultless fits fits'
    · exact fun told old => Nat.le_trans (back.known told old) more
    · intro told old x mem arrives count counts
      rcases new x mem with mem | new
      · exact back.recalls told old x mem arrives count counts
      · rw [new count counts]
        exact Nat.le_trans (back.known told old) more
    · rw [log]
      exact back.faultless

theorem agrees_start (id : Chain.Id) (near far : Config) :
    (start id near far).Obeys View.Agrees := by
  have inOrder : InOrder [] none 0 := ⟨.nil, .nil, nofun, nofun⟩
  have known : ∀ told ∈ ([0] : List Nat), told ≤ 0 := fun told mem =>
    Nat.le_of_eq (List.mem_singleton.mp mem)
  intro side
  have delivers := delivers_start id near far side
  cases side <;>
    exact ⟨delivers, inOrder, .nil, known, fun _ _ _ mem => (List.not_mem_nil mem).elim,
      fun _ _ => rfl⟩

/-- After every run, all messages of both ends are in order, and none is a fault. -/
theorem agrees_run (id : Chain.Id) (near far : Config) (events : List Event) :
    ((start id near far).run events).Sound ∧ ((start id near far).run events).Obeys View.Agrees :=
  obeys_run agrees_kept id near far (agrees_start id near far) events

/-- Two ends never accuse each other, after any run and with any settings, while the numbers of
their units fit in words of 64 bits. No end fails by a fault of its peer. The counts that come to an
end never decrease, and the next message for it is a frame that is no fault either: its count lies
between what the buffer has released and what it has numbered, and a unit with the number expected
does not follow the end marker. -/
theorem never_accuses (id : Chain.Id) (near far : Config) (events : List Event) (side : Side)
    (fits : ∀ s,
      (((start id near far).run events).party s).stream.buffer.total < UInt64.size) :
    let d := (start id near far).run events
    let p := d.party side
    (∀ detail, p.stream.terminal ≠ some (.protocolViolation detail)) ∧
      p.heard.Pairwise (· ≤ ·) ∧
      ∀ data rest, d.arriving side = some (data, rest) →
        (∃ f, Frame.decode data = .ok f) ∧
          (∀ count, Party.countOf? data = some count →
            (∀ told ∈ p.heard, told ≤ count) ∧
              p.stream.buffer.acked ≤ count ∧ count ≤ p.stream.buffer.total) ∧
          ∀ payload, Frame.decode data = .ok (.chunk p.stream.receiver.expected payload) →
            p.stream.receiver.peerEnded = false := by
  intro d p
  obtain ⟨sound, agrees⟩ : d.Sound ∧ d.Obeys View.Agrees := agrees_run id near far events
  have forth := agrees side
  have back := agrees.back side
  have total : ∀ s, (d.party s).stream.buffer.total = (d.party s).view.log.length :=
    fun s => (sound s).holds.total
  have fits_near : p.view.log.length < UInt64.size := total side ▸ fits side
  have fits_far : (d.party side.opposite).view.log.length < UInt64.size :=
    total side.opposite ▸ fits side.opposite
  refine ⟨fun detail ended => ?_, forth.heard_sorted, fun data rest arriving => ?_⟩
  · have faultless : p.stream.terminal.any Error.accuses = false :=
      forth.faultless fits_near fits_far
    rw [ended] at faultless
    cases faultless
  · obtain ⟨front, behind, inFlight, -, -⟩ := Party.oldest_eq_some arriving
    have mem : (p.view.stitched, data) ∈ (d.party side.opposite).view.outgoing := by
      change _ ∈ (d.party side.opposite).flight ++ _ ++ _
      rw [inFlight]
      simp [Party.view, p]
    refine ⟨(back.honest _ mem).decode_eq_ok back.expected_le fits_far fits_near, ?_, ?_⟩
    · intro count counts
      obtain ⟨lower, -, upper⟩ := forth.count_bounds back mem counts
      rw [total side]
      exact ⟨fun told old => lower told (List.mem_cons_of_mem _ old), lower _ List.mem_cons_self,
        upper⟩
    · exact fun payload read => forth.notEnded back mem read

/-- The counts that come to an end over a link that is cut and over the next one. -/
theorem never_accuses_recovery :
    (∀ s, (((start ⟨7⟩ {} {}).run recovery).party s).stream.buffer.total < UInt64.size) ∧
      (((start ⟨7⟩ {} {}).run recovery).party .near).heard = [1, 3] ∧
      ∀ detail, (((start ⟨7⟩ {} {}).run recovery).party .near).stream.terminal ≠
        some (.protocolViolation detail) := by
  have fits : ∀ s,
      (((start ⟨7⟩ {} {}).run recovery).party s).stream.buffer.total < UInt64.size := by
    intro s
    cases s <;> decide +kernel
  exact ⟨fits, by decide +kernel, (never_accuses ⟨7⟩ {} {} recovery .near fits).1⟩

end Duplex

end Tether.Stream
