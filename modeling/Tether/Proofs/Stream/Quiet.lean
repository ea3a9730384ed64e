import Tether.Proofs.Stream.Agreement

/-!
# Streams that have come to rest

A live link on which nothing is left to do has carried everything: the receiver holds all units of
the sender, and the sender holds only as many as the receiver may keep from acknowledging, which is
too few to make writers wait.

Two things are never forgotten on a link that both ends read. The first count that comes over it
takes the sender's cursor back to where the receiver stands, and from then on the units that the
receiver still lacks are those behind the cursor and those on the way. And what the sender has not
been told of is no more than what the receiver counts as unacknowledged, unless a count that makes
up for the rest is on the way.
-/

namespace Tether.Stream

open Chain (LinkId)
open Link (Side)

/-! ## How far a receiver will come -/

/-- How far a receiver has come after a message. -/
def Frame.advance (expected : Nat) : Frame → Nat
  | .chunk seq _ => if seq = expected then expected + 1 else expected
  | .sync _ | .ack _ => expected

/-- How far a receiver will have come after the messages on their way to it. -/
def reach (expected : Nat) (messages : List Frame) : Nat :=
  messages.foldl Frame.advance expected

theorem Frame.le_advance (expected : Nat) (f : Frame) : expected ≤ f.advance expected := by
  cases f with
  | chunk seq payload =>
    simp only [advance]
    split <;> omega
  | sync count => exact Nat.le_refl _
  | ack count => exact Nat.le_refl _

theorem le_reach (expected : Nat) (messages : List Frame) : expected ≤ reach expected messages := by
  induction messages generalizing expected with
  | nil => exact Nat.le_refl _
  | cons f messages ih => exact Nat.le_trans (f.le_advance expected) (ih _)

theorem reach_append (expected : Nat) (front back : List Frame) :
    reach expected (front ++ back) = reach (reach expected front) back :=
  List.foldl_append

theorem succ_le_reach {expected cursor : Nat} {messages : List Frame}
    (h : cursor ≤ reach expected messages) (unit : Bytes) :
    cursor + 1 ≤ reach expected (messages ++ [.chunk cursor unit]) := by
  rw [reach_append]
  simp only [reach, List.foldl_cons, List.foldl_nil, Frame.advance] at h ⊢
  split <;> omega

namespace View

variable {v v' w w' : View} {cut cut' : List LinkId} {data : Bytes}
  {front back : List (LinkId × Bytes)}

/-! ## What is never forgotten -/

/-- The link that the receiver `w` reads is whole, and the sender `v` has not left it. -/
structure Joined (v w : View) (cut : List LinkId) : Prop where
  linked : 0 < w.stitched
  whole : w.stitched ∉ cut
  behind : v.stitched ≤ w.stitched
  alive : v.dead = false
  peer_alive : w.dead = false

/-- The sender is about to be sent back to where the receiver stands, or the messages on their way
take the receiver to its cursor. -/
def Resends (v w : View) : Prop :=
  (∃ count, (w.stitched, (Frame.sync count).encode) ∈ w.outgoing) ∨
    v.stitched = w.stitched ∧ ∃ messages : List Frame,
      onLink w.stitched v.outgoing = messages.map Frame.encode ∧
        v.cursor ≤ reach w.receiver.expected messages

/-- The sender is about to be told, or was told, of all but what the receiver counts. -/
def Reports (v w : View) : Prop :=
  (∃ count f, (f = .sync count ∨ f = .ack count) ∧
    (w.stitched, Frame.encode f) ∈ w.outgoing ∧
      w.receiver.expected ≤ count + w.receiver.unacked) ∨
    v.stitched = w.stitched ∧ w.receiver.expected ≤ v.acked + w.receiver.unacked

/-- What keeps a stream from getting stuck, for ends with given settings. -/
structure Settles (c : Config) (v w : View) (cut : List LinkId) : Prop extends
    Delivers v w cut where
  frequency : v.ackFrequency = c.ackFrequency
  room : v.capacity = max c.bufferCapacity 1
  /-- What the end queues goes to the link that it reads. -/
  writer : 0 < v.stitched → v.stitched ∉ cut → v.last = some v.stitched
  counts_few : v.receiver.unacked < max c.ackFrequency 1
  counts_none : v.receiver.peerEnded = true → v.receiver.unacked = 0
  resends : v.Joined w cut → v.Resends w
  reports : v.Joined w cut → v.Reports w

theorem exists_frames (h : ∀ x ∈ v.outgoing, v.Genuine x.2) (k : LinkId) :
    ∃ messages : List Frame, onLink k v.outgoing = messages.map Frame.encode := by
  generalize v.outgoing = outgoing at h
  induction outgoing with
  | nil => exact ⟨[], rfl⟩
  | cons x outgoing ih =>
    obtain ⟨messages, same⟩ := ih fun y mem => h y (List.mem_cons_of_mem _ mem)
    obtain ⟨f, encoded, -⟩ := h x List.mem_cons_self
    obtain ⟨j, data⟩ := x
    by_cases own : j = k
    · subst own
      exact ⟨f :: messages, by rw [onLink_cons_self, same, List.map_cons, ← encoded]⟩
    · exact ⟨messages, by rw [onLink_cons_other own, same]⟩

/-! ## What an end does by itself -/

theorem Acts.alive (act : Acts cut v v') (alive : v'.dead = false) : v.dead = false := by
  cases act with
  | fades fewer kept lost dies =>
    cases dead : v.dead with
    | false => rfl
    | true => exact absurd (alive.symm.trans (dies dead)) Bool.false_ne_true
  | _ => exact alive

theorem Acts.settings (act : Acts cut v v') :
    v'.ackFrequency = v.ackFrequency ∧ v'.capacity = v.capacity := by
  cases act <;> exact ⟨rfl, rfl⟩

/-- Messages for whole links are not lost. -/
theorem Acts.keeps (act : Acts cut v v') {k : LinkId} (whole : k ∉ cut)
    (mem : (k, data) ∈ v.outgoing) : (k, data) ∈ v'.outgoing := by
  cases act with
  | fades fewer kept =>
    rw [← mem_onLink, kept k whole, mem_onLink]
    exact mem
  | writes => exact mem
  | closes => exact mem
  | sends => exact List.mem_append_left _ mem
  | stitches => exact List.mem_append_left _ mem

theorem Acts.writer (act : Acts cut' v v') (more : cut ⊆ cut')
    (h : 0 < v.stitched → v.stitched ∉ cut → v.last = some v.stitched) :
    0 < v'.stitched → v'.stitched ∉ cut' → v'.last = some v'.stitched := by
  intro linked whole
  cases act with
  | fades fewer kept lost =>
    have before := h linked fun old => whole (more old)
    rcases lost with same | ⟨-, k, gone, own⟩
    · exact same.trans before
    · rw [before] at own
      cases own
      exact absurd gone whole
  | writes => exact h linked fun old => whole (more old)
  | closes => exact h linked fun old => whole (more old)
  | sends => exact h linked fun old => whole (more old)
  | stitches => rfl

/-- A new link starts the receiver's count anew, and tells the peer where the receiver stands.
Nothing else changes the receiver. -/
theorem Acts.restitched (act : Acts cut v v') :
    v'.stitched = v.stitched ∧ v'.receiver = v.receiver ∨
      v'.receiver.unacked = 0 ∧
        (v'.stitched, (Frame.sync v'.receiver.expected).encode) ∈ v'.outgoing := by
  cases act with
  | stitches => exact .inr ⟨rfl, List.mem_append_right _ List.mem_cons_self⟩
  | _ => exact .inl ⟨rfl, rfl⟩

theorem Joined.of_acts (act : Acts cut' v v') (more : cut ⊆ cut') (h : v'.Joined w cut') :
    v.Joined w cut where
  linked := h.linked
  whole := fun old => h.whole (more old)
  behind := Nat.le_trans act.told.2.2.1 h.behind
  alive := act.alive h.alive
  peer_alive := h.peer_alive

/-- What the sender does keeps the receiver in its reach. -/
theorem Resends.acts (h : v.Resends w) (act : Acts cut' v v') (joined : v'.Joined w cut')
    (writer : v.stitched = w.stitched → v.last = some v.stitched) : v'.Resends w := by
  rcases h with told | ⟨same, messages, onWay, reached⟩
  · exact .inl told
  · refine .inr ?_
    cases act with
    | fades fewer kept => exact ⟨same, messages, (kept _ joined.whole).trans onWay, reached⟩
    | writes => exact ⟨same, messages, onWay, reached⟩
    | closes => exact ⟨same, messages, onWay, reached⟩
    | @sends unit k found bound =>
      have own : k = w.stitched := by
        rw [writer same, same] at bound
        exact (Option.some.inj bound).symm
      subst own
      refine ⟨same, messages ++ [.chunk v.cursor unit], ?_, succ_le_reach reached unit⟩
      rw [onLink_append, onWay, List.map_append, onLink_cons_self]
      rfl
    | stitches newer =>
      have := joined.behind
      exact absurd newer (Nat.not_lt.mpr (same ▸ this))

theorem Reports.acts (h : v.Reports w) (act : Acts cut' v v') (joined : v'.Joined w cut') :
    v'.Reports w := by
  rcases h with told | ⟨same, counted⟩
  · exact .inl told
  · obtain ⟨acked, -, newer, -⟩ := act.told
    refine .inr ⟨Nat.le_antisymm joined.behind (same ▸ newer), ?_⟩
    rw [acked]
    exact counted

/-- What the receiver does either leaves everything or sends the sender back. -/
theorem Settles.peer_acts {c : Config} (h : v.Settles c w cut) (act : Acts cut' w w')
    (more : cut ⊆ cut') (joined : v.Joined w' cut') : v.Resends w' ∧ v.Reports w' := by
  obtain ⟨stitched, receiver⟩ | ⟨counted, mem⟩ := act.restitched
  · have before : v.Joined w cut := by
      refine ⟨stitched ▸ joined.linked, fun old => joined.whole ?_, stitched ▸ joined.behind,
        joined.alive, act.alive joined.peer_alive⟩
      rw [stitched]
      exact more old
    have whole : w.stitched ∉ cut' := stitched ▸ joined.whole
    constructor
    · rcases h.resends before with ⟨count, mem⟩ | units
      · exact .inl ⟨count, stitched ▸ act.keeps whole mem⟩
      · refine .inr ?_
        rw [stitched, receiver]
        exact units
    · rcases h.reports before with ⟨count, f, kind, mem, bound⟩ | told
      · refine .inl ⟨count, f, kind, stitched ▸ act.keeps whole mem, ?_⟩
        rw [receiver]
        exact bound
      · refine .inr ?_
        rw [stitched, receiver]
        exact told
  · exact ⟨.inl ⟨_, mem⟩, .inl ⟨_, _, .inl rfl, mem, Nat.le_add_right _ _⟩⟩

/-! ## What a message does -/

theorem Takes.alive (act : Takes v data v') (alive : v'.dead = false) : v.dead = false := by
  cases act with
  | garbled => cases alive
  | unit => exact alive
  | afterEnd => cases alive
  | count read alive => exact alive
  | outside => cases alive
  | late => exact alive

theorem Takes.settings (act : Takes v data v') :
    v'.ackFrequency = v.ackFrequency ∧ v'.capacity = v.capacity ∧ v'.last = v.last := by
  cases act <;> exact ⟨rfl, rfl, rfl⟩

/-- What is on the way from an end stays there, with at most a reply behind it. -/
theorem Takes.outgoing (act : Takes v data v') :
    ∃ reply, v'.outgoing = v.outgoing ++ addressed v.last reply := by
  have nothing : v.outgoing = v.outgoing ++ addressed v.last none := by
    cases v.last <;> simp [addressed]
  obtain ⟨-, -, outgoing⟩ | ⟨seq, payload, r, -, -, rfl⟩ := act.received
  · exact ⟨none, outgoing.trans nothing⟩
  · exact ⟨r.reply, rfl⟩

theorem Takes.keeps (act : Takes v data v') {x : LinkId × Bytes} (mem : x ∈ v.outgoing) :
    x ∈ v'.outgoing := by
  obtain ⟨reply, outgoing⟩ := act.outgoing
  rw [outgoing]
  exact List.mem_append_left _ mem

/-- A count that arrives is where the sender stands from then on, as far as it looks back. -/
theorem Takes.told_count {count : Nat} {f : Frame} (act : Takes v f.encode v')
    (kind : f = .sync count ∨ f = .ack count) (alive : v'.dead = false) :
    Party.countOf? f.encode = some count ∧ v'.acked = count ∧
      (f = .sync count → v'.cursor = count) := by
  cases act with
  | garbled => cases alive
  | unit read =>
    have same := Frame.eq_of_decode_encode read
    rcases kind with rfl | rfl <;> cases same
  | afterEnd => cases alive
  | count read =>
    have counts := countOf?_eq_some.mpr (read.imp And.left And.left)
    obtain ⟨read, rfl⟩ | ⟨read, rfl⟩ := read
    · have same := Frame.eq_of_decode_encode read
      rcases kind with rfl | rfl <;> cases same
      exact ⟨counts, rfl, fun _ => rfl⟩
    · have same := Frame.eq_of_decode_encode read
      rcases kind with rfl | rfl <;> cases same
      exact ⟨counts, rfl, nofun⟩
  | outside => cases alive
  | late read dead => exact absurd (alive.symm.trans dead) Bool.false_ne_true

/-- A message moves the cursor no further ahead than its peer's receiver stands, and releases no
less than before. -/
theorem Takes.marks (act : Takes v data v') (genuine : w.Genuine data) :
    v'.cursor ≤ max v.cursor w.receiver.expected ∧ v.acked ≤ v'.acked := by
  cases act with
  | count read alive lower =>
    have reached := genuine.count_le (countOf?_eq_some.mpr (read.imp And.left And.left))
    refine ⟨?_, lower⟩
    obtain ⟨-, rfl⟩ | ⟨-, rfl⟩ := read
    · exact Nat.le_trans reached (Nat.le_max_right _ _)
    · exact Nat.max_le.mpr ⟨Nat.le_max_left _ _, Nat.le_trans reached (Nat.le_max_right _ _)⟩
  | _ => exact ⟨Nat.le_max_left _ _, Nat.le_refl _⟩

/-- A receiver goes on as its messages let it. -/
theorem Takes.expected_eq {f : Frame} (act : Takes v f.encode v') (alive : v'.dead = false) :
    v'.receiver.expected = f.advance v.receiver.expected := by
  have counts : ∀ {count}, Frame.decode f.encode = .ok (.sync count) ∨
      Frame.decode f.encode = .ok (.ack count) →
        v.receiver.expected = f.advance v.receiver.expected := by
    rintro count (read | read) <;> rw [← Frame.eq_of_decode_encode read] <;> rfl
  cases act with
  | garbled => cases alive
  | @unit seq payload r read taken =>
    rw [← Frame.eq_of_decode_encode read]
    obtain ⟨other, passes⟩ | ⟨expected, -, rfl⟩ := Receiver.chunk_cases taken
    · exact passes.expected.trans (if_neg other).symm
    · exact (if_pos expected).symm
  | afterEnd => cases alive
  | count read => exact counts (read.imp And.left And.left)
  | outside => cases alive
  | late read => exact counts read

/-- What a receiver accepts it counts, or it tells its peer how far it has come. -/
theorem Takes.tally (act : Takes v data v') :
    v'.receiver.expected + v.receiver.unacked = v.receiver.expected + v'.receiver.unacked ∨
      v'.receiver.unacked = 0 ∧ ∀ k, v.last = some k →
        (k, (Frame.ack v'.receiver.expected).encode) ∈ v'.outgoing := by
  obtain ⟨-, receiver, -⟩ | ⟨seq, payload, r, -, taken, rfl⟩ := act.received
  · rw [receiver]
    exact .inl rfl
  · obtain ⟨-, passes⟩ | ⟨-, -, rfl⟩ := Receiver.chunk_cases taken
    · refine .inl ?_
      change r.receiver.expected + _ = _ + r.receiver.unacked
      rw [passes.expected, passes.unacked]
    · obtain ⟨reply, counted⟩ | ⟨-, -, counted, -⟩ :=
        v.receiver.accept_cases v.ackFrequency payload
      · refine .inr ⟨counted, fun k bound => List.mem_append_right _ ?_⟩
        rw [reply, bound]
        exact List.mem_singleton_self _
      · refine .inl ?_
        change v.receiver.expected + 1 + _ =
          _ + (v.receiver.accept v.ackFrequency payload).receiver.unacked
        rw [counted]
        omega

/-- A receiver counts few units, and none behind the end marker. -/
theorem Takes.counts (act : Takes v data v')
    (few : v.receiver.unacked < max v.ackFrequency 1)
    (none : v.receiver.peerEnded = true → v.receiver.unacked = 0) :
    v'.receiver.unacked < max v.ackFrequency 1 ∧
      (v'.receiver.peerEnded = true → v'.receiver.unacked = 0) := by
  obtain ⟨-, receiver, -⟩ | ⟨seq, payload, r, -, taken, rfl⟩ := act.received
  · rw [receiver]
    exact ⟨few, none⟩
  · obtain ⟨-, passes⟩ | ⟨-, notEnded, rfl⟩ := Receiver.chunk_cases taken
    · change r.receiver.unacked < _ ∧ (r.receiver.peerEnded = true → r.receiver.unacked = 0)
      rw [passes.unacked, passes.peerEnded]
      exact ⟨few, none⟩
    · change (v.receiver.accept v.ackFrequency payload).receiver.unacked < _ ∧
        ((v.receiver.accept v.ackFrequency payload).receiver.peerEnded = true →
          (v.receiver.accept v.ackFrequency payload).receiver.unacked = 0)
      obtain ⟨-, counted⟩ | ⟨-, nonempty, counted, below⟩ :=
        v.receiver.accept_cases v.ackFrequency payload
      · rw [counted]
        exact ⟨Nat.lt_of_lt_of_le Nat.one_pos (Nat.le_max_right _ _), fun _ => rfl⟩
      · rw [counted, Receiver.accept_peerEnded, notEnded]
        exact ⟨below, fun ended => absurd ended (by simp [nonempty])⟩

theorem onLink_addressed (k : LinkId) (link : Option LinkId) (reply : Option Frame) :
    ∃ more : List Frame, onLink k (addressed link reply) = more.map Frame.encode := by
  match link, reply with
  | none, _ => exact ⟨[], rfl⟩
  | some j, none => exact ⟨[], rfl⟩
  | some j, some f =>
    by_cases own : j = k
    · subst own
      exact ⟨[f], onLink_cons_self j _ []⟩
    · exact ⟨[], onLink_cons_other own _ []⟩

/-- The split of what is on the way at the message that arrives. -/
theorem mem_arrival {k : LinkId} {x : LinkId × Bytes}
    (inFlight : w.outgoing = front ++ (k, data) :: back) (mem : x ∈ w.outgoing) :
    x = (k, data) ∨ x ∈ front ++ back := by
  rw [inFlight] at mem
  rcases List.mem_append.mp mem with mem | mem
  · exact .inr (List.mem_append_left _ mem)
  · rcases List.mem_cons.mp mem with same | mem
    · exact .inl same
    · exact .inr (List.mem_append_right _ mem)

theorem onLink_eq_nil {k : LinkId} {messages : List (LinkId × Bytes)}
    (others : ∀ x ∈ messages, x.1 ≠ k) : onLink k messages = [] := by
  refine List.filterMap_eq_nil_iff.mpr fun x mem => ?_
  rw [if_neg (others x mem)]

theorem Settles.takes {c : Config} (h : v.Settles c w cut) (back' : w.Delivers v cut)
    (act : Takes v data v') (inFlight : w.outgoing = front ++ (v.stitched, data) :: back)
    (joined : v'.Joined { w with outgoing := front ++ back } cut) :
    v'.Resends { w with outgoing := front ++ back } ∧
      v'.Reports { w with outgoing := front ++ back } := by
  have stitched := act.stitched_eq
  have before : v.Joined w cut :=
    ⟨joined.linked, joined.whole, stitched ▸ joined.behind, act.alive joined.alive,
      joined.peer_alive⟩
  have genuine : w.Genuine data :=
    back'.honest _ (inFlight ▸ List.mem_append_right _ List.mem_cons_self)
  obtain ⟨cursor, acked⟩ := act.marks genuine
  constructor
  · rcases h.resends before with ⟨count, mem⟩ | ⟨same, messages, onWay, reached⟩
    · rcases mem_arrival inFlight mem with arrived | mem
      · -- the sender goes back to a count that the receiver has reached
        obtain ⟨same, rfl⟩ := Prod.mk.inj arrived
        obtain ⟨messages, onWay⟩ := exists_frames (act.honest h.honest) w.stitched
        obtain ⟨counts, -, at_count⟩ := act.told_count (.inl rfl) joined.alive
        refine .inr ⟨stitched.trans same.symm, messages, onWay, ?_⟩
        rw [at_count rfl]
        exact Nat.le_trans (genuine.count_le counts) (le_reach _ _)
      · exact .inl ⟨count, mem⟩
    · obtain ⟨reply, outgoing⟩ := act.outgoing
      obtain ⟨more, replied⟩ := onLink_addressed w.stitched v.last reply
      refine .inr ⟨stitched.trans same, messages ++ more, ?_, ?_⟩
      · rw [outgoing, onLink_append, List.map_append, ← replied]
        exact congrArg (· ++ _) onWay
      · rw [reach_append]
        refine Nat.le_trans cursor (Nat.le_trans (Nat.max_le.mpr ⟨reached, ?_⟩) (le_reach _ _))
        exact le_reach _ _
  · rcases h.reports before with ⟨count, f, kind, mem, bound⟩ | ⟨same, counted⟩
    · rcases mem_arrival inFlight mem with arrived | mem
      · obtain ⟨same, rfl⟩ := Prod.mk.inj arrived
        obtain ⟨-, told, -⟩ := act.told_count kind joined.alive
        refine .inr ⟨stitched.trans same.symm, ?_⟩
        rw [told]
        exact bound
      · exact .inl ⟨count, f, kind, mem, bound⟩
    · refine .inr ⟨stitched.trans same, ?_⟩
      exact Nat.le_trans counted (Nat.add_le_add_right acked _)

theorem Settles.peer_takes {c : Config} (h : v.Settles c w cut) (back' : w.Settles c v cut)
    (act : Takes w data w') (inFlight : v.outgoing = front ++ (w.stitched, data) :: back)
    (first : ∀ x ∈ front, x.1 ≠ w.stitched)
    (joined : Joined { v with outgoing := front ++ back } w' cut) :
    Resends { v with outgoing := front ++ back } w' ∧
      Reports { v with outgoing := front ++ back } w' := by
  have stitched := act.stitched_eq
  have before : v.Joined w cut :=
    ⟨stitched ▸ joined.linked, stitched ▸ joined.whole, stitched ▸ joined.behind, joined.alive,
      act.alive joined.peer_alive⟩
  have writer := back'.writer before.linked before.whole
  constructor
  · rcases h.resends before with ⟨count, mem⟩ | ⟨same, messages, onWay, reached⟩
    · refine .inl ⟨count, ?_⟩
      rw [stitched]
      exact act.keeps mem
    · have split : onLink w.stitched v.outgoing =
          data :: onLink w.stitched (front ++ back) := by
        rw [inFlight, onLink_append, onLink_append, onLink_cons_self, onLink_eq_nil first]
        rfl
      rw [split] at onWay
      obtain ⟨f, messages', rfl, rfl, behind⟩ := List.map_eq_cons_iff.mp onWay.symm
      refine .inr ⟨same.trans stitched.symm, messages', ?_, ?_⟩
      · rw [stitched]
        exact behind.symm
      · rw [act.expected_eq joined.peer_alive]
        exact reached
  · obtain counted | ⟨none, reply⟩ := act.tally
    · rcases h.reports before with ⟨count, f, kind, mem, bound⟩ | ⟨same, bound⟩
      · refine .inl ⟨count, f, kind, ?_, by omega⟩
        rw [stitched]
        exact act.keeps mem
      · refine .inr ⟨same.trans stitched.symm, ?_⟩
        change _ ≤ v.acked + _
        omega
    · refine .inl ⟨_, _, .inr rfl, ?_, Nat.le_add_right _ _⟩
      rw [stitched]
      exact reply _ writer

end View

namespace Duplex

/-- Exchanges keep streams from getting stuck. -/
theorem settles_kept (c : Config) : Law.Kept (View.Settles c) := by
  intro v w v' w' cut cut' exchange h back
  obtain ⟨forth, peer⟩ := delivers_kept exchange h.toDelivers back.toDelivers
  cases exchange with
  | acts more act =>
    obtain ⟨frequency, room⟩ := act.settings
    have counts : v'.receiver.unacked < max c.ackFrequency 1 ∧
        (v'.receiver.peerEnded = true → v'.receiver.unacked = 0) := by
      obtain ⟨-, same⟩ | ⟨none, -⟩ := act.restitched
      · rw [same]
        exact ⟨h.counts_few, h.counts_none⟩
      · rw [none]
        exact ⟨Nat.lt_of_lt_of_le Nat.one_pos (Nat.le_max_right _ _), fun _ => rfl⟩
    refine ⟨⟨forth, frequency.trans h.frequency, room.trans h.room, act.writer more h.writer,
        counts.1, counts.2, fun joined => ?_, fun joined => ?_⟩,
      ⟨peer, back.frequency, back.room,
        fun linked whole => back.writer linked fun old => whole (more old), back.counts_few,
        back.counts_none, fun joined => (back.peer_acts act more joined).1,
        fun joined => (back.peer_acts act more joined).2⟩⟩
    · refine (h.resends (joined.of_acts act more)).acts act joined fun same => h.writer ?_ ?_
      · exact same ▸ joined.linked
      · exact fun old => joined.whole (same ▸ more old)
    · exact (h.reports (joined.of_acts act more)).acts act joined
  | @takes _ _ _ data front rest inFlight first act =>
    obtain ⟨frequency, room, last⟩ := act.settings
    have few := h.counts_few
    rw [← h.frequency] at few
    obtain ⟨few, none⟩ := act.counts few h.counts_none
    rw [h.frequency] at few
    refine ⟨⟨forth, frequency.trans h.frequency, room.trans h.room, ?_, few, none,
        fun joined => (h.takes back.toDelivers act inFlight joined).1,
        fun joined => (h.takes back.toDelivers act inFlight joined).2⟩,
      ⟨peer, back.frequency, back.room, back.writer, back.counts_few, back.counts_none,
        fun joined => (back.peer_takes h act inFlight first joined).1,
        fun joined => (back.peer_takes h act inFlight first joined).2⟩⟩
    rw [act.stitched_eq, last]
    exact h.writer

theorem settles_start (id : Chain.Id) (c : Config) :
    (start id c c).Obeys (View.Settles c) := by
  intro side
  have delivers := delivers_start id c c side
  have few : 0 < max c.ackFrequency 1 := Nat.lt_of_lt_of_le Nat.one_pos (Nat.le_max_right _ _)
  cases side <;>
    exact ⟨delivers, rfl, rfl, fun linked => absurd linked (Nat.lt_irrefl 0), few, nofun,
      fun joined => absurd joined.linked (Nat.lt_irrefl 0),
      fun joined => absurd joined.linked (Nat.lt_irrefl 0)⟩

theorem settles_run (id : Chain.Id) (c : Config) (events : List Event) :
    ((start id c c).run events).Sound ∧ ((start id c c).run events).Obeys (View.Settles c) :=
  obeys_run (settles_kept c) id c c (settles_start id c) events

/-- Both ends read the same live link, and nothing is left to do on it. -/
structure Quiet (d : Duplex) (k : LinkId) : Prop where
  linked : 0 < k
  whole : k ∉ d.cut
  stitched : ∀ side, (d.party side).stitched = k
  alive : ∀ side, (d.party side).stream.dead = false
  control : ∀ side, (d.party side).stream.control = []
  hand : ∀ side, (d.party side).hand = none
  flight : ∀ side, ∀ x ∈ (d.party side).flight, x.1 ≠ k
  cursor : ∀ side, (d.party side).stream.buffer.cursor = (d.party side).stream.buffer.total

theorem Quiet.onLink_eq_nil {d : Duplex} {k : LinkId} (quiet : d.Quiet k) (side : Side) :
    onLink k (d.party side).view.outgoing = [] := by
  have outgoing : (d.party side).view.outgoing = (d.party side).flight := by
    simp [Party.view, Party.outgoing, Party.inHand, quiet.hand side, quiet.control side,
      Control.routed]
  rw [outgoing]
  exact View.onLink_eq_nil (quiet.flight side)

theorem Quiet.joined {d : Duplex} {k : LinkId} (quiet : d.Quiet k) (side : Side) :
    (d.party side).view.Joined (d.party side.opposite).view d.cut where
  linked := by
    change 0 < (d.party side.opposite).stitched
    rw [quiet.stitched]
    exact quiet.linked
  whole := by
    change (d.party side.opposite).stitched ∉ d.cut
    rw [quiet.stitched]
    exact quiet.whole
  behind := Nat.le_of_eq ((quiet.stitched side).trans (quiet.stitched side.opposite).symm)
  alive := quiet.alive side
  peer_alive := quiet.alive side.opposite

/-- A write is answered if there is room. -/
theorem exists_write?_of_hasRoom {s : Endpoint} (room : s.buffer.hasRoom = true) (chunk : Bytes) :
    ∃ s' r, s.write? chunk = some (s', r) := by
  have answered : (s.write? chunk).isSome := by
    unfold Endpoint.write?
    split
    · rfl
    · rw [Option.isSome_map]
      exact Buffer.isSome_write? room
  obtain ⟨⟨written, r⟩, answer⟩ := Option.isSome_iff_exists.mp answered
  exact ⟨written, r, answer⟩

/-- The settings that are valid leave room for what a receiver may keep from acknowledging. -/
theorem frequency_le_capacity {c : Config} (valid : c.invalid? = none) :
    0 < c.ackFrequency ∧ c.ackFrequency ≤ c.bufferCapacity := by
  unfold Config.invalid? at valid
  repeat' split at valid
  all_goals first | omega | cases valid

/-- No connection is stuck. Let two ends share settings that are valid, and let any run bring them
to where both read the same live link and nothing is left to do on it. Then each end has accepted
all that the other has written. An end holds fewer units than its peer accepts between two
acknowledgments, and none if it has closed. So it has room, and every write is answered. -/
theorem room_of_quiet (id : Chain.Id) (c : Config) (events : List Event) (k : LinkId) (side : Side)
    (valid : c.invalid? = none) (quiet : ((start id c c).run events).Quiet k) :
    let d := (start id c c).run events
    let sender := (d.party side).stream
    (d.party side.opposite).stream.receiver.expected = sender.buffer.total ∧
      sender.buffer.units.length < c.ackFrequency ∧
      (sender.buffer.closed = true → sender.buffer.units = []) ∧
      sender.buffer.hasRoom = true ∧
      ∀ chunk, ∃ s' r, sender.write? chunk = some (s', r) := by
  intro d sender
  obtain ⟨sound, settles⟩ : d.Sound ∧ d.Obeys (View.Settles c) := settles_run id c events
  have forth := settles side
  have back := settles.back side
  have joined : (d.party side).view.Joined (d.party side.opposite).view d.cut := quiet.joined side
  have holds : sender.buffer.Holds (d.party side).view.log := (sound side).holds
  have total : sender.buffer.total = (d.party side).view.log.length := holds.total
  have stitched : (d.party side.opposite).view.stitched = k := quiet.stitched side.opposite
  have nothing : ∀ data, (k, data) ∉ (d.party side.opposite).view.outgoing := by
    intro data mem
    rw [← mem_onLink, quiet.onLink_eq_nil] at mem
    exact List.not_mem_nil mem
  have expected : (d.party side.opposite).stream.receiver.expected = sender.buffer.total := by
    refine Nat.le_antisymm (total ▸ back.expected_le) ?_
    rcases forth.resends joined with ⟨count, mem⟩ | ⟨-, messages, onWay, reached⟩
    · exact absurd (stitched ▸ mem) (nothing _)
    · rw [stitched, quiet.onLink_eq_nil] at onWay
      rw [List.map_eq_nil_iff.mp onWay.symm] at reached
      exact quiet.cursor side ▸ reached
  have counted : sender.buffer.units.length ≤
      (d.party side.opposite).stream.receiver.unacked := by
    rcases forth.reports joined with ⟨count, f, -, mem, -⟩ | ⟨-, told⟩
    · exact absurd (stitched ▸ mem) (nothing _)
    · change (d.party side.opposite).stream.receiver.expected ≤
        sender.buffer.acked + (d.party side.opposite).stream.receiver.unacked at told
      rw [holds.length_units, ← total]
      omega
  obtain ⟨positive, capacity⟩ := frequency_le_capacity valid
  have few : (d.party side.opposite).stream.receiver.unacked < max c.ackFrequency 1 :=
    back.counts_few
  have room : sender.buffer.hasRoom = true := by
    have size : sender.buffer.capacity = max c.bufferCapacity 1 := forth.room
    simp only [Buffer.hasRoom, size, decide_eq_true_eq]
    omega
  refine ⟨expected, by omega, fun closed => ?_, room, exists_write?_of_hasRoom room⟩
  -- whoever has accepted everything has accepted the end marker
  have all : (d.party side.opposite).view.accepted = (d.party side).view.log := by
    refine back.delivered.eq_of_length ?_
    rw [back.counted, ← total]
    exact expected
  have ended : (d.party side.opposite).view.receiver.peerEnded = true := by
    have marked : (d.party side).view.closed = true := closed
    rw [back.ended, all, View.log, marked]
    exact List.mem_append_right _ List.mem_cons_self
  have none : (d.party side.opposite).stream.receiver.unacked = 0 := back.counts_none ended
  exact List.eq_nil_of_length_eq_zero (by omega)

theorem quiet_recovery : ((start ⟨7⟩ {} {}).run recovery).Quiet 2 := by
  constructor
  case linked => decide
  case whole => decide +kernel
  all_goals
    intro side
    cases side <;> decide +kernel

/-- A connection that has come to rest on its second link. -/
theorem room_of_quiet_recovery :
    Config.invalid? {} = none ∧ ((start ⟨7⟩ {} {}).run recovery).Quiet 2 ∧
      (((start ⟨7⟩ {} {}).run recovery).party .near).stream.buffer.total = 3 ∧
      (((start ⟨7⟩ {} {}).run recovery).party (Side.opposite .near)).stream.receiver.expected =
        (((start ⟨7⟩ {} {}).run recovery).party .near).stream.buffer.total :=
  ⟨rfl, quiet_recovery, by decide +kernel,
    (room_of_quiet ⟨7⟩ {} recovery 2 .near rfl quiet_recovery).1⟩

end Duplex

end Tether.Stream
