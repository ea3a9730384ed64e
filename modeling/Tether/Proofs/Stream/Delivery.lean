import Tether.Proofs.Stream.Exchange
import Tether.Proofs.Stream.Frame
import Tether.Proofs.Stream.Receiver

/-!
# Exactly-once, in-order delivery

Whatever happens to the links, what a user reads at one end is what was written at the other, from
the first chunk on and in order; and the end of the stream is read only when nothing is missing.

The argument does not follow the links at all. An end vouches for each of its messages on the way: a
unit is the one of its log under that number, a count is one that its receiver has reached. Logs and
receivers only grow, so a message is good however late it arrives, or again. The peer accepts a unit
only under the number that it expects, which is the number of units it has accepted. So what it has
accepted is always a part of the log, from its start on.
-/

namespace Tether.Stream

open Chain (LinkId)
open Link (Side)

/-- A list that goes on as another does is still a start of it. -/
private theorem prefix_concat {α : Type} {front whole : List α} {x : α} (h : front <+: whole)
    (next : whole[front.length]? = some x) : front ++ [x] <+: whole := by
  obtain ⟨back, rfl⟩ := h
  cases back with
  | nil => simp at next
  | cons y back =>
    rw [List.getElem?_append_right (Nat.le_refl _), Nat.sub_self] at next
    cases next
    exact ⟨back, by rw [List.append_assoc]; rfl⟩

namespace View

/-- What an end vouches for. -/
def Vouches (v : View) : Frame → Prop
  | .chunk seq payload => v.log[seq]? = some payload
  | .sync count | .ack count => count ≤ v.receiver.expected

/-- A message is a frame that the end vouches for. -/
def Genuine (v : View) (data : Bytes) : Prop :=
  ∃ f : Frame, data = f.encode ∧ v.Vouches f

/-- What an end has accepted is what its peer has written, as far as it goes. -/
structure Delivers (v w : View) (_cut : List LinkId) : Prop where
  nonempty : [] ∉ v.wrote
  /-- The next number expected is the number of units accepted. -/
  counted : v.accepted.length = v.receiver.expected
  ended : v.receiver.peerEnded = true ↔ [] ∈ v.accepted
  /-- The end vouches for all that is on the way from it. -/
  honest : ∀ x ∈ v.outgoing, v.Genuine x.2
  delivered : v.accepted <+: w.log

variable {v v' w : View} {cut : List LinkId} {data : Bytes}

/-- An end goes on to vouch for what it vouched for. -/
theorem Genuine.mono (h : v.Genuine data) (log : v.log <+: v'.log)
    (expected : v.receiver.expected ≤ v'.receiver.expected) : v'.Genuine data := by
  obtain ⟨f, rfl, vouched⟩ := h
  refine ⟨f, rfl, ?_⟩
  cases f with
  | chunk seq payload =>
    obtain ⟨more, same⟩ := log
    obtain ⟨bound, -⟩ := List.getElem?_eq_some_iff.mp vouched
    change v'.log[seq]? = some payload
    rw [← same, List.getElem?_append_left bound]
    exact vouched
  | sync count => exact Nat.le_trans vouched expected
  | ack count => exact Nat.le_trans vouched expected

/-! ## What an end does by itself -/

theorem Acts.log_prefix (act : Acts cut v v') : v.log <+: v'.log := by
  cases act with
  | fades => exact List.prefix_rfl
  | writes nonempty opened => simp [log, opened]
  | closes opened => simp [log, opened]
  | sends => exact List.prefix_rfl
  | stitches => exact List.prefix_rfl

/-- What was accepted, and how much, only a message changes. -/
theorem Acts.received (act : Acts cut v v') :
    v'.accepted = v.accepted ∧ v'.receiver.expected = v.receiver.expected ∧
      v'.receiver.peerEnded = v.receiver.peerEnded := by
  cases act with
  | stitches => exact ⟨List.append_nil _, rfl, rfl⟩
  | _ => exact ⟨rfl, rfl, rfl⟩

theorem Acts.wrote_nonempty (act : Acts cut v v') (h : [] ∉ v.wrote) : [] ∉ v'.wrote := by
  cases act with
  | writes nonempty =>
    intro mem
    rcases List.mem_append.mp mem with mem | mem
    · exact h mem
    · exact nonempty (List.mem_singleton.mp mem).symm
  | _ => exact h

/-- What an end sends of its own accord it vouches for. -/
theorem Acts.honest (act : Acts cut v v') (h : ∀ x ∈ v.outgoing, v.Genuine x.2) :
    ∀ x ∈ v'.outgoing, v'.Genuine x.2 := by
  have older : ∀ x ∈ v.outgoing, v'.Genuine x.2 := fun x mem =>
    (h x mem).mono act.log_prefix (Nat.le_of_eq act.received.2.1.symm)
  cases act with
  | fades fewer => exact fun x mem => older x (fewer.subset mem)
  | writes => exact older
  | closes => exact older
  | @sends unit k found bound =>
    intro x mem
    rcases List.mem_append.mp mem with mem | mem
    · exact older x mem
    · rw [List.mem_singleton.mp mem]
      exact ⟨.chunk v.cursor unit, rfl, found⟩
  | stitches newer =>
    intro x mem
    rcases List.mem_append.mp mem with mem | mem
    · exact older x mem
    · rw [List.mem_singleton.mp mem]
      exact ⟨.sync v.receiver.expected, rfl, Nat.le_refl v.receiver.expected⟩

/-! ## What a message does -/

theorem Takes.log_eq (act : Takes v data v') : v'.log = v.log := by
  cases act <;> rfl

/-- A message that is a unit changes what was accepted as the receiver decides. All others leave
that alone. -/
theorem Takes.received (act : Takes v data v') :
    v'.accepted = v.accepted ∧ v'.receiver = v.receiver ∧ v'.outgoing = v.outgoing ∨
      ∃ seq payload r, Frame.decode data = .ok (.chunk seq payload) ∧
        v.receiver.chunk v.ackFrequency seq payload = .ok r ∧ v' = v.receipt r := by
  cases act with
  | unit read taken => exact .inr ⟨_, _, _, read, taken, rfl⟩
  | _ => exact .inl ⟨rfl, rfl, rfl⟩

theorem mem_addressed {link : Option LinkId} {reply : Option Frame} {x : LinkId × Bytes}
    (mem : x ∈ addressed link reply) : ∃ f ∈ reply, link = some x.1 ∧ x.2 = f.encode := by
  cases link with
  | none => cases mem
  | some k =>
    cases reply with
    | none => cases mem
    | some f =>
      rw [List.mem_singleton.mp mem]
      exact ⟨f, rfl, rfl, rfl⟩

/-- What the receiver replies tells how far it has come. -/
theorem reply_count {r : Receiver} {ackFrequency seq : Nat} {payload : Bytes} {receipt : Receipt}
    (taken : r.chunk ackFrequency seq payload = .ok receipt) :
    r.expected ≤ receipt.receiver.expected ∧
      ∀ f ∈ receipt.reply,
        f = .sync receipt.receiver.expected ∨ f = .ack receipt.receiver.expected := by
  obtain ⟨-, passes⟩ | ⟨-, -, rfl⟩ := Receiver.chunk_cases taken
  · refine ⟨Nat.le_of_eq passes.expected.symm, fun f mem => ?_⟩
    rw [passes.expected]
    exact .inl (passes.reply f mem)
  · refine ⟨Nat.le_succ _, fun f mem => ?_⟩
    obtain ⟨reply, -⟩ | ⟨reply, -⟩ := r.accept_cases ackFrequency payload
    · rw [reply] at mem
      exact .inr (Option.mem_some_iff.mp mem).symm
    · rw [reply] at mem
      cases mem

/-- A receiver's count only grows, and the end vouches for it when it replies. -/
theorem Takes.honest (act : Takes v data v') (h : ∀ x ∈ v.outgoing, v.Genuine x.2) :
    ∀ x ∈ v'.outgoing, v'.Genuine x.2 := by
  have log : v.log <+: v'.log := act.log_eq ▸ List.prefix_rfl
  obtain ⟨-, receiver, outgoing⟩ | ⟨seq, payload, r, -, taken, rfl⟩ := act.received
  · intro x mem
    rw [outgoing] at mem
    exact (h x mem).mono log (Nat.le_of_eq (by rw [receiver]))
  · obtain ⟨more, counts⟩ := reply_count taken
    intro x mem
    rcases List.mem_append.mp mem with mem | mem
    · exact (h x mem).mono log more
    · obtain ⟨f, mem, -, same⟩ := mem_addressed mem
      refine ⟨f, same, ?_⟩
      rcases counts f mem with rfl | rfl <;> exact Nat.le_refl _

/-- A unit that is accepted is the next one of the peer's log. -/
theorem Takes.delivers (act : Takes v data v') (h : v.Delivers w cut) (genuine : w.Genuine data) :
    v'.Delivers w cut := by
  have honest := act.honest h.honest
  have nonempty : [] ∉ v'.wrote := by
    cases act <;> exact h.nonempty
  obtain ⟨accepted, receiver, -⟩ | ⟨seq, payload, r, read, taken, rfl⟩ := act.received
  · refine ⟨nonempty, ?_, ?_, honest, ?_⟩
    · rw [accepted, receiver]
      exact h.counted
    · rw [accepted, receiver]
      exact h.ended
    · rw [accepted]
      exact h.delivered
  · obtain ⟨-, passes⟩ | ⟨expected, notEnded, rfl⟩ := Receiver.chunk_cases taken
    · have accepted : (v.receipt r).accepted = v.accepted := by
        simp [receipt, passes.accepted]
      refine ⟨nonempty, ?_, ?_, honest, ?_⟩
      · rw [accepted]
        exact h.counted.trans passes.expected.symm
      · rw [accepted]
        exact passes.peerEnded ▸ h.ended
      · rw [accepted]
        exact h.delivered
    · obtain ⟨f, rfl, vouched⟩ := genuine
      rw [← Frame.eq_of_decode_encode read] at vouched
      have accepted : (v.receipt (v.receiver.accept v.ackFrequency payload)).accepted =
          v.accepted ++ [payload] := rfl
      have next : w.log[v.accepted.length]? = some payload := by
        rw [h.counted, ← expected]
        exact vouched
      refine ⟨nonempty, ?_, ?_, honest, ?_⟩
      · rw [accepted, List.length_append, h.counted]
        rfl
      · rw [accepted, List.mem_append, ← h.ended, List.mem_singleton]
        change (v.receiver.peerEnded || decide (payload = [])) = true ↔ _
        rw [Bool.or_eq_true, decide_eq_true_iff, eq_comm (a := payload)]
      · rw [accepted]
        exact prefix_concat h.delivered next

end View

namespace Duplex

/-- Exchanges keep both ends honest, and what they accept in step with what was written. -/
theorem delivers_kept : Law.Kept View.Delivers := by
  intro v w v' w' cut cut' exchange h back
  cases exchange with
  | acts more act =>
    obtain ⟨accepted, expected, ended⟩ := act.received
    refine ⟨⟨act.wrote_nonempty h.nonempty, ?_, ?_, act.honest h.honest, ?_⟩, ?_⟩
    · rw [accepted, expected]
      exact h.counted
    · rw [accepted, ended]
      exact h.ended
    · rw [accepted]
      exact h.delivered
    · exact { back with delivered := back.delivered.trans act.log_prefix }
  | takes inFlight first act =>
    have genuine := back.honest _ (inFlight ▸ List.mem_append_right _ List.mem_cons_self)
    have taken := act.delivers h genuine
    refine ⟨⟨taken.nonempty, taken.counted, taken.ended, taken.honest, taken.delivered⟩,
      back.nonempty, back.counted, back.ended, ?_, ?_⟩
    · intro x mem
      refine back.honest x ?_
      rw [inFlight]
      rcases List.mem_append.mp mem with mem | mem
      · exact List.mem_append_left _ mem
      · exact List.mem_append_right _ (List.mem_cons_of_mem _ mem)
    · rw [act.log_eq]
      exact back.delivered

theorem delivers_start (id : Chain.Id) (near far : Config) :
    (start id near far).Obeys View.Delivers := by
  intro side
  cases side <;> exact ⟨List.not_mem_nil, rfl, ⟨nofun, nofun⟩, nofun, List.prefix_rfl⟩

/-- After every run, what each end has accepted is a start of what its peer has written. -/
theorem delivers_run (id : Chain.Id) (near far : Config) (events : List Event) :
    ((start id near far).run events).Sound ∧
      ((start id near far).run events).Obeys View.Delivers :=
  obeys_run delivers_kept id near far (delivers_start id near far) events

end Duplex

/-- The end marker is the last unit of a log, so that a part of it with the marker is all of it. -/
theorem eq_wrote_of_endMarker {got wrote : List Bytes} {closed : Bool} (nonempty : [] ∉ wrote)
    (part : got ++ [[]] <+: wrote ++ endMarker closed) : got = wrote ∧ closed = true := by
  have notInside : ¬got ++ [[]] <+: wrote := fun inside =>
    nonempty (inside.subset (List.mem_append_right _ List.mem_cons_self))
  cases closed with
  | false =>
    rw [endMarker_false, List.append_nil] at part
    exact absurd part notInside
  | true =>
    rcases List.prefix_concat_iff.mp part with same | inside
    · exact ⟨List.append_cancel_right same, rfl⟩
    · exact absurd inside notInside

/-- A part of a log with the marker in it is all of it. -/
theorem eq_log_of_endMarker {accepted wrote : List Bytes} {closed : Bool} (nonempty : [] ∉ wrote)
    (part : accepted <+: wrote ++ endMarker closed) (ended : [] ∈ accepted) :
    closed = true ∧ accepted = wrote ++ [[]] := by
  obtain ⟨got, rest, rfl⟩ := List.append_of_mem ended
  have front : got ++ [[]] <+: got ++ [] :: rest := ⟨rest, by simp⟩
  obtain ⟨rfl, rfl⟩ := eq_wrote_of_endMarker nonempty (front.trans part)
  have last := (List.prefix_append_right_inj got).mp part
  rw [endMarker_true, List.cons_prefix_cons, List.prefix_nil] at last
  rw [last.2]
  exact ⟨rfl, rfl⟩

/-- A part of a log that holds no end marker is a part of the chunks written. -/
theorem prefix_wrote_of_nonempty {got wrote : List Bytes} {closed : Bool} (nonempty : [] ∉ got)
    (part : got <+: wrote ++ endMarker closed) : got <+: wrote := by
  cases closed with
  | false =>
    rwa [endMarker_false, List.append_nil] at part
  | true =>
    rcases List.prefix_concat_iff.mp part with same | inside
    · exact absurd (same ▸ List.mem_append_right _ List.mem_cons_self) nonempty
    · exact inside

namespace Duplex

/-- Exactly-once, in-order delivery. After every run of two ends with any settings, the chunks that
one user has read are the first chunks that the other has written, in the order of writing; and once
a read has given the end of the stream, the writer had closed its side and every chunk it had
written was read. -/
theorem got_prefix_wrote (id : Chain.Id) (near far : Config) (events : List Event) (side : Side) :
    let d := (start id near far).run events
    (d.party side).got <+: (d.party side.opposite).wrote ∧
      ((d.party side).sawEnd = true →
        (d.party side).got = (d.party side.opposite).wrote ∧
          (d.party side.opposite).stream.buffer.closed = true) := by
  intro d
  obtain ⟨sound, delivers⟩ := delivers_run id near far events
  have reader := sound side
  have forth := delivers side
  have back := delivers side.opposite
  have accepted : (d.party side).got ++ endMarker (d.party side).stream.ended ++
      (d.party side).stream.inbox <+:
        (d.party side.opposite).wrote ++ endMarker (d.party side.opposite).stream.buffer.closed :=
    forth.delivered
  constructor
  · refine prefix_wrote_of_nonempty reader.got_nonempty (List.IsPrefix.trans ?_ accepted)
    rw [List.append_assoc]
    exact List.prefix_append _ _
  · intro sawEnd
    rw [reader.ended_of_sawEnd sawEnd, endMarker_true] at accepted
    exact eq_wrote_of_endMarker back.nonempty ((List.prefix_append _ _).trans accepted)

example : ((start ⟨7⟩ {} {}).run recovery).far.got = [[7], [8]] := by
  decide +kernel

end Duplex

end Tether.Stream
