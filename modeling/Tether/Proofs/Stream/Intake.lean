import Tether.Proofs.Stream.Lone

/-!
# A receiver and any peer

The law of the receiving side, for whatever the chain delivers. It is told by the log of the deliveries
that the reading activity took, each with what was handed to the inbox and what was queued for the peer
on it. `Took` says once what a delivery can come to; what the receiver remembers of the log follows from
its cases, one thing at a time: the units accepted, the acknowledgment owed for them, and the gaps that a
resend was asked for.
-/

namespace Tether.Stream

/-- The count in a frame that brings one. -/
def Frame.count? : Frame → Option Nat
  | .sync count | .ack count => some count
  | .chunk _ _ => none

/-- The count of a frame that asks for a resend. -/
def Frame.sync? : Frame → Option Nat
  | .sync count => some count
  | .chunk _ _ | .ack _ => none

/-- Whether a frame is an acknowledgment. -/
def Frame.acks : Frame → Bool
  | .ack _ => true
  | .chunk _ _ | .sync _ => false

/-- The number and the payload of the unit that a delivery brings, if it brings one. -/
def numbered? : Chain.Delivery → Option (Nat × Bytes)
  | .stitch _ _ => none
  | .chunk data =>
    match Frame.decode data with
    | .ok (.chunk seq payload) => some (seq, payload)
    | .ok (.sync _) | .ok (.ack _) | .error _ => none

/-- What the reading activity did about a delivery that it took. -/
structure Intake where
  delivery : Chain.Delivery
  /-- What was handed to the inbox. An empty unit is the end marker. -/
  handed : List Bytes
  /-- What was queued for the peer. -/
  queued : List Frame

namespace Intake

/-- Whether the delivery is that of a new link. -/
def stitches (l : Intake) : Bool :=
  match l.delivery with
  | .stitch _ _ => true
  | .chunk _ => false

/-- Whether nothing is owed an acknowledgment after the delivery. -/
def settles (l : Intake) : Bool :=
  l.stitches || l.queued.any Frame.acks

/-- The units handed to the inbox. -/
def units (ls : List Intake) : List Bytes :=
  ls.flatMap handed

/-- The counts queued for the peer. -/
def counts (ls : List Intake) : List Nat :=
  (ls.flatMap queued).filterMap Frame.count?

/-- How many units were handed to the inbox since the last acknowledgment or stitch. -/
def owed (ls : List Intake) : Nat :=
  ls.foldl (fun n l => if l.settles then 0 else n + l.handed.length) 0

/-- The gaps for which a resend was asked for since the last stitch. -/
def gaps (ls : List Intake) : List Nat :=
  ls.foldl (fun ns l => if l.stitches then [] else ns ++ l.queued.filterMap Frame.sync?) []

/-- Of numbered units those that come in order, up to the end marker: each one that has the next number. -/
def inOrder (units : List (Nat × Bytes)) : List Bytes :=
  units.foldl (fun got unit => if unit.1 = got.length ∧ [] ∉ got then got ++ [unit.2] else got) []

variable {ls : List Intake} {l : Intake} {r : Receiver} {ackFrequency seq : Nat} {payload : Bytes}

theorem units_append (ls ls' : List Intake) : units (ls ++ ls') = units ls ++ units ls' :=
  List.flatMap_append

theorem units_concat (ls : List Intake) (l : Intake) : units (ls ++ [l]) = units ls ++ l.handed := by
  simp [units]

theorem counts_concat (ls : List Intake) (l : Intake) :
    counts (ls ++ [l]) = counts ls ++ l.queued.filterMap Frame.count? := by
  simp [counts]

theorem owed_concat (ls : List Intake) (l : Intake) :
    owed (ls ++ [l]) = if l.settles then 0 else owed ls + l.handed.length := by
  simp [owed]

theorem gaps_concat (ls : List Intake) (l : Intake) :
    gaps (ls ++ [l]) = if l.stitches then [] else gaps ls ++ l.queued.filterMap Frame.sync? := by
  simp [gaps]

theorem inOrder_concat (us : List (Nat × Bytes)) (unit : Nat × Bytes) :
    inOrder (us ++ [unit]) = if unit.1 = (inOrder us).length ∧ [] ∉ inOrder us
      then inOrder us ++ [unit.2] else inOrder us := by
  rw [inOrder, List.foldl_append]
  rfl

/-! ## What a delivery comes to -/

/-- What a delivery can come to, and the receiver after it. -/
inductive Took (ackFrequency : Nat) (r : Receiver) : Intake → Receiver → Prop
  | stitched {seq : Nat} {link : Chain.LinkId} :
    Took ackFrequency r ⟨.stitch seq link, [], [.sync r.expected]⟩
      { r with gapSynced := none, unacked := 0 }
  /-- A unit from beyond a gap, and the first one since the gap was there. -/
  | gap {data : Bytes} (other : ∀ payload, numbered? (.chunk data) ≠ some (r.expected, payload))
    (new : r.gapSynced ≠ some r.expected) :
    Took ackFrequency r ⟨.chunk data, [], [.sync r.expected]⟩ { r with gapSynced := some r.expected }
  | accepted {data payload : Bytes} (unit : numbered? (.chunk data) = some (r.expected, payload))
    (opened : r.peerEnded = false) :
    Took ackFrequency r ⟨.chunk data, [payload], (r.accept ackFrequency payload).reply.toList⟩
      (r.accept ackFrequency payload).receiver
  /-- Nothing is done for the receiver: the delivery is a count or a fault, or brings a unit once more. -/
  | idle {data : Bytes} (other : ∀ payload, numbered? (.chunk data) = some (r.expected, payload) →
      r.peerEnded = true) : Took ackFrequency r ⟨.chunk data, [], []⟩ r

theorem took_of_chunk {data : Bytes} {receipt : Receipt}
    (unit : numbered? (.chunk data) = some (seq, payload))
    (taken : r.chunk ackFrequency seq payload = .ok receipt) : Took ackFrequency r
      ⟨.chunk data, receipt.accepted.toList, receipt.reply.toList⟩ receipt.receiver := by
  have other (apart : seq ≠ r.expected) (payload' : Bytes) :
      numbered? (.chunk data) ≠ some (r.expected, payload') := by
    rw [unit]
    intro same
    cases same
    exact apart rfl
  unfold Receiver.chunk at taken
  split at taken
  · next below =>
    cases taken
    exact .idle fun payload' same => absurd same (other (Nat.ne_of_lt below) payload')
  · next notBelow =>
    split at taken
    · next beyond =>
      have apart := other (Nat.ne_of_gt beyond)
      split at taken
      · cases taken
        exact .idle fun payload' same => absurd same (apart payload')
      · next new =>
        cases taken
        exact .gap apart new
    · next notBeyond =>
      have next : seq = r.expected := by omega
      subst next
      split at taken
      · cases taken
      · next opened =>
        cases taken
        exact .accepted unit (by simpa using opened)

theorem Took.count?_of_queued {r' : Receiver} (took : Took ackFrequency r l r') {f : Frame}
    (mem : f ∈ l.queued) : f.count? = some r'.expected := by
  cases took with
  | stitched | gap _ _ => exact List.mem_singleton.mp mem ▸ rfl
  | idle _ => cases mem
  | @accepted data payload _ _ =>
    obtain ⟨reply, -⟩ | ⟨reply, -⟩ := r.accept_cases ackFrequency payload <;>
      simp only [reply, Option.toList_some, Option.toList_none] at mem
    · exact List.mem_singleton.mp mem ▸ rfl
    · cases mem

/-- The end marker is acknowledged at once. -/
theorem Took.acks_of_end {r' : Receiver} (took : Took ackFrequency r l r') (ends : [] ∈ l.handed) :
    .ack r'.expected ∈ l.queued := by
  cases took with
  | stitched | gap _ _ | idle _ => cases ends
  | @accepted data payload _ _ =>
    obtain ⟨reply, -⟩ | ⟨-, some', -⟩ := r.accept_cases ackFrequency payload
    · simp only [reply, Option.toList_some]
      exact List.mem_singleton.mpr rfl
    · exact absurd (List.mem_singleton.mp ends).symm some'

/-- The receiver of the log has accepted its units. -/
structure Accepted (ls : List Intake) (r : Receiver) : Prop where
  expected : r.expected = (units ls).length
  peerEnded : r.peerEnded = true ↔ [] ∈ units ls
  last : ∀ i, (units ls)[i]? = some [] → i + 1 = (units ls).length
  ordered : units ls = inOrder (ls.filterMap fun l => numbered? l.delivery)

/-- A unit that is not the next one, or comes behind the end marker, is not handed over. -/
theorem Accepted.skips (h : Accepted ls r) {d : Chain.Delivery}
    (other : ∀ payload, numbered? d = some (r.expected, payload) → r.peerEnded = true) :
    units ls = inOrder (ls.filterMap (fun l => numbered? l.delivery) ++ (numbered? d).toList) := by
  cases unit : numbered? d with
  | none => exact h.ordered.trans (by rw [Option.toList_none, List.append_nil])
  | some unit' =>
    have skipped : ¬(unit'.1 = (units ls).length ∧ [] ∉ units ls) := by
      rw [← h.expected, ← h.peerEnded]
      rintro ⟨next, opened⟩
      exact opened (other unit'.2 (unit.trans (by rw [← next])))
    rw [Option.toList_some, inOrder_concat, ← h.ordered, if_neg skipped]

theorem Accepted.took (h : Accepted ls r) {r' : Receiver} (took : Took ackFrequency r l r') :
    Accepted (ls ++ [l]) r' := by
  have brought : (ls ++ [l]).filterMap (fun l => numbered? l.delivery) =
      ls.filterMap (fun l => numbered? l.delivery) ++ (numbered? l.delivery).toList := by
    cases unit : numbered? l.delivery <;> simp [unit]
  -- Where nothing is handed over, only the unit that was brought has to be looked at.
  have same (handed : l.handed = []) (expected : r'.expected = r.expected)
      (peerEnded : r'.peerEnded = r.peerEnded)
      (other : ∀ payload, numbered? l.delivery = some (r.expected, payload) → r.peerEnded = true) :
      Accepted (ls ++ [l]) r' := by
    have units : units (ls ++ [l]) = units ls := by rw [units_concat, handed, List.append_nil]
    refine ⟨?_, ?_, ?_, ?_⟩ <;> rw [units]
    · exact expected.trans h.expected
    · exact peerEnded ▸ h.peerEnded
    · exact h.last
    · rw [brought]
      exact h.skips other
  cases took with
  | stitched => exact same rfl rfl rfl nofun
  | gap other new => exact same rfl rfl rfl fun payload unit => absurd unit (other payload)
  | idle other => exact same rfl rfl rfl other
  | @accepted data payload unit opened =>
    have fresh : [] ∉ units ls := by rw [← h.peerEnded, opened]; nofun
    have next : r.expected = (units ls).length ∧ [] ∉ units ls := ⟨h.expected, fresh⟩
    refine ⟨?_, ?_, fun i ended => ?_, ?_⟩
    · rw [units_concat, Receiver.accept_expected, h.expected, List.length_append]
      rfl
    · rw [units_concat, Receiver.accept_peerEnded, opened, Bool.false_or, decide_eq_true_iff,
        List.mem_append, List.mem_singleton, or_iff_right fresh, eq_comm]
    · rw [units_concat] at ended ⊢
      rw [List.length_append]
      rcases Nat.lt_or_ge i (units ls).length with before | after
      · rw [List.getElem?_append_left before] at ended
        exact absurd (List.mem_of_getElem? ended) fresh
      · obtain ⟨inside, -⟩ := List.getElem?_eq_some_iff.mp ended
        rw [List.length_append] at inside
        exact Nat.le_antisymm inside (Nat.succ_le_succ after)
    · rw [brought, unit, Option.toList_some, inOrder_concat, ← h.ordered, if_pos next, units_concat]

/-- The receiver of the log owes its units an acknowledgment, but for those that had one. -/
structure Owes (ackFrequency : Nat) (ls : List Intake) (r : Receiver) : Prop where
  unacked : r.unacked = owed ls
  below : r.unacked < max ackFrequency 1

theorem Owes.took (h : Owes ackFrequency ls r) {r' : Receiver} (took : Took ackFrequency r l r') :
    Owes ackFrequency (ls ++ [l]) r' := by
  have positive : 0 < max ackFrequency 1 := Nat.lt_of_lt_of_le Nat.one_pos (Nat.le_max_right _ _)
  cases took with
  | stitched => exact ⟨by rw [owed_concat]; rfl, positive⟩
  | gap _ _ | idle _ => exact ⟨by rw [owed_concat]; exact h.unacked, h.below⟩
  | @accepted data payload _ _ =>
    obtain ⟨reply, unacked⟩ | ⟨reply, -, unacked, below⟩ := r.accept_cases ackFrequency payload
    · rw [reply]
      refine ⟨?_, unacked ▸ positive⟩
      rw [owed_concat, unacked]
      rfl
    · rw [reply]
      refine ⟨?_, unacked ▸ below⟩
      rw [owed_concat, unacked, h.unacked]
      rfl

/-- The receiver of the log knows the last gap that a resend was asked for. -/
structure Asked (ls : List Intake) (r : Receiver) : Prop where
  gapSynced : r.gapSynced = (gaps ls).getLast?
  increasing : (gaps ls).Pairwise (· < ·)
  le : ∀ n ∈ gaps ls, n ≤ r.expected

/-- A gap that was not asked for last is beyond all that were. -/
theorem Asked.lt (h : Asked ls r) (new : r.gapSynced ≠ some r.expected) :
    ∀ n ∈ gaps ls, n < r.expected := by
  intro n mem
  cases last : (gaps ls).getLast? with
  | none =>
    rw [List.getLast?_eq_none_iff.mp last] at mem
    cases mem
  | some m =>
    obtain ⟨front, same⟩ := List.getLast?_eq_some_iff.mp last
    have increasing := h.increasing
    have le := h.le m
    rw [same] at mem increasing le
    have below : m < r.expected := by
      refine Nat.lt_of_le_of_ne (le (by simp)) fun here => new ?_
      rw [h.gapSynced, last, here]
    obtain mem | mem := List.mem_append.mp mem
    · exact Nat.lt_trans ((List.pairwise_append.mp increasing).2.2 n mem m (by simp)) below
    · exact List.mem_singleton.mp mem ▸ below

theorem Asked.took (h : Asked ls r) {r' : Receiver} (took : Took ackFrequency r l r') :
    Asked (ls ++ [l]) r' := by
  have same (gaps : gaps (ls ++ [l]) = gaps ls) (gapSynced : r'.gapSynced = r.gapSynced)
      (expected : r.expected ≤ r'.expected) : Asked (ls ++ [l]) r' := by
    refine ⟨?_, ?_, ?_⟩ <;> rw [gaps]
    · exact gapSynced.trans h.gapSynced
    · exact h.increasing
    · exact fun n mem => Nat.le_trans (h.le n mem) expected
  cases took with
  | stitched =>
    refine ⟨?_, ?_, ?_⟩ <;> rw [gaps_concat]
    · rfl
    · exact .nil
    · nofun
  | @gap data _ new =>
    have asked : gaps (ls ++ [⟨.chunk data, [], [.sync r.expected]⟩]) = gaps ls ++ [r.expected] :=
      gaps_concat ls _
    refine ⟨?_, ?_, ?_⟩ <;> rw [asked]
    · rw [List.getLast?_concat]
    · refine List.pairwise_append.mpr ⟨h.increasing, List.pairwise_singleton _ _, fun n mem m here => ?_⟩
      rw [List.mem_singleton.mp here]
      exact h.lt new n mem
    · intro n mem
      obtain mem | mem := List.mem_append.mp mem
      · exact h.le n mem
      · exact Nat.le_of_eq (List.mem_singleton.mp mem)
  | idle _ => exact same ((gaps_concat ls _).trans (List.append_nil _)) rfl (Nat.le_refl _)
  | @accepted data payload _ _ =>
    refine same ?_ rfl (Nat.le_succ _)
    obtain ⟨reply, -⟩ | ⟨reply, -⟩ := r.accept_cases ackFrequency payload <;> rw [reply] <;>
      exact (gaps_concat ls _).trans (List.append_nil _)

/-- The peer was told of no more units than were accepted, and never of fewer than before. -/
structure Told (ls : List Intake) (r : Receiver) : Prop where
  rising : (counts ls).Pairwise (· ≤ ·)
  le : ∀ n ∈ counts ls, n ≤ r.expected

theorem Told.took (h : Told ls r) {r' : Receiver} (took : Took ackFrequency r l r') :
    Told (ls ++ [l]) r' := by
  have quiet (counts : counts (ls ++ [l]) = counts ls) (expected : r.expected ≤ r'.expected) :
      Told (ls ++ [l]) r' :=
    ⟨counts ▸ h.rising, fun n mem => Nat.le_trans (h.le n (counts ▸ mem)) expected⟩
  have tells (counts : counts (ls ++ [l]) = counts ls ++ [r'.expected])
      (expected : r.expected ≤ r'.expected) : Told (ls ++ [l]) r' := by
    have le (n : Nat) (mem : n ∈ Intake.counts ls) : n ≤ r'.expected :=
      Nat.le_trans (h.le n mem) expected
    refine ⟨?_, fun n mem => ?_⟩
    · rw [counts]
      refine List.pairwise_append.mpr ⟨h.rising, List.pairwise_singleton _ _, fun n mem m here => ?_⟩
      rw [List.mem_singleton.mp here]
      exact le n mem
    · rw [counts] at mem
      obtain mem | mem := List.mem_append.mp mem
      · exact le n mem
      · exact Nat.le_of_eq (List.mem_singleton.mp mem)
  cases took with
  | stitched | gap _ _ => exact tells (counts_concat ls _) (Nat.le_refl _)
  | idle _ => exact quiet ((counts_concat ls _).trans (List.append_nil _)) (Nat.le_refl _)
  | @accepted data payload _ _ =>
    obtain ⟨reply, -⟩ | ⟨reply, -⟩ := r.accept_cases ackFrequency payload <;>
      rw [reply] at quiet tells ⊢
    · exact tells (counts_concat ls _) (Nat.le_succ _)
    · exact quiet ((counts_concat ls _).trans (List.append_nil _)) (Nat.le_succ _)

end Intake

/-! ## What is taken -/

namespace Endpoint

open Intake (Took)

/-- The fault of a delivery, once these units were accepted: it is no frame, the next unit behind the end
marker, or a count that the buffer refuses. -/
def fault? (s : Endpoint) (got : List Bytes) : Chain.Delivery → Option Error
  | .stitch _ _ => none
  | .chunk data =>
    match Frame.decode data with
    | .error e => some e
    | .ok (.chunk seq _) =>
      if seq = got.length ∧ [] ∈ got then
        some (.protocolViolation s!"chunk {seq} after end of stream")
      else none
    | .ok (.sync count) | .ok (.ack count) => s.buffer.refusal? (.seek count)

variable {s : Endpoint} {d : Chain.Delivery} {receipt : Receipt} {e : Error}

theorem took_of_ok (judged : s.judged d = .ok receipt) :
    Took s.config.ackFrequency s.receiver
      ⟨d, receipt.accepted.toList, receipt.reply.toList⟩ receipt.receiver := by
  cases d with
  | stitch seq link =>
    cases judged
    exact .stitched
  | chunk data =>
    unfold Endpoint.judged at judged
    dsimp only at judged
    cases read : Frame.decode data with
    | error e =>
      rw [read] at judged
      cases judged
    | ok f =>
      rw [read] at judged
      cases f with
      | sync count | ack count =>
        have none' : numbered? (.chunk data) = none := by rw [numbered?, read]
        dsimp only at judged
        split at judged
        · cases judged
        · cases judged
          exact .idle fun payload unit => by rw [none'] at unit; cases unit
      | chunk seq payload =>
        exact Intake.took_of_chunk (by rw [numbered?, read]) judged

/-- A fault leaves the receiver as it was. -/
theorem took_of_error (judged : s.judged d = .error e) :
    Took s.config.ackFrequency s.receiver ⟨d, [], []⟩ s.receiver := by
  cases d with
  | stitch seq link => cases judged
  | chunk data =>
    refine .idle fun payload unit => ?_
    unfold numbered? at unit
    dsimp only at unit
    split at unit
    · next read =>
      cases unit
      simp only [Endpoint.judged, read] at judged
      exact (Receiver.chunk_eq_error judged).2
    · cases unit
    · cases unit
    · cases unit

/-- A delivery is found to be a fault just if it is one. -/
theorem judged_eq_error {ls : List Intake} (accepted : Intake.Accepted ls s.receiver) :
    s.judged d = .error e ↔ s.fault? (Intake.units ls) d = some e := by
  cases d with
  | stitch seq link => exact ⟨nofun, nofun⟩
  | chunk data =>
    unfold judged fault?
    dsimp only
    cases Frame.decode data with
    | error e' => simp
    | ok f =>
      cases f with
      | sync count | ack count =>
        dsimp only
        cases s.buffer.refusal? (.seek count) <;> simp
      | chunk seq payload =>
        dsimp only
        simp only [← accepted.expected, ← accepted.peerEnded]
        unfold Receiver.chunk
        split
        · next below => simp [Nat.ne_of_lt below]
        · split
          · next beyond => split <;> simp [Nat.ne_of_gt beyond]
          · next notBelow notBeyond =>
            have next : seq = s.receiver.expected := by omega
            cases s.receiver.peerEnded <;> simp [next]

/-- A fault is one of the peer, unless the stream has ended before. -/
theorem accuses_of_fault? {got : List Bytes} (going : s.buffer.aborted = none)
    (fault : s.fault? got d = some e) : ∃ detail, e = .protocolViolation detail := by
  have accuses : e.accuses = true := by
    cases d with
    | stitch seq link => cases fault
    | chunk data =>
      unfold fault? at fault
      dsimp only at fault
      split at fault
      · next read =>
        cases fault
        exact Frame.accuses_of_decode read
      · obtain ⟨-, same⟩ := Option.ite_none_right_eq_some.mp fault
        cases same
        rfl
      all_goals
        rw [Buffer.refusal?, going, Option.none_or] at fault
        obtain ⟨-, same⟩ := Option.ite_none_right_eq_some.mp fault
        cases same
        rfl
  cases e with
  | protocolViolation detail => exact ⟨detail, rfl⟩
  | closed | emptyChunk | chunkTooLarge | chain => cases accuses

end Endpoint

namespace Party

open Intake (units counts owed gaps inOrder Took Accepted Owes Asked Told)

/-- What the reading activity does about a delivery. -/
def intake (p : Party) (d : Chain.Delivery) : Intake where
  delivery := d
  handed := (p.deliver d).stream.inbox.drop p.stream.inbox.length
  queued := ((p.deliver d).stream.control.drop p.stream.control.length).filterMap Control.frame?

/-- What the reading activity does by an act, if it takes a delivery. -/
def intake? (p : Party) : Act → Option Intake
  | .deliver d => if p.stream.reading then some (p.intake d) else none
  | _ => none

/-- The log of a run. -/
def intakes : Party → List Act → List Intake
  | _, [] => []
  | p, act :: acts => (p.intake? act).toList ++ intakes (p.step act) acts

/-- Why an act stops the reading activity, once these units were accepted. -/
def stop? (p : Party) (got : List Bytes) : Act → Option Error
  | .deliver d => p.stream.fault? got d
  | .lose e => some (.chain e)
  | _ => none

variable {p p' : Party} {act : Act} {acts : List Act} {ls : List Intake} {d : Chain.Delivery} {e : Error}
  {config : Config}

/-- The end is as its log tells. -/
structure Records (config : Config) (ls : List Intake) (p : Party) : Prop where
  settings : p.stream.config = config
  whole : p.accepted = units ls
  accepted : Accepted ls p.stream.receiver
  owes : Owes config.ackFrequency ls p.stream.receiver
  asked : Asked ls p.stream.receiver
  told : Told ls p.stream.receiver
  agreed : p.stream.buffer.aborted = p.stream.terminal

theorem intake_of_takes {r : Receipt} (takes : Takes d r p (p.deliver d)) :
    p.intake d = ⟨d, r.accepted.toList, r.reply.toList⟩ := by
  unfold intake
  rw [takes.inbox, takes.control, List.drop_left, List.drop_left]
  have frames : (writers d ++ r.reply.toList.map Control.frame).filterMap Control.frame? =
      r.reply.toList := by
    cases d <;> cases r.reply <;> rfl
  rw [frames]

theorem intake_of_stopReading (stopped : p.deliver d = p.stopReading e) :
    p.intake d = ⟨d, [], []⟩ := by
  unfold intake
  rw [stopped]
  change Intake.mk d (p.stream.inbox.drop _) ((p.stream.control.drop _).filterMap _) = _
  rw [List.drop_length, List.drop_length]
  rfl

/-- Once the reading activity has stopped, it does not start again. -/
theorem reading_step_of_false (stopped : p.stream.reading = false) (act : Act) :
    (p.step act).stream.reading = false := by
  cases act with
  | deliver d | lose e => simp [step, stopped]
  | write | close | read | share | letGo | kill | expire | take | pass =>
    exact (p.aside_step rfl).reading.trans stopped

theorem exists_of_intake? {l : Intake} (taken : p.intake? act = some l) :
    ∃ d, act = .deliver d ∧ p.stream.reading = true ∧ l = p.intake d := by
  cases act with
  | deliver d =>
    obtain ⟨reading, same⟩ := Option.ite_none_right_eq_some.mp taken
    exact ⟨d, rfl, reading, (Option.some.inj same).symm⟩
  | lose | write | close | read | share | letGo | kill | expire | take | pass => cases taken

theorem intakes_of_not_reading (stopped : p.stream.reading = false) : p.intakes acts = [] := by
  induction acts generalizing p with
  | nil => rfl
  | cons act acts ih =>
    have none' : p.intake? act = none := by
      refine Option.eq_none_iff_forall_ne_some.mpr fun l taken => ?_
      obtain ⟨d, -, reading, -⟩ := exists_of_intake? taken
      cases stopped.symm.trans reading
    rw [intakes, none', ih (reading_step_of_false stopped act)]
    rfl

theorem intakes_append (p : Party) (earlier later : List Act) :
    p.intakes (earlier ++ later) = p.intakes earlier ++ (p.run earlier).intakes later := by
  induction earlier generalizing p with
  | nil => rfl
  | cons act earlier ih =>
    rw [List.cons_append, intakes, ih, intakes, List.append_assoc]
    rfl

/-- Only a delivery that is taken queues anything. -/
theorem control_step (p : Party) (none' : p.intake? act = none) :
    (p.step act).stream.control <:+ p.stream.control := by
  cases act with
  | deliver d =>
    have stopped : ¬p.stream.reading = true := fun reading => by simp [intake?, reading] at none'
    simp [step, stopped]
  | lose e =>
    unfold step
    dsimp only
    split <;> exact List.suffix_refl _
  | write | close | read | share | letGo | kill | expire | take | pass =>
    exact (p.aside_step rfl).control

namespace Records

theorem start (chain : Chain.ChainId) (id : Chain.Id) (config : Config) :
    Records config [] (start chain id config) := by
  refine ⟨rfl, rfl, ⟨rfl, ⟨nofun, nofun⟩, nofun, rfl⟩, ⟨rfl, ?_⟩, ⟨rfl, .nil, nofun⟩, ⟨.nil, nofun⟩,
    rfl⟩
  exact Nat.lt_of_lt_of_le Nat.one_pos (Nat.le_max_right _ _)

theorem aside (h : Records config ls p) (aside : p.Aside p') : Records config ls p' :=
  ⟨aside.config.trans h.settings, aside.accepted.trans h.whole, aside.receiver ▸ h.accepted,
    aside.receiver ▸ h.owes, aside.receiver ▸ h.asked, aside.receiver ▸ h.told, aside.agreed h.agreed⟩

theorem took (h : Records config ls p) {l : Intake}
    (took : Took p.stream.config.ackFrequency p.stream.receiver l p'.stream.receiver)
    (settings : p'.stream.config = p.stream.config) (accepted : p'.accepted = p.accepted ++ l.handed)
    (agreed : p'.stream.buffer.aborted = p'.stream.terminal) :
    Records config (ls ++ [l]) p' := by
  rw [h.settings] at took
  exact ⟨settings.trans h.settings, by rw [accepted, h.whole, Intake.units_concat], h.accepted.took took,
    h.owes.took took, h.asked.took took, h.told.took took, agreed⟩

theorem stopReading (h : Records config ls p) (e : Error) : Records config ls (p.stopReading e) :=
  have failed := h.aside (.fail p e)
  ⟨failed.settings, failed.whole, failed.accepted, failed.owes, failed.asked, failed.told, failed.agreed⟩

theorem deliver (h : Records config ls p) (d : Chain.Delivery) :
    Records config (ls ++ [p.intake d]) (p.deliver d) ∧
      Took config.ackFrequency p.stream.receiver (p.intake d) (p.deliver d).stream.receiver := by
  have judgment := p.deliver_judged d
  rw [← h.settings]
  cases judged : p.stream.judged d with
  | ok r =>
    rw [judged] at judgment
    have took := Endpoint.took_of_ok judged
    rw [intake_of_takes judgment]
    rw [← judgment.receiver] at took
    exact ⟨h.settings ▸ h.took took judgment.config judgment.accepted (judgment.agreed h.agreed), took⟩
  | error e =>
    rw [judged] at judgment
    have took := Endpoint.took_of_error judged
    rw [intake_of_stopReading judgment, judgment]
    exact ⟨h.settings ▸ h.took took rfl (List.append_nil _).symm ((Aside.fail p e).agreed h.agreed), took⟩

theorem step (h : Records config ls p) (act : Act) :
    Records config (ls ++ (p.intake? act).toList) (p.step act) := by
  have stays (none' : p.intake? act = none) (same : Records config ls (p.step act)) :
      Records config (ls ++ (p.intake? act).toList) (p.step act) := by
    rw [none', Option.toList_none, List.append_nil]
    exact same
  cases act with
  | deliver d =>
    cases reading : p.stream.reading with
    | true =>
      simp only [Party.step, intake?, reading, if_true, Option.toList_some]
      exact (h.deliver d).1
    | false => exact stays (by simp [intake?, reading]) (by simpa [Party.step, reading] using h)
  | lose e =>
    refine stays rfl ?_
    cases reading : p.stream.reading with
    | true => simpa [Party.step, reading] using h.stopReading (.chain e)
    | false => simpa [Party.step, reading] using h
  | write | close | read | share | letGo | kill | expire | take | pass =>
    exact stays rfl (h.aside (p.aside_step rfl))

theorem run (h : Records config ls p) (acts : List Act) :
    Records config (ls ++ p.intakes acts) (p.run acts) := by
  induction acts generalizing ls p with
  | nil =>
    rw [intakes, List.append_nil]
    exact h
  | cons act acts ih =>
    rw [intakes, ← List.append_assoc]
    exact ih (h.step act)

/-- The reading activity stops for its reasons alone, and the stream ends with the first. -/
theorem step_of_stop (h : Records config ls p) (reading : p.stream.reading = true)
    (stop : p.stop? (units ls) act = some e) : p.step act = p.stopReading e := by
  cases act with
  | deliver d =>
    have judgment := p.deliver_judged d
    rw [(Endpoint.judged_eq_error h.accepted).mpr stop] at judgment
    simp only [Party.step, reading, if_true]
    exact judgment
  | lose e' =>
    cases stop
    simp only [Party.step, reading, if_true]
  | write | close | read | share | letGo | kill | expire | take | pass => cases stop

theorem reading_step (h : Records config ls p) (act : Act) : (p.step act).stream.reading = true ↔
    p.stream.reading = true ∧ p.stop? (units ls) act = none := by
  cases reading : p.stream.reading with
  | false => simp [reading_step_of_false reading]
  | true =>
    cases stop : p.stop? (units ls) act with
    | some e =>
      rw [h.step_of_stop reading stop]
      simp [Party.stopReading]
    | none =>
      refine iff_of_true ?_ ⟨rfl, rfl⟩
      cases act with
      | deliver d =>
        have judgment := p.deliver_judged d
        cases judged : p.stream.judged d with
        | error e => cases ((Endpoint.judged_eq_error h.accepted).mp judged).symm.trans stop
        | ok r =>
          rw [judged] at judgment
          simp only [Party.step, reading, if_true]
          exact judgment.reading.trans reading
      | lose e => cases stop
      | write | close | read | share | letGo | kill | expire | take | pass =>
        exact (p.aside_step rfl).reading.trans reading

end Records

/-! ## The law -/

/-- The law of the receiving side. In any run of one end, whatever the chain delivers, the log of the
deliveries taken is such that

* what the user has read and will read are the units handed over, and these are the payloads of the frames
  that came with the numbers 0, 1, 2 and so on. An end marker is the last of them;
* the counts queued for the peer never decrease. After each delivery fewer units than the acknowledgment
  frequency, where zero counts as one, were handed over since the last acknowledgment or stitch, and no
  resend was asked for twice for one gap since the last stitch;
* each frame queued on a delivery carries the number of units handed over by then, the end marker is
  acknowledged on the delivery that brings it, and by nothing else is anything queued;
* the reading activity stops just if the chain ends under it or a delivery is a fault: no frame, the next
  unit behind the end marker, or a count that the buffer refuses. It takes nothing any more then, and the
  fault is what the stream ends with, as one of the peer, unless it had ended before. -/
theorem receiver_safe_against_any_peer (chain : Chain.ChainId) (id : Chain.Id) (config : Config)
    (acts : List Act) :
    let first := start chain id config
    let ls := first.intakes acts
    ((first.run acts).accepted = units ls ∧
      units ls = inOrder (ls.filterMap fun l => numbered? l.delivery) ∧
      ∀ i, (units ls)[i]? = some [] → i + 1 = (units ls).length) ∧
    (counts ls).Pairwise (· ≤ ·) ∧ owed ls < max config.ackFrequency 1 ∧ (gaps ls).Nodup ∧
    ∀ {earlier act later}, acts = earlier ++ act :: later →
      let p := first.run earlier
      let p' := p.step act
      let before := first.intakes earlier
      (∀ l, p.intake? act = some l →
        let n := (units (before ++ [l])).length
        (∀ f ∈ l.queued, f.count? = some n) ∧ ([] ∈ l.handed → .ack n ∈ l.queued)) ∧
      (p.intake? act = none → p'.stream.control <:+ p.stream.control) ∧
      (p'.stream.reading = true ↔ p.stream.reading = true ∧ p.stop? (units before) act = none) ∧
      (p.stream.reading = true → ∀ e, p.stop? (units before) act = some e →
        ls = before ++ (p.intake? act).toList ∧
        p'.stream.terminal = some (p.stream.terminal.getD e) ∧
        (p.stream.terminal = none → ∀ d, act = .deliver d → ∃ detail, e = .protocolViolation detail)) := by
  intro first ls
  have recorded (acts : List Act) : Records config (first.intakes acts) (first.run acts) :=
    (Records.start chain id config).run acts
  obtain ⟨-, whole, accepted, owes, asked, told, -⟩ := recorded acts
  refine ⟨⟨whole, accepted.ordered, accepted.last⟩, told.rising, owes.unacked ▸ owes.below,
    asked.increasing.imp Nat.ne_of_lt, fun {earlier act later} split => ?_⟩
  intro p p' before
  have records : Records config before p := recorded earlier
  refine ⟨fun l taken => ?_, fun none' => p.control_step none', records.reading_step act,
    fun reading e stop => ⟨?_, ?_, fun going d deliver => ?_⟩⟩
  · obtain ⟨d, rfl, -, rfl⟩ := exists_of_intake? taken
    obtain ⟨after, took⟩ := records.deliver d
    rw [← after.accepted.expected]
    exact ⟨fun f => took.count?_of_queued, took.acks_of_end⟩
  · have stopped : p'.stream.reading = false := by
      change (p.step act).stream.reading = false
      rw [records.step_of_stop reading stop]
      rfl
    change first.intakes acts = _
    rw [split, intakes_append, intakes, intakes_of_not_reading stopped, List.append_nil]
  · change (p.step act).stream.terminal = _
    rw [records.step_of_stop reading stop]
    rfl
  · subst deliver
    exact Endpoint.accuses_of_fault? (records.agreed.trans going) stop

/-- A unit that comes twice is dropped, a gap is told once, and the end marker is acknowledged. -/
example :
    let frames : List Frame :=
      [.chunk 0 [1], .chunk 0 [1], .chunk 2 [3], .chunk 3 [4], .chunk 1 [2], .chunk 2 [3], .chunk 3 []]
    let ls := (start 0 ⟨7⟩ {}).intakes
      (.deliver (.stitch 1 1) :: frames.map fun f => .deliver (.chunk f.encode))
    units ls = [[1], [2], [3], []] ∧ ls.flatMap Intake.queued = [.sync 0, .sync 1, .ack 4] := by
  decide +kernel

end Party

end Tether.Stream
