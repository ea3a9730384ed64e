import Tether.Proofs.Chain.Crashing
import Tether.Proofs.Chain.Killing
import Tether.Proofs.Chain.Overtaking
import Tether.Proofs.Chain.Passage

/-!
# A dialer stops only with its chain

Attaching a link gives no answer for more than one reason, and the dialer simply stops then. It is
safe to do so because a dead chain is the only reason that is left. All links of the chain were
attached by this dialer under numbers that it has used, so the number of a new one is higher than
all of them. A link whose stitch waits to be queued is retired neither by a newer one, since no other
is made meanwhile, nor by its pump, which does not run yet, nor by a failing write, since its writer
is not handed out before the stitch.

The dials that were sent since the numbers were last started over bear the numbers from 1 on, with
none left out and none twice. The numbers are started over only before the first admission, and up
to then no link was attached.

What no such argument covers is a dialer that crashes. It does not look at its chain then, which goes
on without anyone to find it a link.
-/

namespace Tether.Chain

/-! ## A link whose stitch is to be queued -/

namespace Endpoint

variable {e : Endpoint} {j k : LinkId}

theorem links_retire_of_ne (other : j ≠ k) : (e.retire j).links[k]? = e.links[k]? := by
  unfold retire
  rw [Array.getElem?_modify, if_neg other]

theorem links_setStage_of_ne (other : j ≠ k) (stage : Stage) :
    (e.setStage j stage).links[k]? = e.links[k]? := by
  unfold setStage
  rw [Array.getElem?_modify, if_neg other]

theorem links_giveUp_of_ne (other : j ≠ k) (stage : Stage) :
    ((e.retire j).setStage j stage).links[k]? = e.links[k]? :=
  (links_setStage_of_ne other stage).trans (links_retire_of_ne other)

theorem links_received_of_ne (other : j ≠ k) (r : Except Link.Error (Option Bytes)) :
    (e.received j r).links[k]? = e.links[k]? := by
  unfold received
  split
  · exact links_setStage_of_ne other _
  · exact links_giveUp_of_ne other _
  · exact links_giveUp_of_ne other _

/-- The stitch of a link in use is queued, as soon as there is room. -/
theorem stage_of_stitch? {e' : Endpoint} (stitched : e.stitch? k = some e')
    (whole : e.abandoned k = false) : e'.stage k = .receiving := by
  have inside := (stitch?_cases stitched).1
  obtain ⟨a, found⟩ := exists_link inside
  simp only [stitch?, found, whole, Bool.false_eq_true, if_false] at stitched
  split at stitched
  · cases stitched
  · split at stitched
    · cases stitched
      exact (stage_setStage e k k .receiving).trans (if_pos ⟨rfl, inside⟩)
    · cases stitched

end Endpoint

namespace Wired

variable {w : Wired} {blocks : List Block} {j k : LinkId}

/-- The writer of a link is handed out with its stitch. -/
theorem Flows.stitched_of_hasWriter (h : w.Flows blocks) (given : w.hasWriter j = true) :
    (w.chain.stage j).stitched = true := by
  obtain ⟨d, got, writer⟩ := List.any_eq_true.mp given
  obtain ⟨read, same, -, part, -⟩ := h.reads
  rw [same] at got
  obtain ⟨event, mem, rfl⟩ := List.mem_map.mp got
  obtain ⟨b, known, own⟩ := List.mem_flatMap.mp (part.subset mem)
  have link : b.link = j := by
    rcases List.mem_cons.mp own with rfl | chunk
    · exact beq_iff_eq.mp writer
    · obtain ⟨data, -, rfl⟩ := List.mem_map.mp chunk
      cases writer
  exact (h.known j (link ▸ h.lt_size known)).mp ⟨b, known, link⟩

theorem links_pump (waits : w.chain.stage k = .stitching) :
    (w.pump j).chain.links[k]? = w.chain.links[k]? := by
  unfold pump
  split
  · next wants =>
    have other : j ≠ k := by
      rintro rfl
      rw [Endpoint.wantsChunk, waits] at wants
      cases wants
    split
    · rfl
    · split
      · rfl
      · rw [chain_settle]
        exact Endpoint.links_received_of_ne other _
  · split
    · rfl
    · next chain delivered =>
      obtain ⟨-, ⟨stage, rfl⟩ | ⟨-, -, n, chunk, -, holds, rfl⟩⟩ :=
        Endpoint.deliver?_cases delivered
      · have other : j ≠ k := by
          rintro rfl
          rw [waits] at stage
          rcases stage with stage | ⟨chunk, stage⟩ <;> cases stage
        rw [chain_settle]
        exact Endpoint.links_giveUp_of_ne other _
      · have other : j ≠ k := by
          rintro rfl
          cases waits.symm.trans holds
        rw [chain_settle]
        exact Endpoint.links_setStage_of_ne other _

/-- While the chain lives, nothing that others do touches a link whose stitch is to be queued. -/
theorem Flows.links_step (h : w.Flows blocks) {act : Act} (allowed : w.allows act = true)
    (waits : w.chain.stage k = .stitching) (alive : (w.step act).chain.killed = false) :
    (w.step act).chain.links[k]? = w.chain.links[k]? := by
  cases act with
  | attach | stitch => cases allowed
  | pump j => exact links_pump waits
  | write j fault data =>
    have other : j ≠ k := by
      rintro rfl
      have stitched := h.stitched_of_hasWriter allowed
      rw [waits] at stitched
      cases stitched
    simp only [step, Wired.write]
    split
    · next s _ _ =>
      cases (s.pipe.send w.side fault data).2 with
      | ok => rfl
      | error => exact Endpoint.links_retire_of_ne other
    · rfl
  | read =>
    simp only [step, Wired.read]
    have same : w.chain.read.1.links = w.chain.links := by
      unfold Endpoint.read
      split
      · rfl
      · split <;> rfl
    split <;> next read => exact congrArg (·[k]?) (by rw [← same, read])
  | nameReason reason =>
    simp only [step, Endpoint.nameReason]
    split <;> rfl
  | retireCurrent =>
    have moved : w.chain.Moves (w.step .retireCurrent).chain :=
      moves_step w fun _ _ _ same => by cases same
    simp only [step, moved.alive alive, Bool.false_eq_true, if_false]
  | close => cases (Endpoint.killed_kill w.chain none).symm.trans alive
  | dropWriter | arrive | dropSender | dropReceiver | cut | raise => rfl

/-- A dead chain has a reason, if whoever raises the latch has named one. -/
theorem named_step {act : Act} (named : w.chain.killed = true → ∃ e, w.chain.terminal = some e)
    (raising : act = .raise → ∃ e, w.chain.terminal = some e)
    (dead : (w.step act).chain.killed = true) : ∃ e, (w.step act).chain.terminal = some e := by
  rcases killed_or_raises dead with killed | raises | rfl
  · obtain ⟨e, known⟩ := named killed
    exact ⟨e, terminal_step known act⟩
  · obtain ⟨e, known⟩ := raising raises
    exact ⟨e, terminal_step known act⟩
  · exact ⟨_, (Endpoint.terminal_retireCurrent _).trans (Endpoint.nameReason_terminal _ none)⟩

end Wired

namespace Upkeep

variable {u u' : Upkeep}

/-! ## Numbers -/

/-- The numbers of the dials that were sent after so many new starts, in order. -/
def sentIn (u : Upkeep) (epoch : Nat) : List Nat :=
  (u.sent.filter (·.epoch = epoch)).map (·.seq)

/-- The number used last, while the dialer goes on. -/
def used? (u : Upkeep) : Option Nat :=
  match u.stage with
  | .resting | .pausing | .dialing | .stitching _ | .linked _ => some u.memory.seq.toNat
  | .greeting _ => some u.memory.attemptSeq.toNat
  | .dying | .parting | .stopped | .crashed => none

/-- The numbers of the dials run from one on after each new start. -/
structure Counted (u : Upkeep) : Prop where
  whole : ∀ i, u.sentIn i = List.range' 1 (u.sentIn i).length
  used : ∀ n, u.used? = some n → (u.sentIn u.epoch).length = n
  epochs : ∀ x ∈ u.sent, x.epoch ≤ u.epoch
  ordered : u.sent.Pairwise Number.Before
  /-- A build that checks its sums takes no number that is not the next one. -/
  checked : u.stage = .dialing → u.checks = true → u.memory.seq.toNat + 1 < UInt64.size
  rises : ∀ link, u.stage = .greeting link →
    u.memory.attemptSeq.toNat = u.memory.seq.toNat + 1

theorem counted_start (config : Config) (checks : Bool) (side : Link.Side) (id : Id) :
    (start config checks side id).Counted where
  whole _ := rfl
  used n used := by
    cases used
    rfl
  epochs := nofun
  ordered := .nil
  checked _ _ := by
    change 0 + 1 < UInt64.size
    decide
  rises := nofun

/-- No dial is sent, and the numbers go on from where they were. -/
theorem Counted.keeps (h : u.Counted) {wired : Wired} {memory : Redial} {stage : Stage}
    (used : used? { u with wired, memory, stage } = u.used? ∨
      used? { u with wired, memory, stage } = none)
    (checked : stage = .dialing → u.checks = true → memory.seq.toNat + 1 < UInt64.size)
    (rises : ∀ link, stage = .greeting link → memory.attemptSeq.toNat = memory.seq.toNat + 1) :
    Counted { u with wired, memory, stage } where
  whole := h.whole
  used n known := by
    rcases used with same | none
    · exact h.used n (same.symm.trans known)
    · cases none.symm.trans known
  epochs := h.epochs
  ordered := h.ordered
  checked := checked
  rises := rises

/-- The numbers are started over. -/
theorem Counted.restart (h : u.Counted) {failures : Option UInt32} :
    Counted { u with
      memory := { u.memory with seq := 0, failures }
      epoch := u.epoch + 1
      stage := .resting } where
  whole := h.whole
  used n known := by
    cases known
    have new : u.sent.filter (fun x => x.epoch = u.epoch + 1) = [] :=
      List.filter_eq_nil_iff.mpr fun x mem => by
        have := h.epochs x mem
        rw [decide_eq_true_eq]
        omega
    simp only [sentIn, new, List.map_nil, List.length_nil, UInt64.toNat_zero]
  epochs x mem := Nat.le_succ_of_le (h.epochs x mem)
  ordered := h.ordered
  checked := nofun
  rises := nofun

theorem Counted.before (h : u.Counted) {x : Number} (mem : x ∈ u.sent) {n : Nat}
    (used : (u.sentIn u.epoch).length = n) : x.Before ⟨u.epoch, n + 1⟩ := by
  rcases Nat.lt_or_eq_of_le (h.epochs x mem) with lt | same
  · exact .inl lt
  · have known : x.seq ∈ u.sentIn u.epoch :=
      List.mem_map.mpr ⟨x, List.mem_filter.mpr ⟨mem, decide_eq_true same⟩, rfl⟩
    rw [h.whole, List.mem_range'_1, used] at known
    exact .inr ⟨same, by show x.seq < n + 1; omega⟩

theorem length_sentIn_le (u : Upkeep) (epoch : Nat) : (u.sentIn epoch).length ≤ u.sent.length := by
  rw [sentIn, List.length_map]
  exact List.length_filter_le _ _

/-- The number of an attempt is the one after the number used last. -/
theorem Counted.attemptSeq_eq (h : u.Counted) (dialing : u.stage = .dialing)
    (whole : u.checks = true ∨ u.sent.length + 1 < UInt64.size) :
    u.memory.attemptSeq.toNat = u.memory.seq.toNat + 1 := by
  refine Redial.toNat_attemptSeq ?_
  rcases whole with checks | few
  · exact h.checked dialing checks
  · have used := h.used _ (by rw [used?, dialing])
    have := u.length_sentIn_le u.epoch
    omega

/-- A dial is sent under the next number. -/
theorem Counted.dial (h : u.Counted) (dialing : u.stage = .dialing)
    (next : u.memory.attemptSeq.toNat = u.memory.seq.toNat + 1) (link : Link.End) :
    Counted { u with
      stage := .greeting link
      sent := u.sent ++ [⟨u.epoch, u.memory.attemptSeq.toNat⟩] } := by
  have used : (u.sentIn u.epoch).length = u.memory.seq.toNat :=
    h.used _ (by rw [used?, dialing])
  have sent (i : Nat) : sentIn { u with
      stage := .greeting link
      sent := u.sent ++ [⟨u.epoch, u.memory.attemptSeq.toNat⟩] } i =
        if i = u.epoch then u.sentIn i ++ [u.memory.attemptSeq.toNat] else u.sentIn i := by
    simp only [sentIn, List.filter_append, List.map_append]
    by_cases own : i = u.epoch
    · simp [own]
    · simp [own, Ne.symm own]
  refine ⟨fun i => ?_, fun n known => ?_, fun x mem => ?_, ?_, nofun, fun _ _ => next⟩
  · rw [sent]
    split
    · next own =>
      subst own
      have whole := h.whole u.epoch
      rw [used] at whole
      rw [List.length_append, used, whole, List.length_singleton, List.range'_1_concat,
        Nat.add_comm 1, next]
    · exact h.whole i
  · cases known
    refine (congrArg List.length (sent u.epoch)).trans ?_
    rw [if_pos rfl, List.length_append, used, List.length_singleton]
    exact next.symm
  · rcases List.mem_append.mp mem with old | new
    · exact h.epochs x old
    · cases List.mem_singleton.mp new
      exact Nat.le_refl _
  · refine List.pairwise_append.mpr ⟨h.ordered, List.pairwise_singleton _ _, fun x old y new => ?_⟩
    cases List.mem_singleton.mp new
    exact next ▸ h.before old used

theorem Counted.did (h : u.Counted) (whole : u'.Whole) (did : u.Did u') : u'.Counted := by
  have used {stage : Stage} (stands : u.stage = stage) : u.used? = used? { u with stage } := by
    unfold used?
    rw [stands]
  cases did with
  | rests => exact h
  | elsewhere => exact h.keeps (.inl rfl) h.checked h.rises
  | pauses resting => exact h.keeps (.inl (used resting).symm) nofun nofun
  | resumes pausing fits => exact h.keeps (.inl (used pausing).symm) (fun _ => fits) nofun
  | dials link dialing =>
    refine h.dial dialing (h.attemptSeq_eq dialing ?_) link
    simpa only [Whole, List.length_append, List.length_singleton] using whole
  | misses failures dialing =>
    refine h.keeps (.inl ?_) nofun nofun
    rw [used dialing]
    simp only [used?]
  | fails failures greeting => exact h.keeps (.inl (used greeting).symm) nofun nofun
  | restarts => exact h.restart
  | attaches link pipe greeting => exact h.keeps (.inl (used greeting).symm) nofun nofun
  | stitches stitching =>
    split
    · exact h.keeps (.inr rfl) nofun nofun
    · exact h.keeps (.inl (used stitching).symm) nofun nofun
  | loses linked => exact h.keeps (.inl (used linked).symm) nofun nofun
  | refuses | givesUp | halts | raises | parts => exact h.keeps (.inr rfl) nofun nofun

theorem Counted.step (h : u.Counted) (event : Event) (whole : (u.step event).Whole) :
    (u.step event).Counted := by
  obtain ⟨-, same⟩ | ⟨-, did⟩ := u.step_cases event
  · rw [same]
    exact h.keeps (.inr rfl) nofun nofun
  · exact h.did whole did

/-- Of a dialer that was admitted: it does not start its numbers over, and its next dial bears the
next number. -/
theorem Counted.admitted_step (h : u.Counted) (admitted : u.memory.admitted = true) (event : Event)
    (whole : (u.step event).Whole) :
    (u.step event).memory.admitted = true ∧ (u.step event).epoch = u.epoch ∧
      ((u.step event).sent = u.sent ∨
        (u.step event).sent = u.sent ++ [⟨u.epoch, (u.sentIn u.epoch).length + 1⟩]) := by
  obtain ⟨-, same⟩ | ⟨-, did⟩ := u.step_cases event
  · rw [same]
    exact ⟨admitted, rfl, .inl rfl⟩
  revert whole
  generalize u.step event = u' at did ⊢
  intro whole
  cases did with
  | dials link dialing =>
    have used := h.used u.memory.seq.toNat (by rw [used?, dialing])
    rw [used, ← h.attemptSeq_eq dialing (by
      simpa only [Whole, List.length_append, List.length_singleton] using whole)]
    exact ⟨admitted, rfl, .inr rfl⟩
  | restarts failures greeting never => cases admitted.symm.trans never
  | attaches | refuses => exact ⟨rfl, rfl, .inl rfl⟩
  | _ => exact ⟨admitted, rfl, .inl rfl⟩

theorem length_sentIn {ns : List Nat}
    (sent : u'.sent = u.sent ++ ns.map (Number.mk u.epoch)) :
    (u'.sentIn u.epoch).length = (u.sentIn u.epoch).length + ns.length := by
  have own : (ns.map (Number.mk u.epoch)).filter (·.epoch = u.epoch) =
      ns.map (Number.mk u.epoch) :=
    List.filter_eq_self.mpr fun x mem => by
      obtain ⟨n, -, rfl⟩ := List.mem_map.mp mem
      exact decide_eq_true rfl
  rw [sentIn, sent, List.filter_append, own]
  simp [sentIn]

/-- A dialer that was admitted has sent one number after the other since. -/
structure Continues (before u : Upkeep) : Prop where
  counted : u.Counted
  admitted : u.memory.admitted = true
  epoch : u.epoch = before.epoch
  sent : ∃ n, u.sent = before.sent ++
    (List.range' ((before.sentIn before.epoch).length + 1) n).map (Number.mk before.epoch)

theorem Continues.step {before : Upkeep} (h : before.Continues u) (event : Event)
    (whole : (u.step event).Whole) : before.Continues (u.step event) := by
  obtain ⟨n, sent⟩ := h.sent
  obtain ⟨still, same, none | one⟩ := h.counted.admitted_step h.admitted event whole
  · exact ⟨h.counted.step event whole, still, same.trans h.epoch, n, none.trans sent⟩
  · refine ⟨h.counted.step event whole, still, same.trans h.epoch, n + 1, ?_⟩
    have length := length_sentIn sent
    rw [List.length_range'] at length
    rw [one, h.epoch, length, sent, List.range'_1_concat, List.map_append, List.append_assoc]
    simp only [List.map_cons, List.map_nil, Nat.add_right_comm _ n 1]

theorem Counted.continues_run (h : u.Counted) (admitted : u.memory.admitted = true)
    (later : List Event) (whole : (u.run later).Whole) : u.Continues (u.run later) :=
  run_induction_of_whole ⟨h, admitted, rfl, 0, by simp⟩ (fun _ event held => held.step event)
    later whole

/-! ## Links -/

/-- What is known of the chain. -/
structure Bound (u : Upkeep) : Prop where
  flows : ∃ blocks, u.wired.Flows blocks
  /-- The numbers of all links were used by the dialer. -/
  used : ∀ k n, u.chain.seq? k = some n → n ≤ u.memory.seq.toNat
  empty : u.memory.admitted = false → u.chain.links.size = 0
  waits : ∀ k, u.stage = .stitching k → u.chain.killed = false →
    u.chain.stage k = .stitching ∧ u.chain.retired k = false
  named : u.chain.killed = true → ∃ e, u.chain.terminal = some e
  dying : u.stage = .dying → ∃ e, u.chain.terminal = some e
  dead : u.stage = .parting ∨ u.stage = .stopped → u.chain.killed = true

theorem bound_start (config : Config) (checks : Bool) (side : Link.Side) (id : Id) :
    (start config checks side id).Bound where
  flows := ⟨[], Wired.flows_start side id config.eventQueue⟩
  used k n known := by simp [start, chain, Wired.start, Endpoint.new, Endpoint.seq?] at known
  empty _ := rfl
  waits _ stitching := nomatch stitching
  named dead := nomatch dead
  dying dying := nomatch dying
  dead ended := by rcases ended with ended | ended <;> cases ended

/-- Whether the dialer has something to do at its chain, or is done with it. -/
def Stage.isAtChain : Stage → Bool
  | stitching _ | dying | parting | stopped => true
  | _ => false

/-- The dialer goes on or crashes, and leaves its chain as it is. -/
theorem Bound.turn (h : u.Bound) {memory : Redial} {stage : Stage} (epoch : Nat)
    (sent : List Number)
    (kept : u.chain.links.size = 0 ∨ u.memory.seq.toNat ≤ memory.seq.toNat)
    (early : memory.admitted = false → u.memory.admitted = false)
    (going : stage.isAtChain = false ∨ stage = .stopped ∧ u.chain.killed = true) :
    Bound { u with memory, epoch, stage, sent } where
  flows := h.flows
  used k n known := by
    rcases kept with none | le
    · exact absurd (Endpoint.lt_size_of_seq? known) (none ▸ Nat.not_lt_zero k)
    · exact Nat.le_trans (h.used k n known) le
  empty never := h.empty (early never)
  waits k stitching := by
    cases stitching
    obtain away | ⟨stopped, -⟩ := going
    · cases away
    · cases stopped
  named := h.named
  dying dying := by
    cases dying
    obtain away | ⟨stopped, -⟩ := going
    · cases away
    · cases stopped
  dead ended := by
    obtain away | ⟨-, dead⟩ := going
    · rcases ended with ended | ended <;> cases ended <;> cases away
    · exact dead

/-- Something happens at the chain that attaches no link. -/
theorem Bound.acts (h : u.Bound) {act : Wired.Act} {stage : Stage}
    (other : ∀ seq link pipe, act ≠ .attach seq link pipe)
    (raising : act = .raise → ∃ e, u.chain.terminal = some e)
    (waits : ∀ k, stage = .stitching k → (u.wired.step act).chain.killed = false →
      (u.wired.step act).chain.stage k = .stitching ∧
        (u.wired.step act).chain.retired k = false)
    (dying : stage = .dying → ∃ e, (u.wired.step act).chain.terminal = some e)
    (dead : stage = .parting ∨ stage = .stopped → (u.wired.step act).chain.killed = true) :
    Bound { u with wired := u.wired.step act, stage } where
  flows := Wired.flows_step u.wired act h.flows
  used k n known := h.used k n (((Wired.moves_step u.wired other).seq k).symm.trans known)
  empty never := (Wired.moves_step u.wired other).size.trans (h.empty never)
  waits := waits
  named := Wired.named_step h.named raising
  dying := dying
  dead := dead

theorem Bound.elsewhere (h : u.Bound) {act : Wired.Act} (allowed : u.wired.allows act = true) :
    Bound { u with wired := u.wired.step act } := by
  have other : ∀ seq link pipe, act ≠ .attach seq link pipe := by
    rintro seq link pipe rfl
    cases allowed
  have moved := Wired.moves_step u.wired other
  have raising : act = .raise → ∃ e, u.chain.terminal = some e := by
    rintro rfl
    exact Option.isSome_iff_exists.mp allowed
  refine h.acts other raising (fun k stitching alive => ?_) (fun dying => ?_)
    fun ended => moved.killed (h.dead ended)
  · obtain ⟨blocks, flows⟩ := h.flows
    obtain ⟨waits, whole⟩ := h.waits k stitching (moved.alive alive)
    have same := flows.links_step allowed waits alive
    unfold Endpoint.stage Endpoint.retired
    rw [same]
    exact ⟨waits, whole⟩
  · obtain ⟨e, named⟩ := h.dying dying
    exact ⟨e, Wired.terminal_step named act⟩

/-- An admitted link is attached under the number of its attempt. -/
theorem Bound.attach (h : u.Bound) {link : Link.End} {pipe : Link.Pipe} {k : LinkId}
    (next : u.memory.attemptSeq.toNat = u.memory.seq.toNat + 1)
    (attached : (u.chain.attach u.memory.attemptSeq.toNat link).2 = some k) :
    Bound { u with
      wired := u.wired.step (.attach u.memory.attemptSeq.toNat link pipe)
      memory := ⟨u.memory.attemptSeq, true, some 0⟩
      stage := .stitching k } := by
  obtain ⟨blocks, flows⟩ := h.flows
  obtain ⟨refused, -⟩ | ⟨alive, lower, before, faded, gone, taken⟩ :=
    flows.ranked.attach_cases u.memory.attemptSeq.toNat link
  · rw [chain, refused] at attached
    cases attached
  have same : (u.wired.step (.attach u.memory.attemptSeq.toNat link pipe)).chain =
      (before.withLink u.memory.attemptSeq.toNat link).announce := by
    simp only [Wired.step, Wired.attach, taken]
  obtain rfl : k = before.links.size := by
    rw [chain, taken] at attached
    exact (Option.some.inj attached).symm.trans faded.size.symm
  refine ⟨Wired.flows_step u.wired (.attach _ link pipe) h.flows, fun i n known => ?_,
    fun fresh => ?_, fun i stitching _ => ?_, Wired.named_step h.named fun raises => ?_,
    fun dying => ?_, fun ended => ?_⟩
  · change Endpoint.seq? (Wired.chain _) i = some n at known
    rw [same] at known
    replace known := (Endpoint.seq?_withLink before _ link i).symm.trans known
    split at known
    · exact Nat.le_of_eq (Option.some.inj known).symm
    · exact next ▸ Nat.le_succ_of_le (h.used i n ((faded.seq i).symm.trans known))
  · cases fresh
  · cases stitching
    change Endpoint.stage (Wired.chain _) _ = _ ∧ Endpoint.retired (Wired.chain _) _ = _
    rw [same]
    exact ⟨(Endpoint.stage_withLink before _ link _).trans (if_pos rfl),
      (Endpoint.retired_withLink before _ link _).trans (if_pos rfl)⟩
  · cases raises
  · cases dying
  · rcases ended with ended | ended <;> cases ended

/-- While the chain lives, the stitch of the link is queued. -/
theorem Bound.linked (h : u.Bound) {k : LinkId} {chain : Endpoint} (stitching : u.stage = .stitching k)
    (stitched : u.chain.stitch? k = some chain) (alive : u.chain.killed = false) :
    chain.stage k = .receiving := by
  have whole : u.chain.abandoned k = false := by
    rw [Endpoint.abandoned, alive, (h.waits k stitching alive).2]
    rfl
  exact Endpoint.stage_of_stitch? stitched whole

/-- No link of the chain has the number of the next attempt, or a higher one. -/
theorem Bound.attach_eq_none_iff (h : u.Bound)
    (next : u.memory.attemptSeq.toNat = u.memory.seq.toNat + 1) (link : Link.End) :
    (u.chain.attach u.memory.attemptSeq.toNat link).2 = none ↔ u.chain.killed = true := by
  obtain ⟨blocks, flows⟩ := h.flows
  obtain ⟨refused, dead | ⟨k, n, -, known, le⟩⟩ | ⟨alive, -, before, -, -, taken⟩ :=
    flows.ranked.attach_cases u.memory.attemptSeq.toNat link
  · exact iff_of_true (congrArg Prod.snd refused) dead
  · exact absurd (h.used k n known) (by omega)
  · refine iff_of_false ?_ ?_
    · rw [chain, taken]
      nofun
    · rw [chain, alive]
      nofun

theorem Bound.did (h : u.Bound)
    (rises : ∀ link, u.stage = .greeting link →
      u.memory.attemptSeq.toNat = u.memory.seq.toNat + 1) (did : u.Did u') : u'.Bound := by
  cases did with
  | rests => exact h
  | elsewhere act allowed => exact h.elsewhere allowed
  | pauses | resumes | dials | misses | loses =>
    exact h.turn _ _ (.inr (Nat.le_refl _)) id (.inl rfl)
  | fails failures greeting =>
    exact h.turn _ _ (.inr (rises _ greeting ▸ Nat.le_succ _)) id (.inl rfl)
  | restarts failures greeting never => exact h.turn _ _ (.inl (h.empty never)) id (.inl rfl)
  | attaches link pipe greeting attached => exact h.attach (rises _ greeting) attached
  | refuses link greeting refused =>
    have next := rises _ greeting
    have dead := (h.attach_eq_none_iff next link).mp refused
    exact h.turn _ _ (.inr (next ▸ Nat.le_succ _)) nofun (.inr ⟨rfl, dead⟩)
  | givesUp e =>
    refine h.acts nofun nofun nofun (fun _ => ⟨_, Endpoint.nameReason_terminal _ _⟩) fun ended => ?_
    rcases ended with ended | ended <;> cases ended
  | @stitches k chain stitching stitched =>
    have moved : u.chain.Moves (u.wired.step (.stitch k)).chain :=
      Wired.moves_step u.wired nofun
    refine h.acts nofun nofun (fun i stage => ?_) (fun stage => ?_) fun ended => ?_
    · split at stage <;> cases stage
    · split at stage <;> cases stage
    · refine moved.killed ?_
      cases dead : u.chain.killed with
      | true => rfl
      | false =>
        rw [h.linked stitching stitched dead] at ended
        rcases ended with ended | ended <;> cases ended
  | halts going dead => exact h.turn _ _ (.inr (Nat.le_refl _)) id (.inr ⟨rfl, dead⟩)
  | raises dying => exact h.acts nofun (fun _ => h.dying dying) nofun nofun fun _ => rfl
  | parts parting =>
    have moved : u.chain.Moves (u.wired.step .retireCurrent).chain :=
      Wired.moves_step u.wired nofun
    exact h.acts nofun nofun nofun nofun fun _ => moved.killed (h.dead (.inl parting))

/-- What holds of a dialer and its chain while no number came round to zero. -/
structure Lawful (u : Upkeep) : Prop where
  counted : u.Counted
  bound : u.Bound

theorem Lawful.step (h : u.Lawful) (event : Event) (whole : (u.step event).Whole) :
    (u.step event).Lawful := by
  refine ⟨h.counted.step event whole, ?_⟩
  obtain ⟨-, same⟩ | ⟨-, did⟩ := u.step_cases event
  · rw [same]
    exact h.bound.turn _ _ (.inr (Nat.le_refl _)) id (.inl rfl)
  · exact h.bound.did h.counted.rises did

theorem lawful_run (config : Config) (checks : Bool) (side : Link.Side) (id : Id)
    (events : List Event) (whole : ((start config checks side id).run events).Whole) :
    ((start config checks side id).run events).Lawful :=
  run_induction_of_whole ⟨counted_start config checks side id, bound_start config checks side id⟩
    (fun _ event held => held.step event) events whole

/-! ## The law -/

/-- A dialer does not crash whose longest pause is a span, in a build that does not check its sums. -/
theorem stage_run_ne_crashed {config : Config} {side : Link.Side} {id : Id} (events : List Event)
    (short : config.redialJitter.nanos = 0 ∨
      config.redialDelay.nanos + config.jitterMillis * 1000000 < Duration.bound) :
    ((start config false side id).run events).stage ≠ .crashed := by
  have settings : ∀ events, ((start config false side id).run events).config = config ∧
      ((start config false side id).run events).checks = false := fun events =>
    run_induction (P := fun u => u.config = config ∧ u.checks = false) ⟨rfl, rfl⟩
      (fun u event held => by
        obtain ⟨same, checks, -⟩ := u.step_kept event
        exact ⟨same.trans held.1, checks.trans held.2⟩) events
  intro crashed
  obtain ⟨before, event, -, -, overflow⟩ := (stage_run_eq_crashed_iff (by simp [start]) events).mp crashed
  obtain ⟨same, checks⟩ := settings before
  cases event with
  | pause draw =>
    obtain ⟨-, -, jitter, long⟩ := overflow
    rw [same] at jitter long
    have most : draw % (config.jitterMillis + 1) ≤ config.jitterMillis :=
      Nat.le_of_lt_succ (Nat.mod_lt draw (Nat.succ_pos _))
    omega
  | resume => cases checks.symm.trans overflow.2.1
  | miss | answer => cases checks.symm.trans overflow.2.2.1
  | fail => cases checks.symm.trans overflow.2.1
  | _ => exact overflow

/-- A dialer whose pause is a span makes its next attempt. -/
theorem run_redial {draw : Nat} (resting : u.stage = .resting)
    (short : ¬ u.Overflows (.pause draw)) (fits : u.memory.attemptSeq ≠ 0) (link : Link.End) :
    u.run [.pause draw, .resume, .dial link] = { u with
      stage := .greeting link
      sent := u.sent ++ [⟨u.epoch, u.memory.attemptSeq.toNat⟩] } := by
  have paused : u.step (.pause draw) = { u with stage := .pausing } := by
    rw [Overflows, ← Config.redialPause?_eq_none_iff] at short
    obtain ⟨span, known⟩ := Option.ne_none_iff_exists'.mp fun none => short ⟨resting, none⟩
    simp only [step, pause, resting, known]
  change ((u.step (.pause draw)).step .resume).step (.dial link) = _
  rw [paused]
  simp only [step, resume, fits, and_false, if_false, dial]

/-- What becomes of a dialer. It crashes exactly where a sum of it does not fit, and leaves its chain
as it is then, dead or alive: a valid delay may be so long that what chance adds to it leaves no span.
Where no pause is that long and the build does not check its sums, it never crashes.

As long as the numbers have not come round to zero, it stops only once its chain is dead, and then
the chain has a reason. An admitted link is refused, or given up before its stitch is queued, by a
dead chain alone: no link of the chain has a number as high as that of the attempt.

After each new start, the dials bear the numbers from one on, each of them once; an attempt that made
no link has none. From the first admission on, there is no new start, whatever happens: the dials that
follow bear the numbers that follow. Before it, the chain has no link; an answer that it is closed
leaves it as it is, and the next dial bears the number one. -/
theorem dialer_stops_only_with_chain (config : Config) (checks : Bool) (side : Link.Side) (id : Id)
    (events : List Event) :
    let u := (start config checks side id).run events
    (u.stage = .crashed ↔ ∃ before event after, events = before ++ event :: after ∧
      ((start config checks side id).run before).Overflows event) ∧
    (∀ event, u.Overflows event → u.step event = { u with stage := .crashed }) ∧
    (checks = false → (config.redialJitter.nanos = 0 ∨
      config.redialDelay.nanos + config.jitterMillis * 1000000 < Duration.bound) →
        u.stage ≠ .crashed) ∧
    (u.Whole →
      (u.stage = .stopped → u.chain.killed = true ∧ ∃ e, u.chain.terminal = some e) ∧
      (∀ link, u.stage = .greeting link →
        (∀ k n, u.chain.current = some k → u.chain.seq? k = some n →
          n < u.memory.attemptSeq.toNat) ∧
        ∀ link, (u.chain.attach u.memory.attemptSeq.toNat link).2 = none ↔
          u.chain.killed = true) ∧
      (∀ k chain, u.stage = .stitching k → u.chain.stitch? k = some chain →
        chain.stage k = .refused → u.chain.killed = true) ∧
      (∀ i, ∃ n, u.sentIn i = List.range' 1 n) ∧ u.sent.Pairwise Number.Before ∧
      (u.memory.admitted = true → ∀ later, (u.run later).Whole → ∃ n, (u.run later).sent =
        u.sent ++ (List.range' ((u.sentIn u.epoch).length + 1) n).map (Number.mk u.epoch)) ∧
      (u.memory.admitted = false → u.chain.links.size = 0 ∧
        ∀ link message pipe, u.stage = .greeting link →
          Attempt.ofAnswer link message = .fatal (.rejected .closedChain) →
          ¬ u.Overflows (.answer message pipe) →
          let u' := u.step (.answer message pipe)
          u'.wired = u.wired ∧ ∀ draw next, ¬ u'.Overflows (.pause draw) →
            (u'.run [.pause draw, .resume, .dial next]).sent =
              u.sent ++ [⟨u.epoch + 1, 1⟩])) := by
  intro u
  refine ⟨stage_run_eq_crashed_iff (by simp [start]) events, fun event overflow => ?_, ?_, fun whole => ?_⟩
  · obtain ⟨-, same⟩ | ⟨fits, -⟩ := u.step_cases event
    · exact same
    · exact absurd overflow fits
  · rintro rfl
    exact stage_run_ne_crashed events
  obtain ⟨counted, bound⟩ : u.Lawful := lawful_run config checks side id events whole
  refine ⟨fun stopped => ?_, fun link greeting => ?_, fun k chain stitching stitched refused => ?_,
    fun i => ⟨_, counted.whole i⟩, counted.ordered,
    fun admitted later whole => (counted.continues_run admitted later whole).sent,
    fun never => ⟨bound.empty never, fun link message pipe greeting closed fits => ?_⟩⟩
  · have dead := bound.dead (.inr stopped)
    exact ⟨dead, bound.named dead⟩
  · have next := counted.rises link greeting
    exact ⟨fun k n _ known => next ▸ Nat.lt_succ_of_le (bound.used k n known),
      bound.attach_eq_none_iff next⟩
  · cases alive : u.chain.killed with
    | true => rfl
    | false => cases refused.symm.trans (bound.linked stitching stitched alive)
  · have few : ¬ u.FailsTooOften := fun often => fits ⟨⟨link, greeting, closed⟩, never, often⟩
    have restarted : u.step (.answer message pipe) = { u with
        memory := { u.memory with seq := 0, failures := some u.memory.moreFailures }
        epoch := u.epoch + 1
        stage := .resting } := by
      simp only [step, answer, greeting, closed]
      exact ((conclude_retry (conclude_closedChain never) pipe).resolve_left (few ·.1)).2
    have first : (0 : UInt64) + 1 ≠ 0 := by decide
    rw [restarted]
    exact ⟨rfl, fun draw next short => congrArg sent (run_redial rfl short first next)⟩

/-- Settings whose delay is the longest span there is. -/
def patient : Config :=
  { redialDelay := .longest }

/-- A valid delay ends a dialer whose first dial finds no one, and leaves its chain alive. -/
theorem dialer_stops_only_with_chain_longest_delay :
    let events : List Event := [.miss (.io "refused"), .pause 1]
    let u := (start patient false .near ⟨1⟩).run events
    patient.invalid? = none ∧ u.stage = .crashed ∧ u.chain.killed = false := by
  intro events u
  have law := dialer_stops_only_with_chain patient false .near ⟨1⟩ events
  have crashed : u.stage = .crashed := by
    refine law.1.mpr ⟨[.miss (.io "refused")], .pause 1, [], rfl, rfl, ?_, ?_, ?_⟩ <;> decide
  exact ⟨by decide, crashed, rfl⟩

/-- A dialer that is told that its chain is closed starts over, and keeps the link it is given. -/
example :
    let u := (start {} true .near ⟨1⟩).run
      [.dial ⟨0, .near⟩, .answer Welcome.closedChain.encode {}, .pause 3, .resume,
        .dial ⟨1, .near⟩, .answer Welcome.ok.encode {}, .stitch]
    u.sent = [⟨0, 1⟩, ⟨1, 1⟩] ∧ u.stage = .linked 0 := by
  decide +kernel

end Upkeep

end Tether.Chain
