import Tether.Proofs.Chain.Blocks
import Tether.Proofs.Chain.Ranks
import Tether.Proofs.Chain.Wired
import Tether.Proofs.Link.Pipe

/-!
# What the reader of a chain gets

All that was ever queued for the reader of a chain is a row of blocks, one for each link whose
stitch was queued, in the order of attachment. Only the newest link can add to it: a link that was
replaced was retired as that happened, and neither its stitch nor a chunk of it is queued any more.
So a chunk goes behind the chunks of its own link, and the reader passes over nothing. The chunks in
the block of a link, the one that the link holds, and those that wait in its pipe are all that the
peer has sent.
-/

namespace Tether.Chain

open Link (Side)

/-- Whether the stitch of a link was queued. -/
def Stage.stitched : Stage → Bool
  | .receiving | .delivering _ | .ended => true
  | .stitching | .refused => false

/-- Of what the peer has sent over a link, what was queued for the reader comes first, and while the
link is in use nothing is lost. -/
def Stage.Accounts (stage : Stage) (passed waiting sent : List Bytes) : Prop :=
  match stage with
  | .stitching | .receiving => passed ++ waiting = sent
  | .delivering chunk => passed ++ chunk :: waiting = sent
  | .refused | .ended => passed <+: sent

theorem Stage.Accounts.passed_front {stage : Stage} {passed waiting sent : List Bytes}
    (h : stage.Accounts passed waiting sent) : passed <+: sent := by
  cases stage with
  | refused | ended => exact h
  | stitching | receiving | delivering => exact ⟨_, h⟩

/-- The peer sends one more chunk. -/
theorem Stage.Accounts.concat {stage : Stage} {passed waiting sent : List Bytes}
    (h : stage.Accounts passed waiting sent) (chunk : Bytes) :
    stage.Accounts passed (waiting ++ [chunk]) (sent ++ [chunk]) := by
  cases stage with
  | refused | ended => exact h.trans (List.prefix_append _ _)
  | stitching | receiving | delivering =>
    subst h
    simp [Stage.Accounts]

namespace Block

/-- The chunks of a link in a row of blocks. -/
def passed (blocks : List Block) (k : Nat) : List Bytes :=
  (blocks.filter (·.link = k)).flatMap (·.chunks)

theorem passed_concat (blocks : List Block) (b : Block) (k : Nat) :
    passed (blocks ++ [b]) k = passed blocks k ++ if b.link = k then b.chunks else [] := by
  unfold passed
  rw [List.filter_append, List.flatMap_append]
  by_cases own : b.link = k <;> simp [own]

theorem passed_eq_nil {blocks : List Block} {k : Nat} (new : ∀ b ∈ blocks, b.link ≠ k) :
    passed blocks k = [] := by
  unfold passed
  rw [List.filter_eq_nil_iff.mpr fun b mem => by simpa using new b mem, List.flatMap_nil]

theorem passed_eq {blocks : List Block} (rising : (blocks.map link).Pairwise (· < ·)) {b : Block}
    (mem : b ∈ blocks) : passed blocks b.link = b.chunks := by
  induction blocks with
  | nil => cases mem
  | cons first blocks ih =>
    rw [List.map_cons, List.pairwise_cons] at rising
    have later : ∀ b ∈ blocks, first.link < b.link := fun b mem =>
      rising.1 _ (List.mem_map_of_mem mem)
    rcases List.mem_cons.mp mem with rfl | mem
    · have others : passed blocks b.link = [] :=
        passed_eq_nil fun c mem => Nat.ne_of_gt (later c mem)
      unfold passed at others ⊢
      rw [List.filter_cons_of_pos (by simp), List.flatMap_cons, others, List.append_nil]
    · unfold passed at ih ⊢
      rw [List.filter_cons_of_neg (by simpa using Nat.ne_of_lt (later b mem))]
      exact ih rising.2 mem

end Block

namespace Wired

/-- What the reader was given and what waits for it is a row of blocks. -/
structure Flows (w : Wired) (blocks : List Block) : Prop where
  ranked : w.chain.Ranked
  length : w.strands.length = w.chain.links.size
  rising : (blocks.map Block.link).Pairwise (· < ·)
  seqs : ∀ b ∈ blocks, w.chain.seq? b.link = some b.seq
  /-- The blocks are those of the links whose stitch was queued. -/
  known : ∀ k < w.chain.links.size,
    (∃ b ∈ blocks, b.link = k) ↔ (w.chain.stage k).stitched = true
  accounts : ∀ k s, w.strands[k]? = some s →
    (w.chain.stage k).Accounts (Block.passed blocks k) (s.pipe.incoming w.side).queue s.sent
  reads : ∃ read, w.got = read.map Event.delivery ∧
    w.chain.stitched = Event.lastStitch 0 read ∧
    read <+: blocks.flatMap Block.events ∧
    (w.chain.killed = false → read ++ w.chain.events = blocks.flatMap Block.events)

variable {w : Wired} {blocks : List Block} {k : Nat}

theorem flows_start (side : Side) (id : Id) (depth : Nat) : (start side id depth).Flows [] where
  ranked := Endpoint.ranked_new id depth
  length := rfl
  rising := .nil
  seqs := nofun
  known k inside := absurd inside (Nat.not_lt_zero k)
  accounts _ _ known := nomatch known
  reads := ⟨[], rfl, rfl, List.prefix_rfl, fun _ => rfl⟩

namespace Flows

theorem lt_size (h : w.Flows blocks) {b : Block} (mem : b ∈ blocks) :
    b.link < w.chain.links.size :=
  Endpoint.lt_size_of_seq? (h.seqs b mem)

/-- One link comes to another stage of the same kind, or something happens on its pipe. -/
theorem turn (h : w.Flows blocks) {chain : Endpoint} (moved : w.chain.Moves chain) {stage : Stage}
    (stages : ∀ i < w.chain.links.size, chain.stage i =
      if k = i then stage else w.chain.stage i)
    (kind : k < w.chain.links.size → stage.stitched = (w.chain.stage k).stitched)
    (stitched : chain.stitched = w.chain.stitched)
    (events : chain.killed = false → chain.events = w.chain.events) (f : Strand → Strand)
    (accounts : ∀ s, w.strands[k]? = some s →
      stage.Accounts (Block.passed blocks k) ((f s).pipe.incoming w.side).queue (f s).sent) :
    ({ w with chain }.modifyStrand k f).Flows blocks where
  ranked := h.ranked.moves moved
  length := by
    rw [modifyStrand, List.length_modify, moved.size]
    exact h.length
  rising := h.rising
  seqs b mem := (moved.seq _).trans (h.seqs b mem)
  known i inside := by
    have inside : i < w.chain.links.size := moved.size ▸ inside
    change _ ↔ (chain.stage i).stitched = true
    rw [h.known i inside, stages i inside]
    split
    · next same =>
      subst same
      rw [kind inside]
    · rfl
  accounts i s known := by
    simp only [modifyStrand, List.getElem?_modify] at known
    obtain ⟨old, found, same⟩ := Option.map_eq_some_iff.mp known
    have inside : i < w.chain.links.size :=
      h.length ▸ (List.getElem?_eq_some_iff.mp found).1
    change (chain.stage i).Accounts _ _ _
    rw [stages i inside]
    by_cases own : k = i
    · rw [if_pos own] at same ⊢
      subst own same
      exact accounts old found
    · rw [if_neg own] at same ⊢
      subst same
      exact h.accounts i old found
  reads := by
    obtain ⟨read, got, last, part, all⟩ := h.reads
    refine ⟨read, got, stitched.trans last, part, fun alive => ?_⟩
    exact (events alive).symm ▸ all (moved.alive alive)

/-- Something happens on the pipe of a link. -/
theorem strand (h : w.Flows blocks) (k : Nat) (f : Strand → Strand)
    (accounts : ∀ s, w.strands[k]? = some s →
      (w.chain.stage k).Accounts (Block.passed blocks k) ((f s).pipe.incoming w.side).queue
        (f s).sent) :
    (w.modifyStrand k f).Flows blocks := by
  refine h.turn (.refl w.chain) (fun i _ => ?_) (fun _ => rfl) rfl (fun _ => rfl) f accounts
  split
  · next same => rw [same]
  · rfl

/-- What leaves the queue towards the chain alone. -/
theorem pipe (h : w.Flows blocks) (k : Nat) (f : Link.Pipe → Link.Pipe)
    (same : ∀ p : Link.Pipe, ((f p).incoming w.side).queue = (p.incoming w.side).queue) :
    (w.modifyPipe k f).Flows blocks :=
  h.strand k _ fun s known => by
    rw [same]
    exact h.accounts k s known

theorem fades (h : w.Flows blocks) {chain : Endpoint} (faded : w.chain.Fades chain) :
    { w with chain }.Flows blocks where
  ranked := h.ranked.moves faded.toMoves
  length := h.length.trans faded.size.symm
  rising := h.rising
  seqs b mem := (faded.seq _).trans (h.seqs b mem)
  known i inside := by
    change _ ↔ (chain.stage i).stitched = true
    rw [faded.stage]
    exact h.known i (faded.size ▸ inside)
  accounts i s known := by
    change (chain.stage i).Accounts _ _ _
    rw [faded.stage]
    exact h.accounts i s known
  reads := by
    obtain ⟨read, got, last, part, all⟩ := h.reads
    refine ⟨read, got, faded.stitched.trans last, part, fun alive => ?_⟩
    exact (faded.events alive).symm ▸ all (faded.alive alive)

/-! ## Links -/

theorem attach (h : w.Flows blocks) (seq : Nat) (link : Link.End) (pipe : Link.Pipe) :
    (w.attach seq link pipe).Flows blocks := by
  unfold Wired.attach
  obtain ⟨refused, -⟩ | ⟨-, lower, before, faded, gone, taken⟩ := h.ranked.attach_cases seq link
  · rw [refused]
    exact h
  · rw [taken]
    have old := h.fades faded
    change Flows { w with
      chain := (before.withLink seq link).announce
      strands := w.strands ++ [⟨pipe, (pipe.incoming w.side).queue⟩] } blocks
    have size : before.links.size = w.chain.links.size := faded.size
    have newSize : (before.withLink seq link).announce.links.size = w.chain.links.size + 1 :=
      (Array.size_push _).trans (by rw [size])
    have ranked : (before.withLink seq link).Ranked :=
      old.ranked.withLink (fun i n known => lower i n (faded.seq i ▸ known)) gone link
    have length := h.length
    refine ⟨ranked.moves (Endpoint.fades_announce _).toMoves, ?_, h.rising, fun b mem => ?_,
      fun i inside => ?_, fun i s known => ?_, old.reads⟩
    · rw [List.length_append, length]
      exact newSize.symm
    · have inside := h.lt_size mem
      refine (Endpoint.seq?_withLink _ _ _ _).trans ?_
      rw [if_neg (by omega)]
      exact old.seqs b mem
    · change _ ↔ ((before.withLink seq link).stage i).stitched = true
      rw [newSize] at inside
      rw [Endpoint.stage_withLink]
      split
      · refine ⟨fun ⟨b, mem, own⟩ => ?_, nofun⟩
        have := h.lt_size mem
        omega
      · exact old.known i (show i < before.links.size by omega)
    · change ((before.withLink seq link).stage i).Accounts _ _ _
      rw [Endpoint.stage_withLink]
      rcases Nat.lt_or_ge i w.strands.length with lt | ge
      · rw [List.getElem?_append_left lt] at known
        rw [if_neg (by omega)]
        exact old.accounts i s known
      · rw [List.getElem?_append_right ge, List.getElem?_singleton] at known
        split at known
        · cases known
          rw [if_pos (by omega), Block.passed_eq_nil]
          · rfl
          · intro b mem
            have := h.lt_size mem
            omega
        · cases known

/-- An event of a link in use is queued, which brings one more event to the blocks. -/
theorem queue (h : w.Flows blocks) {blocks' : List Block} {event : Event}
    (alive : w.chain.killed = false) (inside : k < w.chain.links.size)
    (events : blocks'.flatMap Block.events = blocks.flatMap Block.events ++ [event])
    (rising : (blocks'.map Block.link).Pairwise (· < ·))
    (seqs : ∀ b ∈ blocks', w.chain.seq? b.link = some b.seq)
    (links : ∀ i, (∃ b ∈ blocks', b.link = i) ↔ (∃ b ∈ blocks, b.link = i) ∨ k = i)
    (others : ∀ i, k ≠ i → Block.passed blocks' i = Block.passed blocks i)
    (accounts : ∀ s, w.strands[k]? = some s →
      Block.passed blocks' k ++ (s.pipe.incoming w.side).queue = s.sent) :
    { w with chain := w.chain.queue k event }.Flows blocks' := by
  have moved := Endpoint.moves_queue w.chain k event
  have stage : ∀ i, (w.chain.queue k event).stage i =
      if k = i then .receiving else w.chain.stage i := fun i => by
    rw [Endpoint.stage_queue]
    simp only [inside, and_true]
  refine ⟨h.ranked.moves moved, h.length.trans moved.size.symm, rising,
    fun b mem => (moved.seq _).trans (seqs b mem), fun i lt => ?_, fun i s known => ?_, ?_⟩
  · change _ ↔ ((w.chain.queue k event).stage i).stitched = true
    rw [links, stage]
    split
    · next own => exact iff_of_true (.inr own) rfl
    · next other =>
      rw [or_iff_left other]
      exact h.known i (moved.size ▸ lt)
  · change ((w.chain.queue k event).stage i).Accounts _ _ _
    rw [stage]
    split
    · next own =>
      subst own
      exact accounts s known
    · next other =>
      rw [others i other]
      exact h.accounts i s known
  · obtain ⟨read, got, last, part, all⟩ := h.reads
    refine ⟨read, got, last, ?_, fun _ => ?_⟩
    · rw [events]
      exact part.trans (List.prefix_append _ _)
    · rw [events, ← all alive, List.append_assoc]
      rfl

theorem stitch (h : w.Flows blocks) (k : Nat) : ∃ blocks', (w.stitch k).Flows blocks' := by
  unfold Wired.stitch
  cases stitched : w.chain.stitch? k with
  | none => exact ⟨blocks, h⟩
  | some chain =>
    obtain ⟨inside, waits, rfl | ⟨alive, whole, n, seq, rfl⟩⟩ := Endpoint.stitch?_cases stitched
    · -- the link is given up, and let go with what waits in its pipe
      have last : ((w.chain.retire k).setStage k .refused).stage k = .refused := by
        rw [Endpoint.stage_giveUp, if_pos ⟨rfl, inside⟩]
      have kind : Stage.stitched .refused = (w.chain.stage k).stitched := by rw [waits]; rfl
      simp only [last, if_true]
      refine ⟨blocks, h.turn (Endpoint.moves_giveUp _ _ _) (fun i lt => ?_) (fun _ => kind) rfl
        (fun _ => rfl) _ fun s known => ?_⟩
      · rw [Endpoint.stage_giveUp]
        simp only [inside, and_true]
      · exact (h.accounts k s known).passed_front
    · have going : (w.chain.queue k (.stitch n k)).stage k = .receiving := by
        rw [Endpoint.stage_queue, if_pos ⟨rfl, inside⟩]
      -- all blocks so far are of links before this one
      have last := h.ranked.replaced whole
      have other : ∀ b ∈ blocks, b.link ≠ k := fun b mem own => by
        have stitched := (h.known k inside).mp ⟨b, mem, own⟩
        rw [waits] at stitched
        cases stitched
      have new : Block.passed blocks k = [] := Block.passed_eq_nil other
      simp only [going, reduceCtorEq, if_false]
      refine ⟨blocks ++ [⟨n, k, []⟩], h.queue alive inside ?_ ?_ ?_ ?_ ?_ ?_⟩
      · rw [List.flatMap_append]
        rfl
      · rw [List.map_append, List.pairwise_append]
        refine ⟨h.rising, List.pairwise_singleton _ _, fun i old j new => ?_⟩
        obtain ⟨b, mem, rfl⟩ := List.mem_map.mp old
        cases List.mem_singleton.mp new
        have inside := h.lt_size mem
        have other := other b mem
        show b.link < k
        omega
      · intro b mem
        rcases List.mem_append.mp mem with old | new
        · exact h.seqs b old
        · cases List.mem_singleton.mp new
          exact seq
      · intro i
        simp [or_and_right, exists_or]
      · intro i other
        rw [Block.passed_concat, if_neg other, List.append_nil]
      · intro s known
        have accounts := h.accounts k s known
        rw [waits, new] at accounts
        rw [Block.passed_concat, new, if_pos rfl]
        exact accounts

/-- A link is not read any more, and its reader is let go. -/
theorem finish (h : w.Flows blocks) (inside : k < w.chain.links.size)
    (stitched : (w.chain.stage k).stitched = true) :
    (w.settle k ((w.chain.retire k).setStage k .ended)).Flows blocks := by
  have last : ((w.chain.retire k).setStage k .ended).stage k = .ended := by
    rw [Endpoint.stage_giveUp, if_pos ⟨rfl, inside⟩]
  unfold Wired.settle
  simp only [last, if_true]
  have kind : Stage.stitched .ended = (w.chain.stage k).stitched := stitched.symm
  refine h.turn (Endpoint.moves_giveUp _ _ _) (fun i _ => ?_) (fun _ => kind) rfl
    (fun _ => rfl) _ fun s known => ?_
  · rw [Endpoint.stage_giveUp]
    simp only [inside, and_true]
  · exact (h.accounts k s known).passed_front

/-- The chunk that a link in use holds is queued: it is one more of the last block. -/
theorem deliver (h : w.Flows blocks) {n : Nat} {chunk : Bytes} (inside : k < w.chain.links.size)
    (alive : w.chain.killed = false) (whole : w.chain.retired k = false)
    (seq : w.chain.seq? k = some n) (holds : w.chain.stage k = .delivering chunk) :
    ∃ blocks', { w with chain := w.chain.queue k (.chunk n chunk) }.Flows blocks' := by
  obtain ⟨b, mem, own⟩ := (h.known k inside).mpr (by rw [holds]; rfl)
  obtain ⟨front, rest, rfl⟩ := List.append_of_mem mem
  have rising := h.rising
  rw [List.map_append, List.map_cons, List.pairwise_append, List.pairwise_cons] at rising
  have last := h.ranked.replaced whole
  obtain rfl : rest = [] := by
    refine List.eq_nil_iff_forall_not_mem.mpr fun c later => ?_
    have after : b.link < c.link := rising.2.1.1 _ (List.mem_map_of_mem later)
    have := h.lt_size (List.mem_append_right _ (List.mem_cons_of_mem _ later))
    omega
  have sameSeq : b.seq = n := Option.some.inj ((h.seqs b mem).symm.trans (own ▸ seq))
  have passed : Block.passed (front ++ [b]) k = b.chunks := own ▸ Block.passed_eq h.rising mem
  have links : (front ++ [{ b with chunks := b.chunks ++ [chunk] }]).map Block.link =
      (front ++ [b]).map Block.link := by simp
  have front' : Block.passed front k = [] := Block.passed_eq_nil fun c before => by
    have := rising.2.2 _ (List.mem_map_of_mem before) b.link List.mem_cons_self
    omega
  refine ⟨front ++ [{ b with chunks := b.chunks ++ [chunk] }],
    h.queue alive inside ?_ ?_ ?_ ?_ ?_ ?_⟩
  · subst sameSeq
    simp [Block.events]
  · rw [links]
    exact h.rising
  · intro c here
    rcases List.mem_append.mp here with old | new
    · exact h.seqs c (List.mem_append_left _ old)
    · cases List.mem_singleton.mp new
      exact h.seqs b mem
  · intro i
    have same := congrArg (i ∈ ·) links
    simp only [List.mem_map, eq_iff_iff] at same
    rw [same]
    refine ⟨.inl, fun known => known.elim (fun old => old) fun newest => ⟨b, mem, ?_⟩⟩
    exact own.trans newest
  · intro i other
    rw [Block.passed_concat, Block.passed_concat, if_neg (own ▸ other), if_neg (own ▸ other)]
  · intro s known
    have accounts := h.accounts k s known
    rw [holds, passed] at accounts
    rw [Block.passed_concat, front', if_pos own, List.nil_append, List.append_assoc]
    exact accounts

/-- A link gives its next chunk, or learns that it has none any more. -/
theorem receive (h : w.Flows blocks) {s : Strand} (known : w.strands[k]? = some s)
    (receiving : w.chain.stage k = .receiving) {pipe : Link.Pipe}
    {r : Except Link.Error (Option Bytes)} (taken : s.pipe.recv? w.side = some (pipe, r)) :
    ((w.modifyPipe k fun _ => pipe).settle k (w.chain.received k r)).Flows blocks := by
  have inside : k < w.chain.links.size := h.length ▸ (List.getElem?_eq_some_iff.mp known).1
  have stitched : (w.chain.stage k).stitched = true := by
    rw [receiving]
    rfl
  have finished (none : ∀ chunk, r ≠ .ok (some chunk)) :
      ((w.modifyPipe k fun _ => pipe).settle k
        ((w.chain.retire k).setStage k .ended)).Flows blocks := by
    have same : pipe = s.pipe := Link.Pipe.recv?_eq_end taken none
    have unchanged : (w.modifyPipe k fun _ => pipe).Flows blocks := by
      refine h.strand k _ fun t found => ?_
      cases known.symm.trans found
      rw [same]
      exact h.accounts k s known
    exact unchanged.finish inside stitched
  match r with
  | .ok none => exact finished nofun
  | .error e => exact finished nofun
  | .ok (some chunk) =>
    have holds : (w.chain.setStage k (.delivering chunk)).stage k = .delivering chunk := by
      rw [Endpoint.stage_setStage, if_pos ⟨rfl, inside⟩]
    have kind : Stage.stitched (.delivering chunk) = (w.chain.stage k).stitched := stitched.symm
    simp only [settle, Endpoint.received, holds, reduceCtorEq, if_false]
    refine h.turn (Endpoint.moves_setStage _ k _) (fun i _ => ?_) (fun _ => kind) rfl
      (fun _ => rfl) _ fun t found => ?_
    · rw [Endpoint.stage_setStage]
      simp only [inside, and_true]
    · cases known.symm.trans found
      have accounts := h.accounts k s known
      rw [receiving, Link.Pipe.recv?_eq_chunk taken] at accounts
      exact accounts

theorem pump (h : w.Flows blocks) (k : Nat) : ∃ blocks', (w.pump k).Flows blocks' := by
  unfold Wired.pump
  split
  · next wants =>
    have receiving : w.chain.stage k = .receiving := by
      simp only [Endpoint.wantsChunk, Bool.and_eq_true, beq_iff_eq] at wants
      exact wants.1
    refine ⟨blocks, ?_⟩
    split
    · exact h
    · next s known =>
      split
      · exact h
      · next pipe r taken => exact h.receive known receiving taken
  · split
    · exact ⟨blocks, h⟩
    · next chain delivered =>
      obtain ⟨inside, ⟨stage, rfl⟩ | ⟨alive, whole, n, chunk, seq, holds, rfl⟩⟩ :=
        Endpoint.deliver?_cases delivered
      · refine ⟨blocks, h.finish inside ?_⟩
        rcases stage with stage | ⟨chunk, stage⟩ <;> rw [stage] <;> rfl
      · have going : (w.chain.queue k (.chunk n chunk)).stage k = .receiving := by
          rw [Endpoint.stage_queue, if_pos ⟨rfl, inside⟩]
        simp only [settle, going, reduceCtorEq, if_false]
        exact h.deliver inside alive whole seq holds

/-! ## The peer and the user -/

theorem arrive (h : w.Flows blocks) (k : Nat) (fault : Bool) (data : Bytes) :
    (w.arrive k fault data).Flows blocks := by
  refine h.strand k _ fun s known => ?_
  have accounts := h.accounts k s known
  split
  · next pipe sent =>
    rw [Link.Pipe.send_opposite_eq_ok sent]
    exact accounts.concat data
  · next pipe e failed =>
    rw [Link.Pipe.send_opposite_eq_error failed]
    exact accounts

theorem write (h : w.Flows blocks) (k : Nat) (fault : Bool) (data : Bytes) :
    (w.write k fault data).Flows blocks := by
  unfold Wired.write
  split
  · next s _ known =>
    have faded := Endpoint.fades_written w.chain k (s.pipe.send w.side fault data).2
    refine Flows.fades (w := w.modifyPipe k fun _ => (s.pipe.send w.side fault data).1) ?_ faded
    refine h.strand k _ fun t found => ?_
    cases known.symm.trans found
    rw [(s.pipe.send_queues w.side fault data).1]
    exact h.accounts k s known
  · exact h

/-- The reader of a live chain gets what waits first, and passes over nothing. -/
theorem read_eq (h : w.Flows blocks) (alive : w.chain.killed = false) {event : Event}
    {rest : List Event} (waits : w.chain.events = event :: rest) :
    w.read = { w with
      chain := { w.chain with
        events := rest, stitched := Event.lastStitch w.chain.stitched [event] }
      got := w.got ++ [event.delivery] } := by
  obtain ⟨read, -, last, -, all⟩ := h.reads
  have inStep : Event.InStep w.chain.stitched (event :: rest) := by
    rw [last, ← waits]
    refine (Event.inStep_append.mp ?_).2
    rw [all alive]
    exact Event.inStep_blocks 0 blocks
  unfold Wired.read Endpoint.read
  rw [if_neg (by rw [alive]; nofun), waits, Event.nextDelivery_of_inStep inStep]
  cases event <;> rfl

theorem read (h : w.Flows blocks) : w.read.Flows blocks := by
  cases alive : w.chain.killed with
  | true =>
    unfold Wired.read Endpoint.read
    rw [if_pos alive]
    exact h
  | false =>
    cases waits : w.chain.events with
    | nil =>
      have nothing : w.read = { w with chain := { w.chain with events := [] } } := by
        unfold Wired.read Endpoint.read
        rw [if_neg (by rw [alive]; nofun), waits]
        rfl
      have faded : w.chain.Fades { w.chain with events := [] } :=
        ⟨⟨rfl, rfl, fun _ => rfl, fun _ => rfl, fun gone => gone, .inl rfl, fun dead => dead⟩,
          fun _ => rfl, rfl, fun _ => waits.symm⟩
      rw [nothing]
      exact h.fades faded
    | cons event rest =>
      rw [h.read_eq alive waits]
      refine ⟨⟨h.ranked.rising, h.ranked.replaced, h.ranked.newest, h.ranked.taken⟩, h.length,
        h.rising, h.seqs, h.known, h.accounts, ?_⟩
      obtain ⟨read, got, last, -, all⟩ := h.reads
      have all : (read ++ [event]) ++ rest = blocks.flatMap Block.events := by
        rw [← all alive, waits, List.append_assoc]
        rfl
      refine ⟨read ++ [event], ?_, ?_, ⟨rest, all⟩, fun _ => all⟩
      · rw [List.map_append, ← got]
        rfl
      · rw [Event.lastStitch_append, ← last]

end Flows

theorem flows_step (w : Wired) (act : Act) (h : ∃ blocks, w.Flows blocks) :
    ∃ blocks, (w.step act).Flows blocks := by
  obtain ⟨blocks, h⟩ := h
  cases act with
  | attach seq link pipe => exact ⟨blocks, h.attach seq link pipe⟩
  | stitch k => exact h.stitch k
  | pump k => exact h.pump k
  | write k fault data => exact ⟨blocks, h.write k fault data⟩
  | dropWriter k => exact ⟨blocks, h.pipe k (·.dropSender w.side) fun p => by simp⟩
  | arrive k fault data => exact ⟨blocks, h.arrive k fault data⟩
  | dropSender k => exact ⟨blocks, h.pipe k _ fun p => p.queue_dropSender_opposite w.side⟩
  | dropReceiver k =>
    exact ⟨blocks, h.pipe k (·.dropReceiver w.side.opposite) fun p => by simp⟩
  | cut k => exact ⟨blocks, h.pipe k (fun p => { p with cut := true }) fun p => by simp⟩
  | read => exact ⟨blocks, h.read⟩
  | nameReason reason => exact ⟨blocks, h.fades (Endpoint.fades_nameReason _ reason)⟩
  | raise => exact ⟨blocks, h.fades (Endpoint.fades_raise _)⟩
  | retireCurrent =>
    refine ⟨blocks, ?_⟩
    simp only [step]
    split
    · next dead => exact h.fades (Endpoint.fades_retireCurrent dead)
    · exact h
  | close => exact ⟨blocks, h.fades (Endpoint.fades_close _)⟩

/-- The acts that neither attach a link nor belong to a kill. -/
inductive Act.Plain : Act → Prop where
  | stitch (k : LinkId) : Plain (.stitch k)
  | pump (k : LinkId) : Plain (.pump k)
  | write (k : LinkId) (fault : Bool) (data : Bytes) : Plain (.write k fault data)
  | dropWriter (k : LinkId) : Plain (.dropWriter k)
  | arrive (k : LinkId) (fault : Bool) (data : Bytes) : Plain (.arrive k fault data)
  | dropSender (k : LinkId) : Plain (.dropSender k)
  | dropReceiver (k : LinkId) : Plain (.dropReceiver k)
  | cut (k : LinkId) : Plain (.cut k)
  | read : Plain .read

theorem chain_settle (w : Wired) (k : LinkId) (chain : Endpoint) :
    (w.settle k chain).chain = chain := by
  unfold settle
  simp only
  split <;> rfl

theorem works_step (w : Wired) {act : Act} (plain : act.Plain) :
    w.chain.Works (w.step act).chain := by
  cases plain with
  | dropWriter | arrive | dropSender | dropReceiver | cut => exact .rests
  | stitch k =>
    simp only [step, Wired.stitch]
    split
    · exact .rests
    · next chain stitched =>
      have work := Endpoint.works_stitch? stitched
      split <;> exact work
  | pump k =>
    simp only [step, Wired.pump]
    split
    · split
      · exact .rests
      · split
        · exact .rests
        · rw [chain_settle]
          exact Endpoint.works_received _ k _
    · split
      · exact .rests
      · next chain delivered =>
        rw [chain_settle]
        exact Endpoint.works_deliver? delivered
  | write k fault data =>
    simp only [step, Wired.write]
    split
    · exact Endpoint.works_written _ k _
    · exact .rests
  | read =>
    have same : w.read.chain = w.chain.read.1 := by
      unfold Wired.read
      split <;> next read => rw [read]
    show w.chain.Works w.read.chain
    rw [same]
    exact Endpoint.works_read w.chain

/-- Only attaching adds to the links of a chain. -/
theorem moves_step (w : Wired) {act : Act}
    (other : ∀ seq link pipe, act ≠ .attach seq link pipe) :
    w.chain.Moves (w.step act).chain := by
  cases act with
  | attach seq link pipe => exact absurd rfl (other seq link pipe)
  | retireCurrent =>
    simp only [step]
    split
    · next dead => exact (Endpoint.fades_retireCurrent dead).toMoves
    · exact .refl _
  | nameReason reason => exact (Endpoint.fades_nameReason _ reason).toMoves
  | raise => exact (Endpoint.fades_raise _).toMoves
  | close => exact (Endpoint.fades_close _).toMoves
  | _ => exact (works_step w (by constructor)).moves

theorem flows_run (side : Side) (id : Id) (depth : Nat) (acts : List Act) :
    ∃ blocks, ((start side id depth).run acts).Flows blocks :=
  run_induction ⟨[], flows_start side id depth⟩ flows_step acts

/-- What the reader was given so far is a row of blocks of its own. -/
theorem Flows.exists_blocks (h : w.Flows blocks) : ∃ parts : List Block,
    w.got = parts.flatMap Block.deliveries ∧ (parts.map Block.seq).Pairwise (· < ·) ∧
      ∀ b ∈ parts, w.chain.seq? b.link = some b.seq ∧
        ∃ s, w.strands[b.link]? = some s ∧ b.chunks <+: s.sent := by
  obtain ⟨read, got, -, part, -⟩ := h.reads
  have first : w.got <+: blocks.flatMap Block.deliveries := by
    rw [got, ← Block.map_delivery]
    exact part.map _
  obtain ⟨parts, same, seqs, whole⟩ := Block.exists_blocks_of_prefix first
  have rising : (blocks.map Block.seq).Pairwise (· < ·) := by
    have links := h.rising
    rw [List.pairwise_map] at links ⊢
    exact links.imp_of_mem fun mem mem' lt => h.ranked.rising lt (h.seqs _ mem) (h.seqs _ mem')
  refine ⟨parts, same, rising.sublist seqs.sublist, fun b mem => ?_⟩
  obtain ⟨all, known, seq, link, chunks⟩ := whole b mem
  have inside := h.lt_size known
  obtain ⟨s, found⟩ : ∃ s, w.strands[all.link]? = some s :=
    ⟨_, List.getElem?_eq_getElem (h.length ▸ inside)⟩
  rw [seq, link]
  refine ⟨h.seqs all known, s, found, chunks.trans ?_⟩
  rw [← Block.passed_eq h.rising known]
  exact (h.accounts all.link s found).passed_front

/-- What a chain delivers. After every run, the reader has been given one block after another, each
of one link: its stitch, and then the first chunks that the peer has sent over it, in order, with
none left out. The numbers of the links rise from block to block. And while the chain lives, a read
gives whatever was queued first. -/
theorem deliveries_in_blocks (side : Side) (id : Id) (depth : Nat) (acts : List Act) :
    let w := (start side id depth).run acts
    (∃ blocks : List Block, w.got = blocks.flatMap Block.deliveries ∧
      (blocks.map Block.seq).Pairwise (· < ·) ∧
      ∀ b ∈ blocks, w.chain.seq? b.link = some b.seq ∧
        ∃ s, w.strands[b.link]? = some s ∧ b.chunks <+: s.sent) ∧
      (w.chain.killed = false → ∀ event rest, w.chain.events = event :: rest →
        w.read.got = w.got ++ [event.delivery] ∧ w.read.chain.events = rest) := by
  intro w
  obtain ⟨blocks, h⟩ : ∃ blocks, w.Flows blocks := flows_run side id depth acts
  refine ⟨h.exists_blocks, fun alive event rest waits => ?_⟩
  rw [h.read_eq alive waits]
  exact ⟨rfl, rfl⟩

end Wired

end Tether.Chain
