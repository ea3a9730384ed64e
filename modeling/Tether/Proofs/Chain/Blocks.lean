import Tether.Chain.Endpoint

/-!
# Deliveries in blocks

What a reader gets of one link is a block: the stitch of the link, and chunks behind it. A queue
that holds nothing but blocks keeps every chunk behind the stitch of its own link, so that its
reader passes over nothing; and the first part of a row of blocks is a row of blocks again, of which
the last may have fewer chunks.
-/

namespace Tether.Chain

/-- What the reader gets of one link. -/
structure Block where
  seq : Nat
  /-- The place of the link in the order of attachment. -/
  link : Nat
  chunks : List Bytes

namespace Block

def events (b : Block) : List Event :=
  .stitch b.seq b.link :: b.chunks.map (.chunk b.seq)

def deliveries (b : Block) : List Delivery :=
  .stitch b.seq b.link :: b.chunks.map .chunk

end Block

namespace Event

/-- What the reader gets of an event. -/
def delivery : Event → Delivery
  | .stitch seq writer => .stitch seq writer
  | .chunk _ data => .chunk data

/-- The number of the link stitched last, after events that follow the stitch of `seq`. -/
def lastStitch (seq : Nat) : List Event → Nat
  | [] => seq
  | .stitch next _ :: rest => lastStitch next rest
  | .chunk _ _ :: rest => lastStitch seq rest

/-- Every chunk is of the link stitched last before it. -/
def InStep (seq : Nat) : List Event → Prop
  | [] => True
  | .stitch next _ :: rest => InStep next rest
  | .chunk own _ :: rest => own = seq ∧ InStep seq rest

theorem lastStitch_append (seq : Nat) (front rest : List Event) :
    lastStitch seq (front ++ rest) = lastStitch (lastStitch seq front) rest := by
  induction front generalizing seq with
  | nil => rfl
  | cons event front ih => cases event <;> exact ih _

theorem inStep_append {seq : Nat} {front rest : List Event} :
    InStep seq (front ++ rest) ↔ InStep seq front ∧ InStep (lastStitch seq front) rest := by
  induction front generalizing seq with
  | nil => exact (iff_of_eq (true_and _)).symm
  | cons event front ih =>
    cases event with
    | stitch next writer => exact ih
    | chunk own data => exact (and_congr_right fun _ => ih).trans and_assoc.symm

theorem inStep_chunks (seq : Nat) (chunks : List Bytes) :
    InStep seq (chunks.map (.chunk seq)) := by
  induction chunks with
  | nil => trivial
  | cons chunk chunks ih => exact ⟨rfl, ih⟩

theorem inStep_blocks (seq : Nat) (blocks : List Block) :
    InStep seq (blocks.flatMap Block.events) := by
  induction blocks generalizing seq with
  | nil => trivial
  | cons b blocks ih => exact inStep_append.mpr ⟨inStep_chunks b.seq b.chunks, ih _⟩

/-- A reader that is in step with its queue gets what waits first. -/
theorem nextDelivery_of_inStep {seq : Nat} {event : Event} {rest : List Event}
    (inStep : InStep seq (event :: rest)) :
    Endpoint.nextDelivery seq (event :: rest) = (some event.delivery, rest) := by
  cases event with
  | stitch next writer => rfl
  | chunk own data => exact if_pos inStep.1

end Event

namespace Block

theorem map_delivery (blocks : List Block) :
    (blocks.flatMap events).map Event.delivery = blocks.flatMap deliveries := by
  induction blocks with
  | nil => rfl
  | cons b blocks ih =>
    rw [List.flatMap_cons, List.map_append, ih]
    simp [events, deliveries, Event.delivery, Function.comp_def]

/-- One block is the first part of another. -/
structure Part (b whole : Block) : Prop where
  seq : b.seq = whole.seq
  link : b.link = whole.link
  chunks : b.chunks <+: whole.chunks

theorem Part.refl (b : Block) : b.Part b :=
  ⟨rfl, rfl, List.prefix_rfl⟩

/-- The first part of a row of blocks is a row of blocks. -/
theorem exists_blocks_of_prefix {read : List Delivery} {blocks : List Block}
    (first : read <+: blocks.flatMap deliveries) :
    ∃ parts : List Block, read = parts.flatMap deliveries ∧
      parts.map seq <+: blocks.map seq ∧ ∀ b ∈ parts, ∃ whole ∈ blocks, b.Part whole := by
  induction blocks generalizing read with
  | nil => exact ⟨[], List.prefix_nil.mp first, List.prefix_rfl, nofun⟩
  | cons b blocks ih =>
    cases read with
    | nil => exact ⟨[], rfl, List.nil_prefix, nofun⟩
    | cons stitch read =>
      obtain ⟨rfl, inside⟩ := List.cons_prefix_cons.mp first
      rcases List.prefix_or_prefix_of_prefix inside (List.prefix_append _ _) with within | ⟨rest, rfl⟩
      · -- the last block, with as many chunks as were read
        obtain ⟨chunks, part, rfl⟩ := List.prefix_map_iff.mp within
        refine ⟨[⟨b.seq, b.link, chunks⟩], by simp [deliveries], ?_, ?_⟩
        · exact List.cons_prefix_cons.mpr ⟨rfl, List.nil_prefix⟩
        · intro _ mem
          cases List.mem_singleton.mp mem
          exact ⟨b, List.mem_cons_self, rfl, rfl, part⟩
      · obtain ⟨parts, rfl, seqs, known⟩ := ih ((List.prefix_append_right_inj _).mp inside)
        refine ⟨b :: parts, rfl, List.cons_prefix_cons.mpr ⟨rfl, seqs⟩, ?_⟩
        intro part mem
        rcases List.mem_cons.mp mem with rfl | mem
        · exact ⟨part, List.mem_cons_self, Part.refl part⟩
        · obtain ⟨whole, old, part⟩ := known part mem
          exact ⟨whole, List.mem_cons_of_mem _ old, part⟩

end Block

end Tether.Chain
