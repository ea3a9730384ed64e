import Tether.Bytes

/-!
# Chain identifiers

A chain keeps one identifier over all its links. Dialers draw them from a source, either in sequence
or at random. Zero is never drawn by chance, nor is a sequence started at it.
-/

namespace Tether.Chain

/-- The name of a chain. -/
structure Id where
  val : UInt64
  deriving DecidableEq, Repr

/-- The text of an identifier: sixteen hexadecimal digits. -/
def Id.text (id : Id) : String :=
  s!"chain-{hexDigits 16 id.val.toNat}"

/-- Identifiers in sequence. -/
structure SequentialIds where
  next : UInt64
  deriving DecidableEq, Repr

namespace SequentialIds

/-- The sequence from `start`, or from one if that is zero. -/
def new (start : UInt64) : SequentialIds :=
  ⟨if start = 0 then 1 else start⟩

/-- Draws the next identifier. The sequence is counted modulo 2⁶⁴. -/
def draw (ids : SequentialIds) : Id × SequentialIds :=
  (⟨ids.next⟩, ⟨ids.next + 1⟩)

/-- Draws several identifiers in turn. -/
def drawMany (ids : SequentialIds) : Nat → List Id
  | 0 => []
  | count + 1 => ids.draw.1 :: ids.draw.2.drawMany count

end SequentialIds

/-- Identifiers by chance. -/
structure RandomIds where
  /-- The words that the generator is still to give, as far ahead as they are asked for. -/
  words : List UInt64
  deriving DecidableEq, Repr

namespace RandomIds

/-- Draws the next identifier. Zero is passed over. No answer means that the words do not reach as
far as the next identifier. -/
def draw? (ids : RandomIds) : Option (Id × RandomIds) :=
  go ids.words
where
  go : List UInt64 → Option (Id × RandomIds)
    | [] => none
    | word :: rest => if word = 0 then go rest else some (⟨word⟩, ⟨rest⟩)

/-- Draws several identifiers in turn. -/
def drawMany? (ids : RandomIds) : Nat → Option (List Id)
  | 0 => some []
  | count + 1 => do
    let (id, ids) ← ids.draw?
    return id :: (← ids.drawMany? count)

/-- Zero is never drawn. -/
theorem val_ne_zero_of_draw? {ids rest : RandomIds} {id : Id} (drawn : ids.draw? = some (id, rest)) :
    id.val ≠ 0 := by
  obtain ⟨words⟩ := ids
  induction words with
  | nil => cases drawn
  | cons word words ih =>
    simp only [draw?, draw?.go] at drawn ih
    split at drawn
    · exact ih drawn
    · next nonzero =>
      cases drawn
      exact nonzero

end RandomIds

end Tether.Chain
