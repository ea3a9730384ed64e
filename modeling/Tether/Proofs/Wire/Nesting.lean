import Tether.Proofs.Wire.Forest
import Tether.Proofs.Wire.Descent

/-!
# Readers of nested values end

A reader that follows the tags calls itself for what a container holds and for each item of a list. Here
it is given how deep its calls may go. It never has to go deeper than a few calls for each byte of the
input, so the bound is not felt: with that much it gives what the reader without a bound gives, for any
nesting and any lengths that the input claims. The module ends with what this rests on, said of all calls.
-/

namespace Tether.Wire

namespace Bounded

mutual

/-- Reads a view that must hold exactly one value, as `Value.readWhole`, but calls go no deeper than
allowed. Nothing is given if they would have to. -/
def readWhole : Nat → Bytes → Option (Except Error Value)
  | 0, _ => none
  | depth + 1, view =>
    match Node.read view with
    | .error e _ => some (.error e)
    | .ok node rest =>
      match complete depth node with
      | none => none
      | some (.error e) => some (.error e)
      | some (.ok value) => some (if rest = [] then .ok value else .error (.trailingBytes rest.length))

/-- Reads what the head of a value left unread. -/
def complete : Nat → Node → Option (Except Error Value)
  | 0, _ => none
  | _ + 1, .leaf value => some (.ok value)
  | depth + 1, .some body => (readWhole depth body).map (Except.map .some)
  | depth + 1, .list body => (readItems depth body).map (Except.map .list)
  | depth + 1, .variant name body => (readWhole depth body).map (Except.map (.variant name))

/-- Reads the items of a list body to its end. -/
def readItems : Nat → Bytes → Option (Except Error (List Value))
  | 0, _ => none
  | depth + 1, items =>
    match Decode.nextItem items with
    | .error e _ => some (.error e)
    | .ok none _ => some (.ok [])
    | .ok (some item) rest =>
      match readWhole depth item with
      | none => none
      | some (.error e) => some (.error e)
      | some (.ok value) => (readItems depth rest).map (Except.map (value :: ·))

end

/-- Reads values until the view ends. -/
def readForest : Nat → Bytes → Option (Except Error (List Value))
  | 0, _ => none
  | depth + 1, view =>
    if view = [] then some (.ok [])
    else
      match Node.read view with
      | .error e _ => some (.error e)
      | .ok node rest =>
        match complete depth node with
        | none => none
        | some (.error e) => some (.error e)
        | some (.ok value) => (readForest depth rest).map (Except.map (value :: ·))

/-- So deep, the readers give what those without a bound give, if three calls are left for each byte that
they may come to. -/
structure Ample (depth : Nat) : Prop where
  whole : ∀ view : Bytes, 3 * view.length < depth →
    readWhole depth view = some (Value.readWhole view)
  node : ∀ node : Node, 3 * node.body.length + 2 < depth →
    complete depth node = some (Value.complete node)
  items : ∀ items : Bytes, 3 * items.length + 1 < depth →
    readItems depth items = some (Value.readItems items)

variable {depth : Nat}

/-- The head of a value takes a byte at least, which pays for the calls down to the next view. -/
theorem Ample.whole_succ (ample : Ample depth) (view : Bytes) (deep : 3 * view.length < depth + 1) :
    readWhole (depth + 1) view = some (Value.readWhole view) := by
  rw [readWhole, Value.readWhole_eq]
  cases head : Node.read view with
  | error e rest => rfl
  | ok node rest =>
    have shorter := Node.read_length head
    simp only [ample.node node (by omega)]
    cases Value.complete node <;> rfl

theorem Ample.node_succ (ample : Ample depth) (node : Node)
    (deep : 3 * node.body.length + 2 < depth + 1) :
    complete (depth + 1) node = some (Value.complete node) := by
  cases node with
  | leaf value => rw [complete, Value.complete]
  | some body =>
    rw [complete, Value.complete, ample.whole body (by simp only [Node.body] at deep; omega)]
    cases Value.readWhole body <;> rfl
  | list body =>
    rw [complete, Value.complete, ample.items body (by simp only [Node.body] at deep; omega)]
    cases Value.readItems body <;> rfl
  | variant name body =>
    rw [complete, Value.complete, ample.whole body (by simp only [Node.body] at deep; omega)]
    cases Value.readWhole body <;> rfl

/-- An item may be all of the list, so a list has one call more than a view of its length. -/
theorem Ample.items_succ (ample : Ample depth) (items : Bytes)
    (deep : 3 * items.length + 1 < depth + 1) :
    readItems (depth + 1) items = some (Value.readItems items) := by
  rw [readItems, Value.readItems_eq]
  cases given : Decode.nextItem items with
  | error e rest => rfl
  | ok item rest =>
    cases item with
    | none => rfl
    | some item =>
      have part := Decode.nextItem_length given
      have shorter := Decode.nextItem_rest_length given
      simp only [ample.whole item (by omega), ample.items rest (by omega)]
      cases Value.readWhole item with
      | error e => rfl
      | ok value => cases Value.readItems rest <;> rfl

theorem ample (depth : Nat) : Ample depth := by
  induction depth with
  | zero => exact ⟨nofun, nofun, nofun⟩
  | succ depth ih => exact ⟨ih.whole_succ, ih.node_succ, ih.items_succ⟩

/-- Values one after the other use up the depth by one each, and each of them takes a byte. -/
theorem readForest_eq_some (depth : Nat) (view : Bytes) (deep : 3 * view.length < depth) :
    readForest depth view = some (Value.readForest view) := by
  induction depth generalizing view with
  | zero => exact absurd deep (Nat.not_lt_zero _)
  | succ depth ih =>
    rw [readForest, Value.readForest_eq, Value.read]
    split
    · rfl
    · cases head : Node.read view with
      | error e rest => rfl
      | ok node rest =>
        have shorter := Node.read_length head
        simp only [(ample depth).node node (by omega)]
        cases Value.complete node with
        | error e => rfl
        | ok value =>
          simp only [ih rest (by omega)]
          cases Value.readForest rest <;> rfl

end Bounded

namespace Place

/-- Views never escape from the input and always shrink.

Any calls in turn on the cursors held, at first one on the whole input, are in range when they are made
in place, at each cut and each length; and made on cursors of bytes they give the same replies and leave
the cursors of the same places. A call on any place that is held leaves the end of its window; one that
succeeds takes something of it, unless it only looks or there is no next item; and what it adds lies in
what it took, apart from what is left, and is shorter than that if it is not an item.

So a descent by calls that take something is not longer than twice the bytes where it starts and one, and
the reader that follows the tags ends: three calls deep for each byte are enough for all of its reads. -/
theorem views_stay_and_shrink (input : Bytes) :
    (∀ calls, ∃ held replies,
      run [values (.all input)] calls = some (held, replies) ∧
      Cursor.runAt [.values input] calls = (held.map cursor, replies)) ∧
    (∀ (place : Place input) rest c, c ≠ .pop → ∃ added left reply,
      call (place :: rest) c = some (added ++ place.moved left :: rest, reply) ∧
      Cursor.call ((place :: rest).map cursor) c =
        ((added ++ place.moved left :: rest).map cursor, reply) ∧
      Shrinks c reply.answer place.window left added) ∧
    (∀ (place : Place input) descent, (place :: descent).IsChain LeadsTo →
      descent.length ≤ 2 * place.window.length + 1) ∧
    ∀ depth, 3 * input.length < depth →
      Bounded.readForest depth input = some (Value.readForest input) := by
  refine ⟨fun calls => ?_, call_cons, fun place descent led => ?_,
    fun depth deep => Bounded.readForest_eq_some depth input deep⟩
  · simpa [cursor] using run_eq [values (.all input)] calls
  · have atMost : place.rank ≤ 2 * place.window.length + 1 := by
      cases place with
      | values w => exact Nat.le_succ _
      | items w => exact Nat.le_refl _
    exact Nat.le_trans (length_le_rank place descent led) atMost

end Place

end Tether.Wire
