import Tether.Proofs.Wire.Tracking
import Mathlib.Data.List.Chain

/-!
# Descending into the input

Whatever calls are made, on the first cursor and on all those that they yield, failing calls among
them, each view is a part of the input that a view only loses bytes from, at its front; a call that
succeeds takes at least one byte, and a view that it yields lies in what it took. So a descent by calls
goes down in a number that is known from the length of the view alone, through containers and through
the items of lists, and a reader of nested values ends, however they are nested and whatever lengths
they claim.
-/

namespace Tether.Wire

namespace Cursor.Answer

/-- The call was one for its cursor, and the bytes were as it asks. -/
def Succeeds : Answer → Prop
  | failed _ | wrongCursor => False
  | _ => True

end Cursor.Answer

variable {input : Bytes}

namespace Place

/-- The calls that may succeed and take nothing: those that only look or copy, and that for the next
item, once there is none. -/
def Idle (c : Cursor.Call) (answer : Cursor.Answer) : Prop :=
  c = .peek ∨ c = .finish ∨ c = .dup ∨ c = .next ∧ answer = .absent

/-- What a call leaves of a window and which places it adds, by where in the input they lie. -/
structure Shrinks (c : Cursor.Call) (answer : Cursor.Answer) (w left : Window input)
    (added : List (Place input)) : Prop where
  leaves : w.Leaves left
  suffix : left.view <:+ w.view
  consumes : answer.Succeeds → ¬Idle c answer → w.start < left.start
  fails : ¬answer.Succeeds → added = []
  copies : c = .dup → ∀ inner ∈ added, inner.window = w
  /-- What is added lies in what the call took, in front of what it left. -/
  inside : c ≠ .dup → ∀ inner ∈ added,
    w.start ≤ inner.window.start ∧ inner.window.stop ≤ left.start
  /-- Only an item of a list is all that was taken. -/
  shorter : c ≠ .dup → c ≠ .next → ∀ inner ∈ added, w.start < inner.window.start
  kinds : ∀ inner ∈ added, inner = if c = .list then items inner.window else values inner.window

variable {w left : Window input} {c : Cursor.Call} {answer : Cursor.Answer}
  {inner place : Place input}

/-- A call that gives no view. -/
theorem Shrinks.plain (leaves : w.Leaves left)
    (consumes : answer.Succeeds → ¬Idle c answer → w.start < left.start) :
    Shrinks c answer w left [] where
  leaves := leaves
  suffix := leaves.isSuffix
  consumes := consumes
  fails _ := rfl
  copies _ := nofun
  inside _ := nofun
  shorter _ _ := nofun
  kinds := nofun

theorem Shrinks.failed (leaves : w.Leaves left) (unsuccessful : ¬answer.Succeeds) :
    Shrinks c answer w left [] :=
  .plain leaves fun success => absurd success unsuccessful

/-- A call that gives the view of what a container holds. -/
theorem Shrinks.opened (leaves : w.Leaves left) (other : c ≠ .dup) (success : answer.Succeeds)
    (holds : w.Holds left inner.window)
    (kind : inner = if c = .list then items inner.window else values inner.window) :
    Shrinks c answer w left [inner] where
  leaves := leaves
  suffix := leaves.isSuffix
  consumes _ _ := holds.consumed
  fails unsuccessful := absurd success unsuccessful
  copies copy := absurd copy other
  inside _ := List.forall_mem_singleton.mpr ⟨Nat.le_of_lt holds.behind, Nat.le_of_eq holds.upTo⟩
  shorter _ _ := List.forall_mem_singleton.mpr holds.behind
  kinds := List.forall_mem_singleton.mpr kind

/-- A call that gives an item of a list, which is all that it takes. -/
theorem Shrinks.item {item : Window input} (leaves : w.Leaves left) (success : answer.Succeeds)
    (taken : w.start < left.start) (start : item.start = w.start) (stop : item.stop = left.start) :
    Shrinks .next answer w left [values item] where
  leaves := leaves
  suffix := leaves.isSuffix
  consumes _ _ := taken
  fails unsuccessful := absurd success unsuccessful
  copies := nofun
  inside _ := List.forall_mem_singleton.mpr ⟨Nat.le_of_eq start.symm, Nat.le_of_eq stop⟩
  shorter := nofun
  kinds := List.forall_mem_singleton.mpr rfl

theorem Shrinks.copied (w : Window input) : Shrinks .dup .done w w [values w] where
  leaves := .refl w
  suffix := List.suffix_refl _
  consumes _ taking := absurd (.inr (.inr (.inl rfl))) taking
  fails unsuccessful := absurd trivial unsuccessful
  copies _ := List.forall_mem_singleton.mpr rfl
  inside := nofun
  shorter := nofun
  kinds := List.forall_mem_singleton.mpr rfl

/-! ## One call -/

/-- Two steps give the same answer and add the same cursors, as the call may from this window. -/
def SameStep (c : Cursor.Call) (w left : Window input) (step : Step input) (step' : Cursor.Step) : Prop :=
  step' = (step.1, step.2.map cursor) ∧ Shrinks c step.1 w left step.2

/-- The calls on values. -/
theorem tracks_onValues (w : Window input) (c : Cursor.Call) :
    Option.Rel (fun x y => Tracks w x y (SameStep c w)) (onValues c) (Cursor.onValues c) := by
  cases c with
  | next | pop => exact .none
  | dup => exact .some <| .ok (.refl w) ⟨rfl, .copied w⟩
  | peek =>
    refine .some <| Scan.tracks_peekTag.bind fun left _ _ leaves given => ?_
    obtain ⟨rfl, rfl, -⟩ := given
    exact .pure ⟨rfl, .plain leaves fun _ taking => absurd (.inl rfl) taking⟩
  | skip =>
    refine .some <| Scan.tracks_skip.bind fun left _ _ leaves taken => ?_
    exact .pure ⟨rfl, .plain leaves fun _ _ => taken⟩
  | unit =>
    refine .some <| (Scan.tracks_expectTag .unit).bind fun left _ _ leaves taken => ?_
    exact .pure ⟨rfl, .plain leaves fun _ _ => taken⟩
  | bool =>
    refine .some <| Scan.tracks_bool.bind fun left _ _ leaves given => ?_
    obtain ⟨rfl, taken⟩ := given
    exact .pure ⟨rfl, .plain leaves fun _ _ => taken⟩
  | uint =>
    refine .some <| Scan.tracks_uint.bind fun left _ _ leaves given => ?_
    obtain ⟨rfl, taken⟩ := given
    exact .pure ⟨rfl, .plain leaves fun _ _ => taken⟩
  | str =>
    refine .some <| Scan.tracks_str.bind fun left _ _ leaves given => ?_
    obtain ⟨rfl, taken⟩ := given
    exact .pure ⟨rfl, .plain leaves fun _ _ => taken⟩
  | bytes =>
    refine .some <| (Scan.tracks_blob .bytes).bind fun left _ _ leaves given => ?_
    obtain ⟨rfl, holds⟩ := given
    exact .pure ⟨rfl, .plain leaves fun _ _ => holds.consumed⟩
  | option =>
    refine .some <| Scan.tracks_option.bind fun left content _ leaves given => ?_
    obtain ⟨taken, rfl, holds⟩ := given
    cases content with
    | none => exact .pure ⟨rfl, .plain leaves fun _ _ => taken⟩
    | some body =>
      refine .pure ⟨?_, .opened leaves nofun trivial (holds body rfl) rfl⟩
      simp [cursor]
  | list =>
    refine .some <| (Scan.tracks_container .list).bind fun left body _ leaves given => ?_
    obtain ⟨rfl, holds⟩ := given
    exact .pure ⟨rfl, .opened leaves nofun trivial holds rfl⟩
  | variant =>
    refine .some <| Scan.tracks_variant.bind fun left named _ leaves given => ?_
    obtain ⟨rfl, holds⟩ := given
    refine .pure ⟨?_, .opened leaves nofun trivial holds rfl⟩
    simp [cursor]
  | finish =>
    have still : Reader.left (Decode.finish w.view) = w.view := by
      unfold Decode.finish
      split <;> rfl
    refine .some <| (Scan.tracks_look still).bind fun left _ _ leaves given => ?_
    exact .pure ⟨rfl, .plain leaves fun _ taking => absurd (.inr (.inl rfl)) taking⟩

/-- The call for the next item of a list. -/
theorem tracks_onItems (w : Window input) :
    Tracks w onItems Cursor.onItems (SameStep .next w) := by
  refine Scan.tracks_nextItem.bind fun left item _ leaves given => ?_
  obtain ⟨rfl, cut⟩ := given
  cases item with
  | none =>
    exact .pure ⟨rfl, .plain leaves fun _ taking => absurd (.inr (.inr (.inr ⟨rfl, rfl⟩))) taking⟩
  | some item =>
    obtain ⟨taken, start, stop⟩ := cut item rfl
    exact .pure ⟨by simp [cursor], .item leaves trivial taken start stop⟩

/-- A read in step with one of the bytes gives what that one gives, and never goes beyond its window. -/
theorem outcome_of_tracks {x : Scan input (Step input)} {y : Decode Cursor.Step}
    (tracks : Tracks w x y (SameStep c w)) :
    ∃ answer added left, outcome x w = some ((answer, added), left) ∧
      Cursor.outcome y w.view = ((answer, added.map cursor), left.view) ∧
      Shrinks c answer w left added := by
  unfold Tracks at tracks
  unfold outcome Cursor.outcome
  generalize x w = ended, y w.view = ended' at *
  cases tracks with
  | @ok left step _ leaves given =>
    obtain ⟨rfl, shrinks⟩ := given
    exact ⟨step.1, step.2, left, rfl, rfl, shrinks⟩
  | @error left e leaves => exact ⟨.failed e, [], left, rfl, rfl, .failed leaves id⟩

/-- A place of the same kind at another window. -/
def moved (place : Place input) (w : Window input) : Place input :=
  match place with
  | values _ => values w
  | items _ => items w

theorem call_values (w : Window input) (rest : List (Place input)) (reading : c ≠ .pop) :
    call (values w :: rest) c =
      match onValues c with
      | some read => do
        let ((answer, added), left) ← outcome read w
        return (added ++ values left :: rest, ⟨answer, some left.length⟩)
      | none => some (values w :: rest, ⟨.wrongCursor, none⟩) := by
  cases c with
  | pop => exact absurd rfl reading
  | _ => rfl

theorem cursorCall_values (view : Bytes) (rest : List Cursor) (reading : c ≠ .pop) :
    Cursor.call (.values view :: rest) c =
      match Cursor.onValues c with
      | some read =>
        let ((answer, added), left) := Cursor.outcome read view
        (added ++ .values left :: rest, ⟨answer, some left.length⟩)
      | none => (.values view :: rest, ⟨.wrongCursor, none⟩) := by
  cases c with
  | pop => exact absurd rfl reading
  | _ => rfl

theorem call_items_other (w : Window input) (rest : List (Place input)) (reading : c ≠ .pop)
    (other : c ≠ .next) :
    call (items w :: rest) c = some (items w :: rest, ⟨.wrongCursor, none⟩) := by
  cases c with
  | pop => exact absurd rfl reading
  | next => exact absurd rfl other
  | _ => rfl

theorem cursorCall_items_other (view : Bytes) (rest : List Cursor) (reading : c ≠ .pop)
    (other : c ≠ .next) :
    Cursor.call (.items view :: rest) c = (.items view :: rest, ⟨.wrongCursor, none⟩) := by
  cases c with
  | pop => exact absurd rfl reading
  | next => exact absurd rfl other
  | _ => rfl

/-- Any call on a place but the one that drops it. -/
theorem call_cons (place : Place input) (rest : List (Place input)) (c : Cursor.Call)
    (reading : c ≠ .pop) :
    ∃ added left reply, call (place :: rest) c = some (added ++ place.moved left :: rest, reply) ∧
      Cursor.call ((place :: rest).map cursor) c =
        ((added ++ place.moved left :: rest).map cursor, reply) ∧
      Shrinks c reply.answer place.window left added := by
  have wrong (w : Window input) : Shrinks c .wrongCursor w w [] := .failed (.refl w) id
  cases place with
  | values w =>
    have steps := tracks_onValues w c
    rw [call_values w rest reading, List.map_cons, cursor, cursorCall_values w.view _ reading]
    generalize onValues c = read, Cursor.onValues c = read' at *
    cases steps with
    | none => exact ⟨[], w, ⟨.wrongCursor, none⟩, rfl, rfl, wrong w⟩
    | some tracks =>
      obtain ⟨answer, added, left, inPlace, onBytes, shrinks⟩ := outcome_of_tracks tracks
      refine ⟨added, left, ⟨answer, some left.length⟩, ?_, ?_, shrinks⟩
      · simp only [inPlace]
        rfl
      · simp [onBytes, moved, cursor]
  | items w =>
    by_cases next : c = .next
    · subst next
      obtain ⟨answer, added, left, inPlace, onBytes, shrinks⟩ := outcome_of_tracks (tracks_onItems w)
      refine ⟨added, left, ⟨answer, none⟩, ?_, ?_, shrinks⟩
      · simp only [call, inPlace]
        rfl
      · simp [Cursor.call, onBytes, moved, cursor]
    · refine ⟨[], w, ⟨.wrongCursor, none⟩, call_items_other w rest reading next, ?_, wrong w⟩
      exact cursorCall_items_other w.view _ reading next

/-! ## Calls in turn -/

/-- A call on the places held is in range, and is the call on their cursors. -/
theorem call_eq (held : List (Place input)) (c : Cursor.Call) :
    ∃ after reply, call held c = some (after, reply) ∧
      Cursor.call (held.map cursor) c = (after.map cursor, reply) := by
  cases held with
  | nil =>
    refine ⟨[], ⟨.wrongCursor, none⟩, ?_, ?_⟩ <;> cases c <;> rfl
  | cons place rest =>
    by_cases drops : c = .pop
    · subst drops
      exact ⟨rest, ⟨.done, none⟩, rfl, rfl⟩
    · obtain ⟨added, left, reply, inPlace, onBytes, -⟩ := call_cons place rest c drops
      exact ⟨_, reply, inPlace, onBytes⟩

theorem callAt_eq (held : List (Place input)) (i : Nat) (c : Cursor.Call) :
    ∃ after reply, callAt held i c = some (after, reply) ∧
      Cursor.callAt (held.map cursor) i c = (after.map cursor, reply) := by
  obtain ⟨after, reply, inPlace, onBytes⟩ := call_eq (held.drop i) c
  refine ⟨held.take i ++ after, reply, ?_, ?_⟩
  · simp only [callAt, inPlace]
    rfl
  · rw [Cursor.callAt, ← List.map_drop, onBytes, ← List.map_take, List.map_append]

/-- Calls in turn are in range, and are those on the cursors: by induction on the calls. -/
theorem run_eq (held : List (Place input)) (calls : List (Nat × Cursor.Call)) :
    ∃ after replies, run held calls = some (after, replies) ∧
      Cursor.runAt (held.map cursor) calls = (after.map cursor, replies) := by
  induction calls generalizing held with
  | nil => exact ⟨held, [], rfl, rfl⟩
  | cons head calls ih =>
    obtain ⟨i, c⟩ := head
    obtain ⟨mid, reply, inPlace, onBytes⟩ := callAt_eq held i c
    obtain ⟨after, replies, inPlace', onBytes'⟩ := ih mid
    refine ⟨after, reply :: replies, ?_, ?_⟩
    · simp [run, inPlace, inPlace']
    · rw [Cursor.runAt, onBytes]
      simp only [onBytes']

/-! ## Descents -/

/-- A place where a call leads that takes something: one that it adds, or what it leaves. -/
def LeadsTo (outer inner : Place input) : Prop :=
  ∃ c stack reply, call [outer] c = some (stack, reply) ∧ reply.answer.Succeeds ∧
    ¬Idle c reply.answer ∧ inner ∈ stack

/-- How far down calls may lead from a place. The items of a list come before the values that they are,
which may be as long as the list. -/
def rank : Place input → Nat
  | values w => 2 * w.length
  | items w => 2 * w.length + 1

/-- Only the next item of a list is asked for where the items of a list are. -/
theorem next_iff_of_succeeds {rest stack : List (Place input)} {reply : Cursor.Reply}
    (called : call (place :: rest) c = some (stack, reply)) (success : reply.answer.Succeeds)
    (reading : c ≠ .pop) : c = .next ↔ place = items place.window := by
  cases place with
  | values w =>
    refine ⟨?_, nofun⟩
    rintro rfl
    cases called
    exact success.elim
  | items w =>
    refine ⟨fun _ => rfl, fun _ => Classical.byContradiction fun other => ?_⟩
    rw [call_items_other w rest reading other] at called
    cases called
    exact success

/-- What is added to a place of values is shorter, and what is added to a list is an item of it. -/
theorem rank_lt_of_added {added : List (Place input)} (other : c ≠ .dup)
    (fits : c = .next ↔ place = items place.window)
    (shrinks : Shrinks c answer place.window left added) (isAdded : inner ∈ added) :
    inner.rank < place.rank := by
  have ⟨_, upTo⟩ := shrinks.inside other inner isAdded
  have kind := shrinks.kinds inner isAdded
  have stop := shrinks.leaves.stop
  have ordered := left.ordered
  have ordered' := inner.window.ordered
  cases place with
  | values w =>
    have shorter := shrinks.shorter other (fun next => nomatch fits.mp next) inner isAdded
    cases inner <;> simp only [rank, window, Window.length] at * <;> omega
  | items w =>
    -- An item may fill its list; it counts less because it is a value.
    obtain rfl := fits.mpr rfl
    cases inner with
    | values item =>
      simp only [rank, window, Window.length] at *
      omega
    | items _ => cases kind

theorem rank_moved_lt (leaves : place.window.Leaves left) (taken : place.window.start < left.start) :
    (place.moved left).rank < place.rank := by
  have stop := leaves.stop
  have ordered := left.ordered
  cases place <;> simp only [rank, moved, window, Window.length] at * <;> omega

theorem rank_lt_of_leadsTo {outer : Place input} (leads : outer.LeadsTo inner) :
    inner.rank < outer.rank := by
  obtain ⟨c, stack, reply, called, success, taking, mem⟩ := leads
  by_cases drops : c = .pop
  · subst drops
    cases called
    cases mem
  have fits := next_iff_of_succeeds called success drops
  have other : c ≠ .dup := fun copy => taking (.inr (.inr (.inl copy)))
  obtain ⟨added, left, reply', inPlace, -, shrinks⟩ := call_cons outer [] c drops
  obtain ⟨rfl, rfl⟩ := Prod.mk.inj (Option.some.inj (inPlace.symm.trans called))
  rcases List.mem_append.mp mem with isAdded | isLeft
  · exact rank_lt_of_added other fits shrinks isAdded
  · obtain rfl := List.mem_singleton.mp isLeft
    exact rank_moved_lt shrinks.leaves (shrinks.consumes success taking)

/-- A descent by calls that take something is not longer than the rank of where it starts. -/
theorem length_le_rank (place : Place input) (descent : List (Place input))
    (led : (place :: descent).IsChain LeadsTo) : descent.length ≤ place.rank := by
  induction descent generalizing place with
  | nil => exact Nat.zero_le _
  | cons inner descent ih =>
    obtain ⟨leads, led⟩ := List.isChain_cons_cons.mp led
    exact Nat.lt_of_le_of_lt (ih inner led) (rank_lt_of_leadsTo leads)

end Place

end Tether.Wire
