import Tether.Proofs.Wire.Skipping

/-!
# The items of a list

The items of a list have no length of their own: where one ends is found by stepping over it. A step
looks at the tag and the length behind it and at nothing else, so it takes the same bytes whatever
follows them; hence the items are cut from the list one behind the other, and each of them is one
value to the step. However often the next item is asked for, the items given and what is left are
the list, and once there is no further item the answer stays as it is.
-/

namespace Tether.Wire

/-- The bytes of one value as a step over it sees them. The tag says how the length is found; the
inside is not looked at. -/
def Tag.Extent (tag : Tag) (bytes : Bytes) : Prop :=
  match tag with
  | .unit | .boolTrue | .boolFalse | .optionNone => bytes = [tag.byte]
  | .uint => ∃ digits n, Varint.Denotes digits n ∧ bytes = tag.byte :: digits
  | .string | .bytes => ∃ data, tag.BlobForm Varint.Denotes data bytes
  | .list | .optionSome | .variant => ∃ body, tag.ContainerForm body bytes

namespace Decode

open Reader (left outcome)

variable {α : Type} {read : Decode α} {form : α → Bytes → Prop} {view items item rest : Bytes}

/-- What was read may be thrown away. -/
theorem Accepts.ignore (h : read.Accepts form) :
    Accepts (do let _ ← read : Decode Unit) fun _ bytes => ∃ a, form a bytes :=
  (h.map fun _ => ()).congr fun _ _ => by simp

/-- A step takes one extent from the front of its view. -/
theorem skip_eq_ok :
    skip view = .ok () rest ↔ ∃ tag front, Tag.Extent tag front ∧ view = front ++ rest := by
  constructor
  · intro stepped
    obtain ⟨tag, tail, rfl, stepped⟩ := peekTag_bind_eq_ok.mp stepped
    refine ⟨tag, ?_⟩
    cases tag with
    | unit | boolTrue | boolFalse | optionNone =>
      cases stepped
      exact ⟨_, rfl, rfl⟩
    | uint =>
      obtain ⟨⟨⟩, _, one, stepped⟩ := bind_eq_ok.mp stepped
      cases one
      obtain ⟨digits, ⟨n, denotes⟩, rfl⟩ := (accepts_varint.ignore _ _ _).mp stepped
      exact ⟨_ :: digits, ⟨digits, n, denotes, rfl⟩, rfl⟩
    | string | bytes => exact ((accepts_blob _).ignore _ _ _).mp stepped
    | list | optionSome | variant => exact ((accepts_container _).ignore _ _ _).mp stepped
  · rintro ⟨tag, front, extent, rfl⟩
    apply peekTag_bind_eq_ok.mpr
    cases tag with
    | unit | boolTrue | boolFalse | optionNone =>
      cases extent
      exact ⟨_, rest, rfl, rfl⟩
    | uint =>
      obtain ⟨digits, n, denotes, rfl⟩ := extent
      refine ⟨.uint, digits ++ rest, rfl, bind_eq_ok.mpr ⟨(), digits ++ rest, rfl, ?_⟩⟩
      exact (accepts_varint.ignore _ _ _).mpr ⟨digits, ⟨n, denotes⟩, rfl⟩
    | string | bytes =>
      have step := ((accepts_blob _).ignore _ rest ()).mpr ⟨front, extent, rfl⟩
      obtain ⟨data, length, denotes, rfl⟩ := extent
      exact ⟨_, _, rfl, step⟩
    | list | optionSome | variant =>
      have step := ((accepts_container _).ignore _ rest ()).mpr ⟨front, extent, rfl⟩
      obtain ⟨body, -, rfl⟩ := extent
      exact ⟨_, _, Tag.container_append _ _ _, step⟩

/-- A step takes the same bytes, whatever follows them. -/
theorem skip_eq_ok_iff_front :
    skip view = .ok () rest ↔ ∃ front, skip front = .ok () [] ∧ view = front ++ rest := by
  simp only [skip_eq_ok]
  constructor
  · rintro ⟨tag, front, extent, rfl⟩
    exact ⟨front, ⟨tag, front, extent, (List.append_nil _).symm⟩, rfl⟩
  · rintro ⟨_, ⟨tag, front, extent, rfl⟩, rfl⟩
    exact ⟨tag, front, extent, by rw [List.append_nil]⟩

theorem ne_nil_of_skip (stepped : skip item = .ok () rest) : item ≠ [] := by
  rintro rfl
  cases stepped

/-- The next item is one value to the step, and what is left is what follows it. -/
theorem nextItem_eq_some :
    nextItem items = .ok (some item) rest ↔ skip item = .ok () [] ∧ items = item ++ rest := by
  constructor
  · intro given
    have whole := eq_append_of_nextItem given
    unfold nextItem at given
    split at given
    · cases given
    · split at given
      · next behind stepped =>
        obtain ⟨front, alone, split⟩ := skip_eq_ok_iff_front.mp stepped
        cases given
        rw [split, List.length_append, Nat.add_sub_cancel, List.take_left, List.drop_left] at *
        exact ⟨alone, rfl⟩
      · cases given
  · rintro ⟨alone, rfl⟩
    exact nextItem_append (ne_nil_of_skip alone) (skip_eq_ok_iff_front.mpr ⟨item, alone, rfl⟩)

/-- A failing call leaves the list as it was, and there is something left of it. -/
theorem nextItem_eq_error {e : Error} (failed : nextItem items = .error e rest) :
    rest = items ∧ items ≠ [] := by
  unfold nextItem at failed
  split at failed
  · cases failed
  · split at failed
    · cases failed
    · cases failed
      exact ⟨rfl, List.cons_ne_nil _ _⟩

/-! ## Calls in a row -/

/-- The answers to so many calls for the next item in a row, failing or not, and what they leave. -/
def nexts : Nat → Bytes → List (Except Error (Option Bytes)) × Bytes
  | 0, items => ([], items)
  | n + 1, items =>
    let (answers, behind) := nexts n (left (nextItem items))
    (outcome (nextItem items) :: answers, behind)

/-- An answer that leaves the list as it was is given again. -/
theorem nexts_still (same : left (nextItem items) = items) (n : Nat) :
    nexts n items = (List.replicate n (outcome (nextItem items)), items) := by
  induction n with
  | zero => rfl
  | succ n ih =>
    rw [nexts, same, ih]
    rfl

/-- How the calls on a list go: the items that are given, what is left behind them, and the answer that
is given from then on. -/
structure Parted (body : Bytes) (items : List Bytes) (rest : Bytes)
    (last : Except Error (Option Bytes)) : Prop where
  whole : items.flatten ++ rest = body
  values : ∀ item ∈ items, item ≠ [] ∧ skip item = .ok () []
  ended : last = .ok none ∧ rest = [] ∨ ∃ e, last = .error e ∧ rest ≠ []
  answers : ∀ n, nexts n body =
    ((items.take n).map (fun item => .ok (some item)) ++ List.replicate (n - items.length) last,
      (items.drop n).flatten ++ rest)

theorem Parted.cons {body : Bytes} {later : List Bytes} {last : Except Error (Option Bytes)}
    (alone : skip item = .ok () []) (parted : Parted body later rest last) :
    Parted (item ++ body) (item :: later) rest last where
  whole := by rw [List.flatten_cons, List.append_assoc, parted.whole]
  values := List.forall_mem_cons.mpr ⟨⟨ne_nil_of_skip alone, alone⟩, parted.values⟩
  ended := parted.ended
  answers n := by
    have given : nextItem (item ++ body) = .ok (some item) body := nextItem_eq_some.mpr ⟨alone, rfl⟩
    cases n with
    | zero =>
      have := parted.whole
      simp [nexts, this]
    | succ n =>
      rw [nexts, given]
      simp [left, outcome, parted.answers n]

/-- Every list is parted by the calls. The induction is on its length: each item takes some of it. -/
theorem exists_parted (body : Bytes) : ∃ items rest last, Parted body items rest last := by
  induction length : body.length using Nat.strongRecOn generalizing body with
  | ind n ih =>
    cases given : nextItem body with
    | error e rest =>
      obtain ⟨rfl, filled⟩ := nextItem_eq_error given
      refine ⟨[], rest, .error e, rfl, nofun, .inr ⟨e, rfl, filled⟩, fun n => ?_⟩
      rw [nexts_still (by rw [given]; rfl), given]
      simp [outcome]
    | ok answer rest =>
      cases answer with
      | none =>
        obtain ⟨rfl, rfl⟩ := nextItem_eq_none.mp given
        refine ⟨[], [], .ok none, rfl, nofun, .inl ⟨rfl, rfl⟩, fun n => ?_⟩
        rw [nexts_still rfl]
        simp [outcome, given]
      | some item =>
        have shorter := nextItem_rest_length given
        obtain ⟨alone, rfl⟩ := nextItem_eq_some.mp given
        obtain ⟨later, end', last, parted⟩ := ih rest.length (length ▸ shorter) rest rfl
        exact ⟨item :: later, end', last, parted.cons alone⟩

/-- A list of filled byte strings is no longer than the bytes in them. -/
theorem length_le_length_flatten {parts : List Bytes} (filled : ∀ part ∈ parts, part ≠ []) :
    parts.length ≤ parts.flatten.length := by
  induction parts with
  | nil => exact Nat.le_refl 0
  | cons part parts ih =>
    obtain ⟨first, others⟩ := List.forall_mem_cons.mp filled
    have := List.length_pos_iff.mpr first
    have := ih others
    rw [List.flatten_cons, List.length_append, List.length_cons]
    omega

/-- The items part the list. Asked for its next item again and again, a list of any bytes gives at
most as many items as it has bytes, and then, for ever, either the answer that there is none or one and
the same error. The items, in order, and what is left behind them are the list; each item holds at least
one byte and is used up by the step over one value. The answer that there is none is given only when
nothing is left, and a call that fails leaves the list as it was. -/
theorem items_part_list (body : Bytes) :
    ∃ items rest last, items.length ≤ body.length ∧ Parted body items rest last := by
  obtain ⟨items, rest, last, parted⟩ := exists_parted body
  refine ⟨items, rest, last, ?_, parted⟩
  have filled := length_le_length_flatten fun item mem => (parted.values item mem).1
  rw [← parted.whole, List.length_append]
  exact Nat.le_add_right_of_le filled

end Decode

end Tether.Wire
