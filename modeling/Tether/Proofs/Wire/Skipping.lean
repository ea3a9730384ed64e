import Tether.Proofs.Wire.Reading

/-!
# Stepping over a value and reading it

The items of a list are parted by stepping over values, while the values themselves are read by other
functions. The two cannot fall out of step: at a tag that a read accepts, the step takes the very part of
the view that the read takes, and all that the read does besides is to judge what is in it. So they break
off at the same places, for the same errors, and leave the same bytes.
-/

namespace Tether.Wire

/-- The reads of one value. -/
inductive Reader where
  | unit
  | bool
  | uint
  | str
  | bytes
  | option
  | list
  | variant
  deriving DecidableEq, Repr

namespace Reader

open Decode (skip)

/-- What a read gives. A container is given as the view of its inside. -/
def Result : Reader → Type
  | unit => Unit
  | bool => Bool
  | uint => UInt64
  | str => String
  | bytes => Bytes
  | option => Option Bytes
  | list => Bytes
  | variant => String × Bytes

def read : (r : Reader) → Decode r.Result
  | unit => Decode.unit
  | bool => Decode.bool
  | uint => Decode.uint
  | str => Decode.str
  | bytes => Decode.bytes
  | option => Decode.option
  | list => Decode.list
  | variant => Decode.variant

/-- The tags of the values that a read is for. -/
def tags : Reader → List Tag
  | unit => [.unit]
  | bool => [.boolTrue, .boolFalse]
  | uint => [.uint]
  | str => [.string]
  | bytes => [.bytes]
  | option => [.optionNone, .optionSome]
  | list => [.list]
  | variant => [.variant]

/-- The bytes that a read leaves, also one that fails. -/
def left {α : Type} : EStateM.Result Error Bytes α → Bytes
  | .ok _ rest | .error _ rest => rest

/-- What a read gives, or the error for which it fails. -/
def outcome {α : Type} : EStateM.Result Error Bytes α → Except Error α
  | .ok a _ => .ok a
  | .error e _ => .error e

/-- Whether a valid string stands at the front. -/
def StartsWithText (body : Bytes) : Prop :=
  ∃ text string tail,
    Tag.string.BlobForm Varint.Denotes (Bytes.ofText text) string ∧ body = string ++ tail

/-- A value that can be stepped over, but not read, and the error of reading it: a string that is not
valid, or a variant without a name. -/
def Spoils : Reader → Bytes → Error → Prop
  | str, value, e =>
    e = .invalidUtf8 ∧ ∃ data, Tag.string.BlobForm Varint.Denotes data value ∧
      ∀ text, Bytes.ofText text ≠ data
  | variant, value, e =>
    ∃ body, Tag.variant.ContainerForm body value ∧ ¬StartsWithText body ∧
      ∃ rest, Decode.str body = .error e rest
  | _, _, _ => False

/-! ## Parts of a view and their judgment -/

/-- The outcome of taking a part of a view and judging it. -/
def judged {α β : Type} (part : EStateM.Result Error Bytes β) (verdict : β → Except Error α) :
    EStateM.Result Error Bytes α :=
  match part with
  | .error e rest => .error e rest
  | .ok b rest =>
    match verdict b with
    | .ok a => .ok a rest
    | .error e => .error e rest

/-- A read takes the part of a view that the step takes, and refuses it if it is spoiled. -/
inductive Agrees (r : Reader) (view : Bytes) : Prop where
  | intro {β : Type} (part : EStateM.Result Error Bytes β) (verdict : β → Except Error r.Result)
    (step : skip view = judged part fun _ => .ok ()) (read : r.read view = judged part verdict)
    (refuses : ∀ b rest e, part = .ok b rest →
      (verdict b = .error e ↔ ∃ value, view = value ++ rest ∧ r.Spoils value e))

variable {α β : Type} {r : Reader} {tag expected : Tag} {view tail : Bytes}

theorem judged_pure (x : Decode β) (f : β → α) (view : Bytes) :
    (x >>= fun b => pure (f b)) view = judged (x view) fun b => .ok (f b) := by
  cases taken : x view <;> simp [bind, EStateM.bind, pure, EStateM.pure, judged, taken]

theorem peekTag_bind (next : Tag → Decode α) (tag : Tag) (tail : Bytes) :
    (Decode.peekTag >>= next) (tag.byte :: tail) = next tag (tag.byte :: tail) := by
  simp [bind, EStateM.bind, Decode.peekTag_cons]

theorem expectTag_other (other : tag ≠ expected) (tail : Bytes) :
    Decode.expectTag expected (tag.byte :: tail) = .error (.invalidTag tag.byte) (tag.byte :: tail) := by
  rw [Decode.expectTag, peekTag_bind, if_neg other]
  rfl

theorem bind_of_error {x : Decode β} {e : Error} {rest : Bytes} (failed : x view = .error e rest)
    (next : β → Decode α) : (x >>= next) view = .error e rest := by
  simp [bind, EStateM.bind, failed]

theorem bind_of_ok {x : Decode β} {b : β} {rest : Bytes} (taken : x view = .ok b rest)
    (next : β → Decode α) : (x >>= next) view = next b rest := by
  simp [bind, EStateM.bind, taken]

/-- A read that judges nothing agrees, since nothing of its kind is spoiled. -/
theorem Agrees.of_making (sound : ∀ value e, ¬r.Spoils value e) (x : Decode β) (make : β → r.Result)
    (tail : Bytes) (step : skip view = (x >>= fun _ => pure ()) tail)
    (read : r.read view = (x >>= fun b => pure (make b)) tail) : r.Agrees view := by
  refine .intro (x tail) (fun b => .ok (make b)) (step.trans (judged_pure x (fun _ => ()) tail))
    (read.trans (judged_pure x make tail)) fun b rest e _ => ⟨nofun, ?_⟩
  rintro ⟨value, -, spoils⟩
  exact absurd spoils (sound value e)

/-! ## Reader by reader -/

theorem startsWithText_iff {body : Bytes} :
    StartsWithText body ↔ ∃ text tail, Decode.str body = .ok text tail := by
  constructor
  · rintro ⟨text, string, tail, shape, rfl⟩
    exact ⟨text, tail, (Decode.accepts_str _ _ _).mpr ⟨string, shape, rfl⟩⟩
  · rintro ⟨text, tail, given⟩
    obtain ⟨string, shape, rfl⟩ := (Decode.accepts_str _ _ _).mp given
    exact ⟨text, string, tail, shape, rfl⟩

/-- A blob is refused if no text has its bytes. -/
theorem agrees_str (tail : Bytes) : Reader.str.Agrees (Tag.string.byte :: tail) := by
  refine .intro (Decode.blob .string (Tag.string.byte :: tail))
    (fun data => (Bytes.toText? data).elim (.error .invalidUtf8) .ok) ?_ ?_ fun data rest e taken => ?_
  · rw [skip, peekTag_bind]
    exact judged_pure (Decode.blob .string) (fun _ => ()) _
  · change (Decode.blob .string >>= Decode.text) _ = _
    cases taken : Decode.blob .string (Tag.string.byte :: tail) with
    | error e rest => exact bind_of_error taken _
    | ok data rest =>
      rw [bind_of_ok taken]
      unfold Decode.text
      cases valid : Bytes.toText? data <;> simp only [judged, valid] <;> rfl
  · have invalid : (∀ text, Bytes.ofText text ≠ data) ↔ Bytes.toText? data = none := by
      simp only [Option.eq_none_iff_forall_ne_some, ne_eq, Bytes.toText?_eq_some]
    obtain ⟨value, shape, whole⟩ := (Decode.accepts_blob .string _ _ _).mp taken
    constructor
    · intro refused
      cases none' : Bytes.toText? data with
      | some text =>
        rw [none'] at refused
        cases refused
      | none =>
        rw [none'] at refused
        cases refused
        exact ⟨value, whole, rfl, data, shape, invalid.mpr none'⟩
    · rintro ⟨value', whole', rfl, data', shape', spoilt⟩
      have taken' := (Decode.accepts_blob .string _ _ _).mpr ⟨value', shape', whole'⟩
      cases taken.symm.trans taken'
      rw [invalid.mp spoilt]
      rfl

theorem outcome_named {body : Bytes} {e : Error} :
    outcome (Decode.named body body) = .error e ↔ ∃ rest, Decode.str body = .error e rest := by
  unfold Decode.named
  cases Decode.str body with
  | ok name rest =>
    constructor
    · intro same
      cases same
    · rintro ⟨rest', same⟩
      cases same
  | error e' rest =>
    constructor
    · intro same
      cases same
      exact ⟨rest, rfl⟩
    · rintro ⟨rest', same⟩
      cases same
      rfl

/-- A variant is refused if no name can be read from its body. -/
theorem agrees_variant (tail : Bytes) : Reader.variant.Agrees (Tag.variant.byte :: tail) := by
  refine .intro (Decode.container .variant (Tag.variant.byte :: tail))
    (fun body => outcome (Decode.named body body)) ?_ ?_ fun body rest e taken => ?_
  · rw [skip, peekTag_bind]
    exact judged_pure (Decode.container .variant) (fun _ => ()) _
  · change (Decode.container .variant >>= Decode.named) _ = _
    cases taken : Decode.container .variant (Tag.variant.byte :: tail) with
    | error e rest => exact bind_of_error taken _
    | ok body rest =>
      rw [bind_of_ok taken]
      unfold Decode.named
      cases named : Decode.str body <;> simp only [judged, named] <;> rfl
  · obtain ⟨value, shape, whole⟩ := (Decode.accepts_container .variant _ _ _).mp taken
    refine outcome_named.trans ⟨?_, ?_⟩
    · rintro ⟨rest', refused⟩
      refine ⟨value, whole, body, shape, fun starts => ?_, rest', refused⟩
      obtain ⟨text, tail', given⟩ := startsWithText_iff.mp starts
      cases refused.symm.trans given
    · rintro ⟨value', whole', body', shape', -, refused⟩
      have taken' := (Decode.accepts_container .variant _ _ _).mpr ⟨value', shape', whole'⟩
      cases taken.symm.trans taken'
      exact refused

/-- At a tag that a read accepts, it agrees with the step. The readers that judge nothing are told from
the step by what they make of the part that both take. -/
theorem agrees (accepted : tag ∈ r.tags) (tail : Bytes) : r.Agrees (tag.byte :: tail) := by
  cases r with
  | unit =>
    obtain rfl := List.mem_singleton.mp accepted
    exact .of_making (fun _ _ => id) Decode.skipByte id (Tag.unit.byte :: tail) rfl rfl
  | bool =>
    obtain rfl | rfl : tag = .boolTrue ∨ tag = .boolFalse := by simpa [tags] using accepted
    · exact .of_making (fun _ _ => id) Decode.skipByte (fun _ => true) (Tag.boolTrue.byte :: tail) rfl rfl
    · exact .of_making (fun _ _ => id) Decode.skipByte (fun _ => false) (Tag.boolFalse.byte :: tail) rfl rfl
  | uint =>
    obtain rfl := List.mem_singleton.mp accepted
    exact .of_making (fun _ _ => id) Decode.varint UInt64.ofNat tail rfl rfl
  | str =>
    obtain rfl := List.mem_singleton.mp accepted
    exact agrees_str tail
  | bytes =>
    obtain rfl := List.mem_singleton.mp accepted
    exact .of_making (fun _ _ => id) (Decode.blob .bytes) id _ rfl (congrFun (bind_pure _).symm _)
  | option =>
    obtain rfl | rfl : tag = .optionNone ∨ tag = .optionSome := by simpa [tags] using accepted
    · exact .of_making (fun _ _ => id) Decode.skipByte (fun _ => none) (Tag.optionNone.byte :: tail) rfl rfl
    · exact .of_making (fun _ _ => id) (Decode.container .optionSome) some _ rfl rfl
  | list =>
    obtain rfl := List.mem_singleton.mp accepted
    exact .of_making (fun _ _ => id) (Decode.container .list) id _ rfl (congrFun (bind_pure _).symm _)
  | variant =>
    obtain rfl := List.mem_singleton.mp accepted
    exact agrees_variant tail

/-! ## Where a read does not begin -/

/-- Every read, and the step, looks at the tag first. -/
theorem read_of_peekTag_error {e : Error} {rest : Bytes}
    (none' : Decode.peekTag view = .error e rest) (r : Reader) : r.read view = .error e rest := by
  have expected (tag : Tag) : Decode.expectTag tag view = .error e rest := bind_of_error none' _
  cases r with
  | unit => exact expected .unit
  | bool | option => exact bind_of_error none' _
  | uint => exact bind_of_error (expected .uint) _
  | str => exact bind_of_error (bind_of_error (expected .string) _) _
  | bytes => exact bind_of_error (expected .bytes) _
  | list => exact bind_of_error (expected .list) _
  | variant => exact bind_of_error (bind_of_error (expected .variant) _) _

/-- A tag of other values is reported and left in place. -/
theorem read_other (other : tag ∉ r.tags) (tail : Bytes) :
    r.read (tag.byte :: tail) = .error (.invalidTag tag.byte) (tag.byte :: tail) := by
  have unexpected {expected : Tag} (only : r.tags = [expected]) :
      Decode.expectTag expected (tag.byte :: tail) =
        .error (.invalidTag tag.byte) (tag.byte :: tail) :=
    expectTag_other (fun same => other (only ▸ List.mem_singleton.mpr same)) tail
  cases r with
  | unit => exact unexpected rfl
  | bool =>
    change (Decode.peekTag >>= _) _ = _
    rw [peekTag_bind]
    cases tag <;> first | rfl | exact absurd (by decide) other
  | option =>
    change (Decode.peekTag >>= _) _ = _
    rw [peekTag_bind]
    cases tag <;> first | rfl | exact absurd (by decide) other
  | uint => exact bind_of_error (unexpected rfl) _
  | str => exact bind_of_error (bind_of_error (unexpected rfl) _) _
  | bytes => exact bind_of_error (unexpected rfl) _
  | list => exact bind_of_error (unexpected rfl) _
  | variant => exact bind_of_error (bind_of_error (unexpected rfl) _) _

theorem peekTag_of_no_tag (noTag : ∀ tag tail, view ≠ Tag.byte tag :: tail) :
    ∃ e, Decode.peekTag view = .error e view := by
  unfold Decode.peekTag
  split
  · exact ⟨_, rfl⟩
  · next b tail =>
    cases known : Tag.ofByte? b with
    | none => exact ⟨_, rfl⟩
    | some tag => exact absurd (Tag.byte_of_ofByte? known ▸ rfl) (noTag tag tail)

/-- Reads keep step. At a tag that a read accepts, the read and the step over the value leave the same
bytes, whether they succeed or fail. If the read succeeds, so does the step; if the step fails, the read
fails with the same error. Where the step succeeds, the read fails if and only if the value stepped over
is a string of invalid bytes, or a variant whose body does not start with a valid string. At a tag of
other values a read fails with it and consumes nothing, and where there is no tag at all, neither does
anything and both fail with the same error. -/
theorem reads_keep_step (r : Reader) (view : Bytes) :
    (∀ tag tail, view = Tag.byte tag :: tail →
      (tag ∈ r.tags →
        left (r.read view) = left (skip view) ∧
        (∀ a rest, r.read view = .ok a rest → skip view = .ok () rest) ∧
        (∀ e rest, skip view = .error e rest → r.read view = .error e rest) ∧
        ∀ e rest, skip view = .ok () rest →
          (r.read view = .error e rest ↔ ∃ value, view = value ++ rest ∧ r.Spoils value e)) ∧
      (tag ∉ r.tags → r.read view = .error (.invalidTag tag.byte) view)) ∧
    ((∀ tag tail, view ≠ Tag.byte tag :: tail) →
      ∃ e, skip view = .error e view ∧ r.read view = .error e view) := by
  refine ⟨?_, fun noTag => ?_⟩
  · rintro tag tail rfl
    refine ⟨fun accepted => ?_, fun other => read_other other tail⟩
    obtain ⟨part, verdict, step, read, refuses⟩ := agrees accepted tail
    rw [step, read]
    cases part with
    | error e rest =>
      refine ⟨rfl, nofun, fun _ _ failed => ?_, nofun⟩
      cases failed
      rfl
    | ok b rest =>
      have spoils := refuses b rest
      cases given : verdict b with
      | ok a =>
        simp only [judged, given]
        refine ⟨rfl, fun _ _ same => ?_, nofun, fun e _ same => ?_⟩
        · cases same
          rfl
        · cases same
          rw [← spoils e rfl, given]
          exact ⟨nofun, nofun⟩
      | error e =>
        simp only [judged, given]
        refine ⟨rfl, nofun, nofun, fun e' _ same => ?_⟩
        cases same
        rw [← spoils e' rfl, given]
        simp
  · obtain ⟨e, none'⟩ := peekTag_of_no_tag noTag
    exact ⟨e, bind_of_error none' _, read_of_peekTag_error none' r⟩

/-- A string of bytes that are no text is stepped over, and its read leaves what follows too. -/
example : skip [0x10, 1, 0xff, 0x01] = .ok () [0x01] ∧
    Reader.str.read [0x10, 1, 0xff, 0x01] = .error .invalidUtf8 [0x01] :=
  ⟨rfl, by cbv⟩

end Reader

end Tether.Wire
