import Tether.Proofs.Wire.Building

/-!
# Calls that fail

A call on an encoder that fails should leave no trace. Two kinds of calls do leave one, and both fail
for a length that does not fit its field: the opening of a variant whose name is too long, which has
opened the variant by then, and the closing of a container whose body is too long, which has closed
it with a length field of zero. Every other call that fails leaves the encoder as it was.

The first kind does no harm to the lengths, for the variant can be filled and closed. The second
does: the bytes can be had as if nothing had happened, and they hold a length field of zero in front
of the body. So the bytes that an encoder gives are measured, each length field by the body behind it,
as long as no closing was answered that the body is too long.
-/

namespace Tether.Wire

/-! ## Measured bytes -/

/-- Whether a value is no container. -/
def Value.Plain : Value → Prop
  | .unit | .bool _ | .uint _ | .str _ | .bytes _ | .none => True
  | .some _ | .list _ | .variant _ _ => False

/-- Items one after the other, in which the length field of each container says how long its body is. -/
inductive Measured : Bytes → Prop where
  | nil : Measured []
  | item {front : Bytes} {v : Value} (before : Measured front) (plain : v.Plain) :
    Measured (front ++ v.encoding)
  | container {front field body : Bytes} {tag : Tag} (before : Measured front)
    (inside : Measured body) (wide : field.length = 4)
    (field_eq : Bytes.toLength field = body.length) :
    Measured (front ++ (tag.byte :: field ++ body))

theorem Measured.closed {front body : Bytes} (before : Measured front) (inside : Measured body)
    (short : body.length ≤ Bytes.maxLength) (tag : Tag) : Measured (front ++ tag.container body) :=
  .container before inside (Bytes.length_ofLength _) (Bytes.toLength_ofLength short)

/-- A variant opens with its name, which is an item as any other. -/
theorem Shape.measured_front (shape : Shape) : Measured shape.front := by
  cases shape with
  | list | option => exact .nil
  | variant name => exact .item (v := .str name) .nil trivial

/-! ## What a call does -/

namespace Encoder

/-- A call that fails halfway, with the encoder that it leaves and the length for which it fails. -/
inductive BreaksOff (enc : Encoder) : Call → Encoder → Nat → Prop where
  /-- The variant is open, and has no name. -/
  | name {text : String} (room : enc.HasRoom)
    (long : Bytes.maxLength < (Bytes.ofText text).length) :
    BreaksOff enc (.variantBegin text) (Encode.inside .variant [] enc) (Bytes.ofText text).length
  /-- The container is closed, and its length field says zero. -/
  | body {c : Call} {tag : Tag} {around : OpenScope} {outer : List OpenScope}
    (closes : c.act = .closes enc.top.scope) (tagged : enc.top.scope.tag? = some tag)
    (single : enc.top.scope.single = true → enc.top.count = 1)
    (nested : enc.outer = around :: outer) (long : Bytes.maxLength < enc.top.body.length) :
    BreaksOff enc c ⟨{ around with body := around.body ++ tag.unfilled enc.top.body }, outer⟩
      enc.top.body.length

/-- What a call does, and what it is answered. -/
inductive Did (enc : Encoder) (c : Call) : Encoder → Option Error → Prop where
  | refused {e : Error} (short : ∀ scope n, c.act = .closes scope → e ≠ .blobTooLarge n) :
    Did enc c enc (some e)
  | adds {v : Value} (plain : v.Plain) : Did enc c (enc.add v.encoding) none
  | opens (shape : Shape) : Did enc c (Encode.inside shape.scope shape.front enc) none
  | closes {tag : Tag} {around : OpenScope} {outer : List OpenScope}
    (nested : enc.outer = around :: outer) (short : enc.top.body.length ≤ Bytes.maxLength) :
    Did enc c ⟨{ around with body := around.body ++ tag.container enc.top.body }, outer⟩ none
  | breaksOff {enc' : Encoder} {n : Nat} (broken : enc.BreaksOff c enc' n) :
    Did enc c enc' (some (.blobTooLarge n))

variable {enc enc' : Encoder} {c : Call} {e : Error} {answer : Option Error} {n : Nat}

theorem call_of_ok (done : c.run enc = .ok () enc') : enc.call c = (enc', none) := by
  simp only [call, done]

theorem call_of_error (failed : c.run enc = .error e enc') : enc.call c = (enc', some e) := by
  simp only [call, failed]

theorem did_write {v : Value} (plain : v.Plain) (act : c.act = .item v) (run : c.run = v.write) :
    enc.Did c (enc.call c).1 (enc.call c).2 := by
  have other (e : Error) (scope : Scope) (n : Nat) (closes : c.act = .closes scope) :
      e ≠ .blobTooLarge n := by
    cases act.symm.trans closes
  by_cases fits : v.Fits
  · by_cases room : enc.HasRoom
    · have written := (Value.write_eq_ok v).mpr ⟨fits, room, rfl⟩
      rw [call_of_ok (run ▸ written)]
      exact .adds plain
    · rw [call_of_error (run ▸ Encode.write_full fits room)]
      exact .refused (other _)
  · have long : ∃ n, v.write enc = .error (.blobTooLarge n) enc := by
      cases v with
      | unit | bool | uint | none => exact absurd trivial fits
      | str | bytes => exact ⟨_, Encode.blob_long fits⟩
      | some | list | variant => exact plain.elim
    obtain ⟨n, long⟩ := long
    rw [call_of_error (run ▸ long)]
    exact .refused (other _)

theorem did_opening (shape : Shape) :
    enc.Did shape.opening (enc.call shape.opening).1 (enc.call shape.opening).2 := by
  by_cases room : enc.HasRoom
  · by_cases named : shape.NameFits
    · rw [call_of_ok (Shape.opening_eq_ok.mpr ⟨named, room, rfl⟩)]
      exact .opens shape
    · -- Only a name can be too long for an opening.
      cases shape with
      | list | option => exact absurd trivial named
      | variant name =>
        have broken : (Shape.opening (.variant name)).run enc = _ := Encode.variantBegin_long room named
        rw [call_of_error broken]
        exact .breaksOff (.name room (Nat.not_le.mp named))
  · rw [call_of_error (Shape.opening_full room)]
    exact .refused nofun

/-- A closing that is not refused closes the container, even if its body is too long. -/
theorem did_closing (scope : Scope) {tag : Tag} (act : c.act = .closes scope)
    (tagged : scope.tag? = some tag) (run : c.run = Encode.endScope scope tag) :
    enc.Did c (enc.call c).1 (enc.call c).2 := by
  have unclosed {e : Error} (failed : Encode.endScope scope tag enc = .error e enc)
      (short : ∀ n, e ≠ .blobTooLarge n) : enc.Did c (enc.call c).1 (enc.call c).2 := by
    rw [call_of_error (run ▸ failed)]
    exact .refused fun _ n _ => short n
  by_cases same : enc.top.scope = scope
  · subst same
    by_cases wrong : (enc.top.scope.single && enc.top.count ≠ 1) = true
    · refine unclosed (e := .notExactlyOne enc.top.scope) ?_ nofun
      simp only [Encode.endScope, ne_eq, not_true_eq_false, if_false, wrong, if_true]
    · have single : enc.top.scope.single = true → enc.top.count = 1 := by simpa using wrong
      cases nested : enc.outer with
      | nil =>
        refine unclosed (e := .scopeMismatch enc.top.scope enc.top.scope) ?_ nofun
        simp only [Encode.endScope, ne_eq, not_true_eq_false, if_false, wrong, nested,
          Bool.false_eq_true]
      | cons around outer =>
        have ended := @Encode.endScope_nested tag _ _ _ single nested
        by_cases short : enc.top.body.length ≤ Bytes.maxLength
        · rw [if_pos short] at ended
          rw [call_of_ok (run ▸ ended)]
          exact .closes nested short
        · rw [if_neg short] at ended
          rw [call_of_error (run ▸ ended)]
          exact .breaksOff (.body act tagged single nested (Nat.not_le.mp short))
  · exact unclosed (if_pos same) nofun

theorem did_call (enc : Encoder) (c : Call) : enc.Did c (enc.call c).1 (enc.call c).2 := by
  cases c with
  | unit => exact did_write (v := .unit) trivial rfl rfl
  | bool b => exact did_write (v := .bool b) trivial rfl rfl
  | uint n => exact did_write (v := .uint n) trivial rfl rfl
  | str text => exact did_write (v := .str text) trivial rfl rfl
  | bytes data => exact did_write (v := .bytes data) trivial rfl rfl
  | optionNone => exact did_write (v := .none) trivial rfl rfl
  | someBegin => exact did_opening .option
  | listBegin => exact did_opening .list
  | variantBegin name => exact did_opening (.variant name)
  | someEnd => exact did_closing .option rfl rfl rfl
  | listEnd => exact did_closing .list rfl rfl rfl
  | variantEnd => exact did_closing .variant rfl rfl rfl

/-! ## The calls that break off -/

theorem BreaksOff.changes (broken : enc.BreaksOff c enc' n) : enc' ≠ enc := by
  intro same
  have outer : enc'.outer.length = enc.outer.length := by rw [same]
  cases broken with
  | name room long => simp [Encode.inside] at outer
  | body closes tagged single nested long => simp [nested] at outer

theorem run_closing {scope : Scope} {tag : Tag} (closes : c.act = .closes scope)
    (tagged : scope.tag? = some tag) : c.run = Encode.endScope scope tag := by
  cases c <;> cases closes <;> cases tagged <;> rfl

theorem BreaksOff.call_eq (broken : enc.BreaksOff c enc' n) :
    enc.call c = (enc', some (.blobTooLarge n)) := by
  cases broken with
  | name room long => exact call_of_error (Encode.variantBegin_long room (Nat.not_le.mpr long))
  | body closes tagged single nested long =>
    refine call_of_error ?_
    rw [run_closing closes tagged, Encode.endScope_nested single nested, if_neg (Nat.not_le.mpr long)]

/-- A call that fails leaves the encoder as it was, unless it breaks off. -/
theorem changes_iff_breaksOff (failed : enc.call c = (enc', some e)) :
    enc' ≠ enc ↔ ∃ n, enc.BreaksOff c enc' n := by
  constructor
  · intro changes
    have did := enc.did_call c
    rw [failed] at did
    cases did with
    | refused => exact absurd rfl changes
    | breaksOff broken => exact ⟨_, broken⟩
  · rintro ⟨n, broken⟩
    exact broken.changes

/-! ## What becomes of the bytes -/

/-- Whether all that was written so far is measured. -/
def Measures (enc : Encoder) : Prop :=
  ∀ level ∈ enc.top :: enc.outer, Measured level.body

/-- Whether bytes stand somewhere in what was written so far. -/
def Bears (enc : Encoder) (bytes : Bytes) : Prop :=
  ∃ level ∈ enc.top :: enc.outer, bytes <:+: level.body

/-- Whether a call is a closing that is answered that the body is too long. -/
def Overfills (enc : Encoder) (c : Call) : Prop :=
  ∃ scope n, c.act = .closes scope ∧ (enc.call c).2 = some (.blobTooLarge n)

theorem measures_inside (measures : enc.Measures) (scope : Scope) {front : Bytes}
    (measured : Measured front) : (Encode.inside scope front enc).Measures := by
  intro level present
  simp only [Encode.inside, List.mem_cons] at present
  rcases present with rfl | rfl | present
  · exact measured
  · exact measures enc.top List.mem_cons_self
  · exact measures level (List.mem_cons_of_mem _ present)

theorem Did.measures (did : enc.Did c enc' answer) (measures : enc.Measures)
    (fits : ∀ scope n, c.act = .closes scope → answer ≠ some (.blobTooLarge n)) : enc'.Measures := by
  have top : Measured enc.top.body := measures enc.top List.mem_cons_self
  cases did with
  | refused => exact measures
  | adds plain =>
    intro level present
    rcases List.mem_cons.mp present with rfl | present
    · exact .item top plain
    · exact measures level (List.mem_cons_of_mem _ present)
  | opens shape => exact measures_inside measures shape.scope shape.measured_front
  | closes nested short =>
    rw [Measures, nested] at measures
    intro level present
    rcases List.mem_cons.mp present with rfl | present
    · exact (measures _ (by simp)).closed top short _
    · exact measures level (by simp [present])
  | breaksOff broken =>
    cases broken with
    | name => exact measures_inside measures .variant .nil
    | body closes => exact absurd rfl (fits _ _ closes)

theorem bears_inside {bytes : Bytes} (bears : enc.Bears bytes) (scope : Scope) (front : Bytes) :
    (Encode.inside scope front enc).Bears bytes := by
  obtain ⟨level, present, part⟩ := bears
  rcases List.mem_cons.mp present with rfl | present
  · exact ⟨{ enc.top with count := enc.top.count + 1 }, by simp [Encode.inside], part⟩
  · exact ⟨level, by simp [Encode.inside, present], part⟩

/-- What a container holds stands in the one around it when it is closed. -/
theorem bears_closed {bytes back : Bytes} {around : OpenScope} {outer : List OpenScope}
    (bears : enc.Bears bytes) (nested : enc.outer = around :: outer) (inside : enc.top.body <:+: back) :
    Bears ⟨{ around with body := around.body ++ back }, outer⟩ bytes := by
  obtain ⟨level, present, part⟩ := bears
  rw [nested] at present
  simp only [List.mem_cons] at present
  rcases present with rfl | rfl | present
  · exact ⟨_, List.mem_cons_self, (part.trans inside).trans (List.suffix_append _ _).isInfix⟩
  · exact ⟨_, List.mem_cons_self, part.trans (List.prefix_append _ _).isInfix⟩
  · exact ⟨level, List.mem_cons_of_mem _ present, part⟩

/-- What was written stays. -/
theorem Did.bears {bytes : Bytes} (did : enc.Did c enc' answer) (bears : enc.Bears bytes) :
    enc'.Bears bytes := by
  cases did with
  | refused => exact bears
  | adds =>
    obtain ⟨level, present, part⟩ := bears
    rcases List.mem_cons.mp present with rfl | present
    · exact ⟨_, List.mem_cons_self, part.trans (List.prefix_append _ _).isInfix⟩
    · exact ⟨level, List.mem_cons_of_mem _ present, part⟩
  | opens => exact bears_inside bears _ _
  | closes nested => exact bears_closed bears nested (List.suffix_append _ _).isInfix
  | breaksOff broken =>
    cases broken with
    | name => exact bears_inside bears _ _
    | body _ _ _ nested => exact bears_closed bears nested (List.suffix_append _ _).isInfix

/-- A body that is too long stands behind its unfilled length field from then on. -/
theorem Overfills.bears (overfills : enc.Overfills c) :
    ∃ tag : Tag, Bytes.maxLength < enc.top.body.length ∧
      (enc.call c).1.Bears (tag.unfilled enc.top.body) := by
  obtain ⟨scope, n, closes, answered⟩ := overfills
  have did := enc.did_call c
  rw [answered] at did
  generalize (enc.call c).1 = enc' at did
  cases did with
  | refused short => exact absurd rfl (short scope n closes)
  | breaksOff broken =>
    cases broken with
    | name => cases closes
    | @body _ tag _ _ _ _ _ _ long =>
      exact ⟨tag, long, _, List.mem_cons_self, (List.suffix_append _ _).isInfix⟩

/-! ## Whole runs -/

theorem measures_empty : empty.Measures := by
  intro level present
  rw [List.mem_singleton.mp present]
  exact .nil

theorem measures_calls {cs : List Call} (measures : enc.Measures)
    (fits : ∀ before c after, cs = before ++ c :: after → ¬(enc.calls before).1.Overfills c) :
    (enc.calls cs).1.Measures := by
  induction cs generalizing enc with
  | nil => exact measures
  | cons c cs ih =>
    refine ih ((enc.did_call c).measures measures fun scope n closes long => ?_)
      fun before c' after split => ?_
    · exact fits [] c cs rfl ⟨scope, n, closes, long⟩
    · exact fits (c :: before) c' after (congrArg (c :: ·) split)

theorem bears_calls {bytes : Bytes} (bears : enc.Bears bytes) (cs : List Call) :
    (enc.calls cs).1.Bears bytes := by
  induction cs generalizing enc with
  | nil => exact bears
  | cons c cs ih => exact ih ((enc.did_call c).bears bears)

theorem finish_eq_ok {bytes : Bytes} (done : enc.finish = .ok bytes) :
    enc.outer = [] ∧ enc.top.body = bytes := by
  unfold finish at done
  split at done
  · next closed => exact ⟨closed, Except.ok.inj done⟩
  · cases done

/-- Failing calls leave no trace, but for two kinds. Whatever the calls on a new encoder, a further
call that fails changes the encoder exactly if it breaks off: it opens a variant whose name is too
long, which is open then, or it closes a container whose body is too long, which is closed then behind
a length field of zero. Both are answered the length that did not fit. The bytes of the encoder are
measured as long as no closing was answered so; and if one was, the body that it closed stands in them
behind a length field of zero. -/
theorem failing_calls_leave_no_trace_but_two (cs : List Call) :
    let enc := (empty.calls cs).1
    (∀ c enc' e, enc.call c = (enc', some e) → (enc' ≠ enc ↔ ∃ n, enc.BreaksOff c enc' n)) ∧
      (∀ c enc' n, enc.BreaksOff c enc' n → enc.call c = (enc', some (.blobTooLarge n))) ∧
      ∀ bytes, enc.finish = .ok bytes →
        ((∀ before c after, cs = before ++ c :: after → ¬(empty.calls before).1.Overfills c) →
          Measured bytes) ∧
        ∀ before c after, cs = before ++ c :: after → (empty.calls before).1.Overfills c →
          let body := (empty.calls before).1.top.body
          ∃ tag : Tag, Bytes.maxLength < body.length ∧ tag.unfilled body <:+: bytes := by
  intro enc
  refine ⟨fun c enc' e failed => changes_iff_breaksOff failed, fun c enc' n broken => broken.call_eq,
    fun bytes done => ?_⟩
  obtain ⟨closed, rfl⟩ := finish_eq_ok done
  constructor
  · intro fits
    exact measures_calls measures_empty fits enc.top List.mem_cons_self
  · intro before c after split overfills
    obtain ⟨tag, long, bears⟩ := overfills.bears
    have run : (((empty.calls before).1.call c).1.calls after).1 = enc := by
      change _ = (empty.calls cs).1
      rw [split, calls_append]
      rfl
    obtain ⟨level, present, part⟩ := bears_calls bears after
    rw [run, closed] at present
    rw [List.mem_singleton.mp present] at part
    exact ⟨tag, long, part⟩

/-- An encoder in a list that holds one byte string. -/
theorem calls_bytes_in_list {data : Bytes} (short : data.length ≤ Bytes.maxLength) :
    (empty.calls [.listBegin, .bytes data]).1 =
      ⟨⟨.list, 1, Tag.bytes.blob data⟩, [⟨.root, 1, []⟩]⟩ := by
  have opened : empty.call .listBegin = (Encode.inside .list [] empty, none) := rfl
  have filled : (Encode.inside .list [] empty).call (.bytes data) =
      ((Encode.inside .list [] empty).add (Tag.bytes.blob data), none) :=
    call_of_ok (Encode.blob_eq_ok.mpr ⟨short, nofun, rfl⟩)
  simp only [calls, opened, filled]
  rfl

/-- The closing of a list around as many bytes as a byte string can have. It fails, and the bytes can
be had: a list of no length in front of all those bytes. -/
theorem failing_calls_leave_no_trace_but_two_long_list :
    let data := List.replicate Bytes.maxLength 0
    let enc := (empty.calls [.listBegin, .bytes data]).1
    let enc' : Encoder := ⟨⟨.root, 1, Tag.list.unfilled (Tag.bytes.blob data)⟩, []⟩
    enc.call .listEnd = (enc', some (.blobTooLarge (Tag.bytes.blob data).length)) ∧ enc' ≠ enc ∧
      enc'.finish = .ok (Tag.list.unfilled (Tag.bytes.blob data)) := by
  intro data enc enc'
  have length : data.length = Bytes.maxLength := List.length_replicate
  have inside : enc = ⟨⟨.list, 1, Tag.bytes.blob data⟩, [⟨.root, 1, []⟩]⟩ :=
    calls_bytes_in_list (Nat.le_of_eq length)
  have long : Bytes.maxLength < (Tag.bytes.blob data).length := by
    rw [Tag.length_blob, length]
    omega
  have broken : enc.BreaksOff .listEnd enc' (Tag.bytes.blob data).length := by
    rw [inside]
    exact @BreaksOff.body ⟨⟨.list, 1, _⟩, _⟩ .listEnd .list ⟨.root, 1, []⟩ [] rfl rfl (fun _ => rfl)
      rfl long
  obtain ⟨changes, answers, -⟩ := failing_calls_leave_no_trace_but_two [.listBegin, .bytes data]
  have answered := answers .listEnd enc' _ broken
  exact ⟨answered, (changes .listEnd enc' _ answered).mpr ⟨_, broken⟩, rfl⟩

end Encoder

end Tether.Wire
