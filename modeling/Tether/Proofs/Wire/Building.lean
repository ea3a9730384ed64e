import Tether.Proofs.Wire.Forest

/-!
# What an encoder builds

Any list of calls, with failing ones among them, builds trees: those that are complete, and the
containers that are still open. The builder below holds these trees and knows nothing of bytes or
lengths. It says which calls are refused and what the others build. The encoder is at every point
the image of the builder, unless a length did not fit its field. So its answers are those of the
builder, and its bytes are those of the trees.
-/

namespace Tether.Wire

/-! ## The builder -/

/-- The kinds of containers that can be opened. A variant has its name from the start. -/
inductive Shape where
  | list
  | option
  | variant (name : String)

namespace Shape

def scope : Shape → Scope
  | list => .list
  | option => .option
  | variant _ => .variant

/-- The value that a container is, if it may be closed over these items. -/
def close? : Shape → List Value → Option Value
  | list, items => some (.list items)
  | option, [v] => some (.some v)
  | variant name, [v] => some (.variant name v)
  | _, _ => none

end Shape

/-- What a call asks for: a value that is complete at once, or a container to be opened or closed. -/
inductive Act where
  | item (v : Value)
  | opens (shape : Shape)
  | closes (scope : Scope)

def Call.act : Call → Act
  | unit => .item .unit
  | bool b => .item (.bool b)
  | uint n => .item (.uint n)
  | str text => .item (.str text)
  | bytes data => .item (.bytes data)
  | optionNone => .item .none
  | someBegin => .opens .option
  | someEnd => .closes .option
  | listBegin => .opens .list
  | listEnd => .closes .list
  | variantBegin name => .opens (.variant name)
  | variantEnd => .closes .variant

/-- An open container with its complete items so far. -/
structure Branch where
  shape : Shape
  items : List Value

/-- Trees under construction: the complete ones, and the open containers, innermost first. -/
structure Builder where
  forest : List Value
  branches : List Branch

namespace Builder

def empty : Builder :=
  ⟨[], []⟩

/-- The kind of the innermost open container. -/
def scope (b : Builder) : Scope :=
  match b.branches with
  | [] => .root
  | branch :: _ => branch.shape.scope

/-- The items of the innermost open container. -/
def items (b : Builder) : List Value :=
  match b.branches with
  | [] => b.forest
  | branch :: _ => branch.items

/-- An option or a variant that holds an item takes no other. -/
def Full (b : Builder) : Prop :=
  b.scope.single = true ∧ 1 ≤ b.items.length

instance (b : Builder) : Decidable b.Full :=
  inferInstanceAs (Decidable (_ ∧ _))

/-- Puts a complete value behind the items of the innermost open container. -/
def add (b : Builder) (v : Value) : Builder :=
  match b.branches with
  | [] => { b with forest := b.forest ++ [v] }
  | branch :: around => { b with branches := { branch with items := branch.items ++ [v] } :: around }

/-- Why an act is refused, if it is. -/
def refusal? (b : Builder) : Act → Option Error
  | .item _ | .opens _ =>
    if b.Full then some (.notExactlyOne b.scope) else none
  | .closes scope =>
    if b.scope ≠ scope then some (.scopeMismatch scope b.scope)
    else if scope.single = true ∧ b.items.length ≠ 1 then some (.notExactlyOne scope)
    else none

/-- What an act builds. A container becomes an item of the one around it when it is closed. -/
def perform (b : Builder) : Act → Builder
  | .item v => b.add v
  | .opens shape => { b with branches := ⟨shape, []⟩ :: b.branches }
  | .closes _ =>
    match b.branches with
    | [] => b
    | branch :: around =>
      match branch.shape.close? branch.items with
      | none => b
      | some v => add { b with branches := around } v

/-- Makes one call: the builder after it, and its error if it was refused. -/
def call (b : Builder) (c : Call) : Builder × Option Error :=
  match b.refusal? c.act with
  | some e => (b, some e)
  | none => (b.perform c.act, none)

/-- Makes calls in turn, refused or not. -/
def calls (b : Builder) : List Call → Builder × List (Option Error)
  | [] => (b, [])
  | c :: rest =>
    let (b, e) := b.call c
    let (b, es) := b.calls rest
    (b, e :: es)

/-- Whether the innermost open container lets an act happen. -/
def Allows (b : Builder) : Act → Prop
  | .item _ | .opens _ => ¬(b.scope.single = true ∧ b.items.length = 1)
  | .closes scope => b.scope = scope ∧ (scope.single = true → b.items.length = 1)

end Builder

/-! ## The bytes of a container -/

namespace Shape

def tag : Shape → Tag
  | list => .list
  | option => .optionSome
  | variant _ => .variant

/-- What stands in the body of a container in front of its items. -/
def front : Shape → Bytes
  | list | option => []
  | variant name => Tag.string.blob (Bytes.ofText name)

/-- Whether the length of the name fits its field. -/
def NameFits : Shape → Prop
  | list | option => True
  | variant name => (Bytes.ofText name).length ≤ Bytes.maxLength

/-- The call that opens a container. -/
def opening : Shape → Call
  | list => .listBegin
  | option => .someBegin
  | variant name => .variantBegin name

/-- The call that closes a container. -/
def closing : Shape → Call
  | list => .listEnd
  | option => .someEnd
  | variant _ => .variantEnd

variable {shape : Shape} {items : List Value} {v : Value}

theorem exists_close? (single : shape.scope.single = true → items.length = 1) :
    ∃ v, shape.close? items = some v := by
  cases shape with
  | list => exact ⟨_, rfl⟩
  | option | variant =>
    obtain ⟨v, rfl⟩ := List.length_eq_one_iff.mp (single rfl)
    exact ⟨_, rfl⟩

theorem encoding_of_close? (closed : shape.close? items = some v) :
    v.encoding = shape.tag.container (shape.front ++ Value.encodings items) := by
  unfold close? at closed
  split at closed <;> cases closed
  · rfl
  · simp [Value.encoding, Value.encodings, tag, front]
  · simp [Value.encoding, Value.encodings, tag, front]

theorem fits_of_close? (closed : shape.close? items = some v) (named : shape.NameFits)
    (fit : Value.AllFit items)
    (short : (shape.front ++ Value.encodings items).length ≤ Bytes.maxLength) : v.Fits := by
  unfold close? at closed
  split at closed <;> cases closed
  · exact ⟨fit, short⟩
  · refine ⟨fit.1, ?_⟩
    simpa [Value.encodings, front] using short
  · refine ⟨⟨named, fit.1⟩, ?_⟩
    simpa [Value.encodings, front] using short

theorem calls_of_close? (closed : shape.close? items = some v) :
    v.calls = shape.opening :: Value.callsOfAll items ++ [shape.closing] := by
  unfold close? at closed
  split at closed <;> cases closed
  · rfl
  · simp [Value.calls, Value.callsOfAll, opening, closing]
  · simp [Value.calls, Value.callsOfAll, opening, closing]

end Shape

/-! ## What the encoder refuses -/

namespace Encode

variable {enc enc' : Encoder}

theorem beginItem_full (full : ¬enc.HasRoom) :
    beginItem enc = .error (.notExactlyOne enc.top.scope) enc := by
  unfold Encoder.HasRoom at full
  obtain ⟨single, filled⟩ := Classical.not_imp.mp full
  unfold beginItem
  rw [if_pos]
  simpa [single] using Nat.one_le_iff_ne_zero.mpr filled

/-- A value that fits is refused for want of room alone. -/
theorem write_full {v : Value} (fits : v.Fits) (full : ¬enc.HasRoom) :
    v.write enc = .error (.notExactlyOne enc.top.scope) enc := by
  have refused := beginItem_full full
  have blob_full {tag : Tag} {data : Bytes} (short : data.length ≤ Bytes.maxLength) :
      blob tag data enc = .error (.notExactlyOne enc.top.scope) enc := by
    unfold blob
    rw [if_neg (Nat.not_lt.mpr short)]
    exact bind_error refused
  cases v with
  | unit | bool | uint | none => exact bind_error refused
  | str | bytes => exact blob_full fits
  | some | list => exact bind_error (bind_error refused)
  | variant => exact bind_error (bind_error (bind_error refused))

end Encode

namespace Shape

variable {shape : Shape} {enc enc' : Encoder}

theorem opening_eq_ok : shape.opening.run enc = .ok () enc' ↔
    shape.NameFits ∧ enc.HasRoom ∧ Encode.inside shape.scope shape.front enc = enc' := by
  cases shape with
  | list | option => exact Encode.beginScope_eq_ok
  | variant => exact Encode.variantBegin_eq_ok

theorem opening_full (full : ¬enc.HasRoom) :
    shape.opening.run enc = .error (.notExactlyOne enc.top.scope) enc := by
  have refused := Encode.beginItem_full full
  cases shape with
  | list | option => exact Encode.bind_error refused
  | variant => exact Encode.bind_error (Encode.bind_error refused)

theorem opening_long (room : enc.HasRoom) (long : ¬shape.NameFits) :
    ∃ n enc', shape.opening.run enc = .error (.blobTooLarge n) enc' := by
  cases shape with
  | list | option => exact absurd trivial long
  | variant name => exact ⟨_, _, Encode.variantBegin_long room long⟩

end Shape

/-! ## The encoder of a builder -/

namespace Builder

/-- The encoder that holds these trees. An open container is counted in the one around it. -/
def encoderOf (forest : List Value) : List Branch → Encoder
  | [] => ⟨⟨.root, forest.length, Value.encodings forest⟩, []⟩
  | ⟨shape, items⟩ :: around =>
    let enc := encoderOf forest around
    ⟨⟨shape.scope, items.length, shape.front ++ Value.encodings items⟩,
      { enc.top with count := enc.top.count + 1 } :: enc.outer⟩

/-- The encoder that holds the trees of a builder. -/
def encoder (b : Builder) : Encoder :=
  encoderOf b.forest b.branches

variable {b : Builder}

theorem encoder_scope : b.encoder.top.scope = b.scope := by
  obtain ⟨forest, branches⟩ := b
  cases branches <;> rfl

theorem encoder_count : b.encoder.top.count = b.items.length := by
  obtain ⟨forest, branches⟩ := b
  cases branches <;> rfl

theorem hasRoom_encoder : b.encoder.HasRoom ↔ ¬b.Full := by
  rw [Encoder.HasRoom, encoder_scope, encoder_count]
  constructor
  · rintro room ⟨single, filled⟩
    have := room single
    omega
  · intro free single
    have : ¬1 ≤ b.items.length := fun filled => free ⟨single, filled⟩
    omega

theorem encoder_add (v : Value) : (b.add v).encoder = b.encoder.add v.encoding := by
  obtain ⟨forest, branches⟩ := b
  cases branches with
  | nil => simp [add, encoder, encoderOf, Encoder.add, Value.encodings_snoc]
  | cons branch around => simp [add, encoder, encoderOf, Encoder.add, Value.encodings_snoc]

theorem finish_encoder_open (opened : b.branches ≠ []) :
    b.encoder.finish = .error .scopeStillOpen := by
  obtain ⟨forest, branches⟩ := b
  cases branches with
  | nil => exact absurd rfl opened
  | cons => rfl

theorem finish_encoder_closed (closed : b.branches = []) :
    b.encoder.finish = .ok (Value.encodings b.forest) := by
  obtain ⟨forest, branches⟩ := b
  cases closed
  rfl

theorem encoder_opens (shape : Shape) :
    (b.perform (.opens shape)).encoder = Encode.inside shape.scope shape.front b.encoder := by
  simp [perform, encoder, encoderOf, Encode.inside, Value.encodings]

/-! ## One call -/

/-- What the encoder demands of the trees it holds: every length fits its field, and a container that
takes one item holds no more, and none while another container is open in it. -/
structure Sound (b : Builder) : Prop where
  forest : Value.AllFit b.forest
  names : ∀ branch ∈ b.branches, branch.shape.NameFits
  items : ∀ branch ∈ b.branches, Value.AllFit branch.items
  innermost : b.scope.single = true → b.items.length ≤ 1
  around : ∀ branch ∈ b.branches.tail, branch.shape.scope.single = true → branch.items = []

theorem sound_empty : empty.Sound where
  forest := trivial
  names := nofun
  items := nofun
  innermost := nofun
  around := nofun

theorem Sound.add {v : Value} (sound : b.Sound) (fits : v.Fits) (free : ¬b.Full) :
    (b.add v).Sound := by
  obtain ⟨forest, branches⟩ := b
  cases branches with
  | nil => exact ⟨sound.forest.snoc fits, nofun, nofun, nofun, nofun⟩
  | cons branch around =>
    refine ⟨sound.forest, ?_, ?_, ?_, sound.around⟩
    · intro other present
      cases present with
      | head => exact sound.names branch List.mem_cons_self
      | tail _ present => exact sound.names other (List.mem_cons_of_mem _ present)
    · intro other present
      cases present with
      | head => exact (sound.items branch List.mem_cons_self).snoc fits
      | tail _ present => exact sound.items other (List.mem_cons_of_mem _ present)
    · intro single
      have : ¬1 ≤ branch.items.length := fun filled => free ⟨single, filled⟩
      show (branch.items ++ [v]).length ≤ 1
      rw [List.length_append, List.length_singleton]
      omega

theorem Sound.opens {shape : Shape} (sound : b.Sound) (named : shape.NameFits) (free : ¬b.Full) :
    (b.perform (.opens shape)).Sound := by
  refine ⟨sound.forest, ?_, ?_, fun _ => Nat.zero_le 1, ?_⟩
  · intro branch present
    cases present with
    | head => exact named
    | tail _ present => exact sound.names branch present
  · intro branch present
    cases present with
    | head => exact trivial
    | tail _ present => exact sound.items branch present
  · intro branch present single
    obtain ⟨forest, branches⟩ := b
    cases present with
    | head =>
      have : ¬1 ≤ branch.items.length := fun filled => free ⟨single, filled⟩
      exact List.length_eq_zero_iff.mp (by omega)
    | tail _ present => exact sound.around branch present single

/-- What is around the innermost container has room for it, as an item. -/
theorem Sound.outer {forest : List Value} {branch : Branch} {around : List Branch}
    (sound : Builder.Sound ⟨forest, branch :: around⟩) :
    Builder.Sound ⟨forest, around⟩ ∧ ¬Builder.Full ⟨forest, around⟩ := by
  have free : ¬Builder.Full ⟨forest, around⟩ := by
    rintro ⟨single, filled⟩
    cases around with
    | nil => cases single
    | cons next around =>
      have none : next.items = [] := sound.around next List.mem_cons_self single
      have filled : 1 ≤ next.items.length := filled
      rw [none] at filled
      exact absurd filled (by decide)
  refine ⟨Sound.mk sound.forest ?_ ?_ ?_ ?_, free⟩
  · intro other present
    exact sound.names other (List.mem_cons_of_mem _ present)
  · intro other present
    exact sound.items other (List.mem_cons_of_mem _ present)
  · intro single
    have : ¬1 ≤ (Builder.items ⟨forest, around⟩).length := fun filled => free ⟨single, filled⟩
    omega
  · intro other present
    exact sound.around other (List.mem_of_mem_tail present)

/-- What an act comes to on the encoder of a builder: some length does not fit its field, or the act
is refused or performed as by the builder. -/
inductive Mirrors (b : Builder) (act : Act) : EStateM.Result Error Encoder Unit → Prop where
  | long (n : Nat) (enc : Encoder) : Mirrors b act (.error (.blobTooLarge n) enc)
  | refused {e : Error} (refusal : b.refusal? act = some e) : Mirrors b act (.error e b.encoder)
  | performed (allowed : b.refusal? act = none) (sound : (b.perform act).Sound) :
    Mirrors b act (.ok () (b.perform act).encoder)

/-- A complete value is written as one item. -/
theorem Sound.mirrors_item (sound : b.Sound) {v : Value}
    (settled : v.Fits ∨ ∃ n, v.write b.encoder = .error (.blobTooLarge n) b.encoder) :
    Mirrors b (.item v) (v.write b.encoder) := by
  obtain fits | ⟨n, long⟩ := settled
  · by_cases full : b.Full
    · have room : ¬b.encoder.HasRoom := fun room => hasRoom_encoder.mp room full
      rw [Encode.write_full fits room, encoder_scope]
      exact .refused (if_pos full)
    · have written := (Value.write_eq_ok v).mpr ⟨fits, hasRoom_encoder.mpr full, rfl⟩
      rw [written, ← encoder_add]
      exact .performed (if_neg full) (sound.add fits full)
  · rw [long]
    exact .long n _

theorem Sound.mirrors_blob (sound : b.Sound) {v : Value} {tag : Tag} {data : Bytes}
    (blob : v.write = Encode.blob tag data) (fits : data.length ≤ Bytes.maxLength → v.Fits) :
    Mirrors b (.item v) (v.write b.encoder) := by
  refine sound.mirrors_item ?_
  by_cases short : data.length ≤ Bytes.maxLength
  · exact .inl (fits short)
  · refine .inr ⟨data.length, ?_⟩
    rw [blob, Encode.blob_long short]

theorem Sound.mirrors_opens (sound : b.Sound) (shape : Shape) :
    Mirrors b (.opens shape) (shape.opening.run b.encoder) := by
  by_cases full : b.Full
  · have room : ¬b.encoder.HasRoom := fun room => hasRoom_encoder.mp room full
    rw [Shape.opening_full room, encoder_scope]
    exact .refused (if_pos full)
  · have room : b.encoder.HasRoom := hasRoom_encoder.mpr full
    by_cases named : shape.NameFits
    · have opened := Shape.opening_eq_ok.mpr ⟨named, room, rfl⟩
      rw [opened, ← encoder_opens]
      exact .performed (if_neg full) (sound.opens named full)
    · obtain ⟨n, enc, long⟩ := Shape.opening_long room named
      rw [long]
      exact .long n enc

/-- Closing what is not the innermost container, or does not hold the one item it should. -/
theorem endScope_refused {scope : Scope} {tag : Tag} {e : Error}
    (refusal : b.refusal? (.closes scope) = some e) :
    Encode.endScope scope tag b.encoder = .error e b.encoder := by
  change (if b.scope ≠ scope then some (.scopeMismatch scope b.scope)
    else if scope.single = true ∧ b.items.length ≠ 1 then some (.notExactlyOne scope)
    else none) = some e at refusal
  unfold Encode.endScope
  rw [encoder_scope, encoder_count]
  split at refusal
  · next other =>
    cases refusal
    exact if_pos other
  · next same =>
    split at refusal
    · next wrong =>
      cases refusal
      rw [if_neg same, if_pos (by simpa using wrong)]
    · cases refusal

theorem closes_allowed {scope : Scope} : b.refusal? (.closes scope) = none ↔
    b.scope = scope ∧ (scope.single = true → b.items.length = 1) := by
  show (if b.scope ≠ scope then some (Error.scopeMismatch scope b.scope)
    else if scope.single = true ∧ b.items.length ≠ 1 then some (.notExactlyOne scope)
    else none) = none ↔ _
  by_cases same : b.scope = scope
  · rw [if_neg (fun other => other same)]
    simp [same]
  · rw [if_pos same]
    exact ⟨nofun, fun allowed => absurd allowed.1 same⟩

/-- Closing the innermost container makes it an item of the one around it. -/
theorem perform_closes {forest items : List Value} {shape : Shape} {around : List Branch} {v : Value}
    {scope : Scope} (closed : shape.close? items = some v) :
    perform ⟨forest, ⟨shape, items⟩ :: around⟩ (.closes scope) = add ⟨forest, around⟩ v := by
  simp only [perform, closed]

theorem mirrors_close {forest items : List Value} {shape : Shape} {around : List Branch}
    (sound : Sound ⟨forest, ⟨shape, items⟩ :: around⟩)
    (allowed : refusal? ⟨forest, ⟨shape, items⟩ :: around⟩ (.closes shape.scope) = none) :
    Mirrors ⟨forest, ⟨shape, items⟩ :: around⟩ (.closes shape.scope)
      (Encode.endScope shape.scope shape.tag (encoder ⟨forest, ⟨shape, items⟩ :: around⟩)) := by
  have single : shape.scope.single = true → items.length = 1 := (closes_allowed.mp allowed).2
  have ended : Encode.endScope shape.scope shape.tag (encoder ⟨forest, ⟨shape, items⟩ :: around⟩) = _ :=
    @Encode.endScope_eq shape.scope shape.tag (encoder ⟨forest, around⟩) items.length
      (shape.front ++ Value.encodings items) single
  rw [ended]
  split
  · next short =>
    obtain ⟨v, closed⟩ := Shape.exists_close? single
    obtain ⟨outer, free⟩ := sound.outer
    have built := @perform_closes forest items shape around v shape.scope closed
    have fits : v.Fits := Shape.fits_of_close? closed (sound.names _ List.mem_cons_self)
      (sound.items _ List.mem_cons_self) short
    have sound' : (perform ⟨forest, ⟨shape, items⟩ :: around⟩ (.closes shape.scope)).Sound :=
      built ▸ outer.add fits free
    rw [← Shape.encoding_of_close? closed, ← encoder_add, ← built]
    exact .performed allowed sound'
  · exact .long _ _

theorem Sound.mirrors_closes (sound : b.Sound) {scope : Scope} {tag : Tag}
    (tagged : scope.tag? = some tag) :
    Mirrors b (.closes scope) (Encode.endScope scope tag b.encoder) := by
  cases refusal : b.refusal? (.closes scope) with
  | some e =>
    rw [endScope_refused refusal]
    exact .refused refusal
  | none =>
    obtain ⟨rfl, -⟩ := closes_allowed.mp refusal
    obtain ⟨forest, branches⟩ := b
    cases branches with
    | nil => cases tagged
    | cons branch around =>
      have same : branch.shape.tag = tag := by
        obtain ⟨shape, items⟩ := branch
        cases shape <;> exact Option.some.inj tagged
      rw [← same]
      exact mirrors_close sound refusal

/-- Each call comes to what its act comes to. -/
theorem Sound.mirrors_run (sound : b.Sound) (c : Call) : Mirrors b c.act (c.run b.encoder) := by
  cases c with
  | unit => exact sound.mirrors_item (v := .unit) (.inl trivial)
  | bool x => exact sound.mirrors_item (v := .bool x) (.inl trivial)
  | uint n => exact sound.mirrors_item (v := .uint n) (.inl trivial)
  | optionNone => exact sound.mirrors_item (v := .none) (.inl trivial)
  | str text => exact sound.mirrors_blob (v := .str text) rfl id
  | bytes data => exact sound.mirrors_blob (v := .bytes data) rfl id
  | listBegin => exact sound.mirrors_opens .list
  | someBegin => exact sound.mirrors_opens .option
  | variantBegin name => exact sound.mirrors_opens (.variant name)
  | listEnd => exact sound.mirrors_closes rfl
  | someEnd => exact sound.mirrors_closes rfl
  | variantEnd => exact sound.mirrors_closes rfl

theorem Sound.call (sound : b.Sound) {c : Call}
    (short : ∀ n, (b.encoder.call c).2 ≠ some (.blobTooLarge n)) :
    b.encoder.call c = ((b.call c).1.encoder, (b.call c).2) ∧ (b.call c).1.Sound := by
  have mirrors := sound.mirrors_run c
  unfold Encoder.call at short ⊢
  unfold Builder.call
  generalize c.run b.encoder = result at mirrors short
  cases mirrors with
  | long n enc => exact absurd rfl (short n)
  | refused refusal =>
    rw [refusal]
    exact ⟨rfl, sound⟩
  | performed allowed sound =>
    rw [allowed]
    exact ⟨rfl, sound⟩

/-! ## Whole runs -/

/-- The encoder goes through the same states as the builder. -/
theorem Sound.calls (sound : b.Sound) {cs : List Call}
    (short : ∀ n, some (.blobTooLarge n) ∉ (b.encoder.calls cs).2) :
    b.encoder.calls cs = ((b.calls cs).1.encoder, (b.calls cs).2) ∧ (b.calls cs).1.Sound := by
  induction cs generalizing b with
  | nil => exact ⟨rfl, sound⟩
  | cons c cs ih =>
    obtain ⟨first, sound⟩ := sound.call fun n long => short n (long ▸ List.mem_cons_self)
    have short : ∀ n, some (.blobTooLarge n) ∉ ((b.call c).1.encoder.calls cs).2 := by
      intro n long
      refine short n (List.mem_cons_of_mem _ ?_)
      show some _ ∈ ((b.encoder.call c).1.calls cs).2
      rwa [first]
    obtain ⟨others, sound⟩ := ih sound short
    refine ⟨?_, sound⟩
    simp only [Encoder.calls, Builder.calls, first, others]

/-- What is allowed is what is not refused. -/
theorem Sound.refusal?_eq_none (sound : b.Sound) {act : Act} :
    b.refusal? act = none ↔ b.Allows act := by
  have full_iff : b.Full ↔ b.scope.single = true ∧ b.items.length = 1 := by
    refine and_congr_right fun single => ?_
    have := sound.innermost single
    omega
  have free : (if b.Full then some (Error.notExactlyOne b.scope) else none) = none ↔
      ¬(b.scope.single = true ∧ b.items.length = 1) := by
    rw [← full_iff]
    by_cases full : b.Full <;> simp [full]
  cases act with
  | item | opens => exact free
  | closes => exact closes_allowed

/-! ## The calls of a tree -/

/-- The calls that build these trees. -/
def pathOf (forest : List Value) : List Branch → List Call
  | [] => Value.callsOfAll forest
  | ⟨shape, items⟩ :: around => pathOf forest around ++ shape.opening :: Value.callsOfAll items

/-- The calls that build the trees of a builder. -/
def path (b : Builder) : List Call :=
  pathOf b.forest b.branches

theorem path_closed (closed : b.branches = []) : b.path = Value.callsOfAll b.forest := by
  obtain ⟨forest, branches⟩ := b
  cases closed
  rfl

theorem path_add (v : Value) : (b.add v).path = b.path ++ v.calls := by
  obtain ⟨forest, branches⟩ := b
  cases branches with
  | nil => simp [add, path, pathOf, Value.callsOfAll_snoc]
  | cons branch around => simp [add, path, pathOf, Value.callsOfAll_snoc]

theorem path_closes {scope : Scope} (inside : scope ≠ .root)
    (allowed : b.refusal? (.closes scope) = none) :
    ∃ shape : Shape, shape.scope = scope ∧
      (b.perform (.closes scope)).path = b.path ++ [shape.closing] := by
  obtain ⟨rfl, single⟩ := closes_allowed.mp allowed
  obtain ⟨forest, branches⟩ := b
  cases branches with
  | nil => exact absurd rfl inside
  | cons branch around =>
    obtain ⟨shape, items⟩ := branch
    obtain ⟨v, closed⟩ : ∃ v, shape.close? items = some v := Shape.exists_close? single
    refine ⟨shape, rfl, ?_⟩
    rw [perform_closes closed, path_add, Shape.calls_of_close? closed]
    simp [path, pathOf]

theorem path_perform {c : Call} (allowed : b.refusal? c.act = none) :
    (b.perform c.act).path = b.path ++ [c] := by
  cases c with
  | unit | bool | uint | str | bytes | optionNone => exact path_add _
  | listBegin | someBegin | variantBegin => rfl
  | listEnd | someEnd | variantEnd =>
    obtain ⟨shape, same, path⟩ := path_closes (by decide) allowed
    cases shape <;> cases same
    exact path

end Builder

/-- The calls that were answered without an error. -/
def taken : List Call → List (Option Error) → List Call
  | c :: cs, none :: answers => c :: taken cs answers
  | _ :: cs, some _ :: answers => taken cs answers
  | _, _ => []

namespace Builder

theorem path_calls (b : Builder) (cs : List Call) :
    (b.calls cs).1.path = b.path ++ taken cs (b.calls cs).2 := by
  induction cs generalizing b with
  | nil => exact (List.append_nil _).symm
  | cons c cs ih =>
    show ((b.call c).1.calls cs).1.path = b.path ++ taken (c :: cs) ((b.call c).2 :: _)
    rw [ih]
    unfold call
    cases allowed : b.refusal? c.act with
    | some e => rfl
    | none =>
      show (b.perform c.act).path ++ _ = _
      rw [path_perform allowed, List.append_assoc]
      rfl

end Builder

namespace Encoder

theorem calls_append (enc : Encoder) (cs cs' : List Call) :
    enc.calls (cs ++ cs') =
      (((enc.calls cs).1.calls cs').1, (enc.calls cs).2 ++ ((enc.calls cs).1.calls cs').2) := by
  induction cs generalizing enc with
  | nil => rfl
  | cons c cs ih =>
    show (((enc.call c).1.calls (cs ++ cs')).1, _ :: ((enc.call c).1.calls (cs ++ cs')).2) = _
    rw [ih]
    rfl

/-- An encoder builds trees exactly. Whatever the calls on a new one, if none of them reports a length
that does not fit its field, each is answered as by the builder of trees, which refuses an item or an
opening exactly if the innermost container is an option or a variant that holds one item already, and
a closing exactly if the innermost container is of another kind or should hold one item and does not.
The bytes can be had exactly if nothing is open. They are then the encodings of the trees built, which
the generic reader finds in them; and these are the trees that the calls write that were not refused. -/
theorem calls_build_trees (cs : List Call)
    (short : ∀ n, some (.blobTooLarge n) ∉ (empty.calls cs).2) :
    let built := (Builder.empty.calls cs).1
    (empty.calls cs).2 = (Builder.empty.calls cs).2 ∧
      (∀ before c after, cs = before ++ c :: after →
        (((empty.calls before).1.call c).2 = none ↔ (Builder.empty.calls before).1.Allows c.act)) ∧
      (built.branches ≠ [] → (empty.calls cs).1.finish = .error .scopeStillOpen) ∧
      (built.branches = [] →
        (empty.calls cs).1.finish = .ok (Value.encodings built.forest) ∧
          Value.readForest (Value.encodings built.forest) = .ok built.forest ∧
          taken cs (empty.calls cs).2 = Value.callsOfAll built.forest) := by
  have mirrored : ∀ before after, cs = before ++ after →
      empty.calls before =
          ((Builder.empty.calls before).1.encoder, (Builder.empty.calls before).2) ∧
        (Builder.empty.calls before).1.Sound := by
    rintro before after rfl
    refine Builder.sound_empty.calls fun n long => short n ?_
    rw [calls_append]
    exact List.mem_append_left _ long
  obtain ⟨run, sound⟩ := mirrored cs [] (List.append_nil cs).symm
  refine ⟨congrArg Prod.snd run, ?_, ?_, ?_⟩
  · rintro before c after rfl
    obtain ⟨run, sound⟩ := mirrored before _ rfl
    have short' : ∀ n, ((Builder.empty.calls before).1.encoder.call c).2 ≠ some (.blobTooLarge n) := by
      intro n long
      refine short n ?_
      rw [calls_append, run]
      exact List.mem_append_right _ (long ▸ List.mem_cons_self)
    rw [run, (sound.call short').1, ← sound.refusal?_eq_none]
    unfold Builder.call
    cases (Builder.empty.calls before).1.refusal? c.act <;> simp
  · intro opened
    rw [run]
    exact Builder.finish_encoder_open opened
  · intro closed
    rw [run]
    refine ⟨Builder.finish_encoder_closed closed, Value.readForest_encodings sound.forest, ?_⟩
    rw [← Builder.path_closed closed]
    exact (Builder.path_calls .empty cs).symm

/-- Refused calls between the others leave no trace. -/
theorem calls_build_trees_refused :
    let cs : List Call := [.someBegin, .uint 7, .unit, .listEnd, .someEnd, .variantBegin "v", .variantEnd,
      .listBegin, .someEnd, .str "é", .listEnd, .bool true, .variantEnd, .variantEnd]
    let built := (Builder.empty.calls cs).1
    (∀ n, some (.blobTooLarge n) ∉ (empty.calls cs).2) ∧
      (empty.calls cs).2 = (Builder.empty.calls cs).2 ∧
      (∀ before c after, cs = before ++ c :: after →
        (((empty.calls before).1.call c).2 = none ↔ (Builder.empty.calls before).1.Allows c.act)) ∧
      (built.branches ≠ [] → (empty.calls cs).1.finish = .error .scopeStillOpen) ∧
      (built.branches = [] →
        (empty.calls cs).1.finish = .ok (Value.encodings built.forest) ∧
          Value.readForest (Value.encodings built.forest) = .ok built.forest ∧
          taken cs (empty.calls cs).2 = Value.callsOfAll built.forest) := by
  intro cs built
  have answers : (empty.calls cs).2 =
      [none, none, some (.notExactlyOne .option), some (.scopeMismatch .list .option), none,
        none, some (.notExactlyOne .variant), none, some (.scopeMismatch .option .list), none, none,
        some (.notExactlyOne .variant), none, some (.scopeMismatch .variant .root)] := by
    decide +kernel
  have short : ∀ n, some (.blobTooLarge n) ∉ (empty.calls cs).2 := by
    intro n
    simp [answers]
  exact ⟨short, calls_build_trees cs short⟩

end Encoder

end Tether.Wire
