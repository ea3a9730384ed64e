import Tether.Codec.Values
import Tether.Proofs.Stream.Alone
import Tether.Proofs.Wire.Forest
import Tether.Proofs.Wire.Typed

/-!
# Two users of a stream of values

The runs that the law of value streams is about. Two users exchange values over a stream whose links fail.
Each write and each read goes through the codec; everything else that can happen to the two ends and to the
links may happen in between. A write that waits is tried again, any number of times.

Each user keeps an account of the values written and of the reads answered. `Keeps` ties it to the end of the
stream: the chunks written there are those of the values, and each answer is what the stream gave, unpacked
as the type asked for.
-/

namespace Tether

open Link (Side)

namespace Codec

/-! ## Values -/

/-- A value of one of the types. -/
structure Item where
  ty : Wire.Ty
  value : ty.Val

namespace Item

/-- The chunk of a value. -/
def packed (x : Item) : Except Wire.Error Bytes :=
  Wire.packed x.ty x.value

def tree (x : Item) : Wire.Value :=
  x.ty.value x.value

/-- What a read answers to which the value falls: its bytes as a value of the type asked for, if they are
one. -/
def readAs (x : Item) (ty : Wire.Ty) : Except Error (Option ty.Val) :=
  match x.packed >>= Wire.unpacked ty with
  | .ok v => .ok (some v)
  | .error e => .error (.pack e)

variable {x : Item} {chunk : Bytes}

theorem packed_eq_ok : x.packed = .ok chunk ↔ x.tree.Fits ∧ x.tree.encoding = chunk := by
  rw [packed, Wire.packed, Wire.Ty.pack_eq_write, Wire.Value.run_write_eq_ok]
  rfl

theorem write?_of_ok (packed : x.packed = .ok chunk) (s : Stream.Endpoint) :
    write? s x.ty x.value = (s.write? chunk).map fun (s, r) => (s, r.mapError .stream) := by
  unfold write?
  rw [show Wire.packed x.ty x.value = .ok chunk from packed]

theorem write?_of_error {e : Wire.Error} (refused : x.packed = .error e) (s : Stream.Endpoint) :
    write? s x.ty x.value = some (s, .error (.pack e)) := by
  unfold write?
  rw [show Wire.packed x.ty x.value = .error e from refused]

/-- No chunk of a value is taken for the end marker. -/
theorem ne_nil_of_packed (packed : x.packed = .ok chunk) : chunk ≠ [] := by
  obtain ⟨fits, rfl⟩ := packed_eq_ok.mp packed
  obtain ⟨byte, tail, same⟩ := Wire.Value.exists_cons_of_form (Wire.Value.denotes_encoding fits)
  rw [same]
  exact List.cons_ne_nil byte tail

theorem readAs_of_packed (packed : x.packed = .ok chunk) (ty : Wire.Ty) :
    x.readAs ty = ofRead (Wire.unpacked ty) (.ok (some chunk)) := by
  have decoded : x.packed >>= Wire.unpacked ty = Wire.unpacked ty chunk := by
    rw [packed]
    rfl
  cases unpacked : Wire.unpacked ty chunk <;> simp only [readAs, ofRead, decoded, unpacked]

/-- The bytes of a value are taken for a value of another type just if both have the same tree. -/
theorem readAs_eq_ok (packed : x.packed = .ok chunk) {ty : Wire.Ty} {v : ty.Val} :
    x.readAs ty = .ok (some v) ↔ ty.value v = x.tree := by
  obtain ⟨fits, rfl⟩ := packed_eq_ok.mp packed
  have shape : x.tree.Form Wire.Varint.Denotes x.tree.encoding := Wire.Value.denotes_encoding fits
  have unpacks : Wire.unpacked ty x.tree.encoding = .ok v ↔
      (ty.value v).Form Wire.Varint.Denotes x.tree.encoding := ty.accepts_unpack.whole_eq_ok
  have reads : x.readAs ty = .ok (some v) ↔ Wire.unpacked ty x.tree.encoding = .ok v := by
    rw [readAs_of_packed packed, ofRead]
    cases Wire.unpacked ty x.tree.encoding <;> simp
  rw [reads, unpacks]
  constructor
  · intro shape'
    rw [← List.append_nil x.tree.encoding] at shape'
    exact (Wire.Value.eq_of_form shape shape').1.symm
  · intro same
    rw [same]
    exact shape

theorem exists_error_of_readAs {ty : Wire.Ty} (other : ∀ v, x.readAs ty ≠ .ok (some v)) :
    ∃ e, x.readAs ty = .error (.pack e) := by
  unfold readAs at other ⊢
  split
  · next v read =>
    rw [read] at other
    exact absurd rfl (other v)
  · next e read => exact ⟨e, rfl⟩

end Item

/-! ## Runs -/

/-- A read that was answered, with the type that it asked for. -/
structure Reading where
  ty : Wire.Ty
  answer : Except Error (Option ty.Val)

/-- What a user has exchanged. -/
structure Account where
  /-- The values written, in the order in which their writes answered. -/
  wrote : List Item := []
  reads : List Reading := []

/-- The account after a write, if it is taken. -/
def Account.write (a : Account) (x : Item) : Option (Except Error Unit) → Account
  | some (.ok ()) => { a with wrote := a.wrote ++ [x] }
  | some (.error _) | none => a

/-- The account after a read, if it is answered. -/
def Account.read (a : Account) (ty : Wire.Ty) : Option (Except Error (Option ty.Val)) → Account
  | some answer => { a with reads := a.reads ++ [⟨ty, answer⟩] }
  | none => a

/-- Two ends of a stream, and the account of the user of each. -/
structure Trade where
  duplex : Stream.Duplex
  account : Side → Account := fun _ => {}

namespace Trade

inductive Act where
  /-- The user tries a write of a value, a new one or one that waits for room. -/
  | write (x : Item)
  /-- The user reads a value of a type. -/
  | read (ty : Wire.Ty)
  /-- What can happen to the end of a stream besides. -/
  | other (act : Stream.Duplex.Act)

abbrev Event := Side × Act

def setAccount (t : Trade) (side : Side) (a : Account) : Trade :=
  { t with account := fun s => if s = side then a else t.account s }

/-- The two ends after a write. A value that cannot be packed does not reach the stream. -/
def written (t : Trade) (side : Side) (x : Item) : Stream.Duplex :=
  match x.packed with
  | .ok chunk => t.duplex.step (side, .write chunk)
  | .error _ => t.duplex

/-- One event of a run. One that cannot happen changes nothing. -/
def step (t : Trade) : Event → Trade
  | (side, act) =>
    let s := (t.duplex.party side).stream
    let a := t.account side
    match act with
    | .write x =>
      { t with duplex := t.written side x }.setAccount side
        (a.write x ((write? s x.ty x.value).map Prod.snd))
    | .read ty =>
      { t with duplex := t.duplex.step (side, .read) }.setAccount side
        (a.read ty ((read? s ty).map Prod.snd))
    | .other act => if act.carries then t else { t with duplex := t.duplex.step (side, act) }

/-- Two new ends, each with its own settings, before any link. -/
def start (id : Chain.Id) (near far : Config) : Trade where
  duplex := .start id near far

/-- The ends after a run. -/
def run (t : Trade) (events : List Event) : Trade :=
  events.foldl step t

/-- What one event keeps holds after every run. -/
theorem run_induction {P : Trade → Prop} {t : Trade} (start : P t)
    (step : ∀ t event, P t → P (t.step event)) (events : List Event) : P (t.run events) :=
  List.foldlRecOn events Trade.step start fun t held event _ => step t event held

variable {t : Trade} {side s : Side} {a : Account}

@[simp]
theorem account_setAccount (t : Trade) (side : Side) (a : Account) :
    (t.setAccount side a).account side = a :=
  if_pos rfl

theorem account_setAccount_of_ne (other : s ≠ side) : (t.setAccount side a).account s = t.account s :=
  if_neg other

@[simp]
theorem duplex_setAccount (t : Trade) (side : Side) (a : Account) :
    (t.setAccount side a).duplex = t.duplex :=
  rfl

/-- A write leaves the stream as the codec does. -/
theorem stream_write (t : Trade) (side : Side) (x : Item) :
    ((t.step (side, .write x)).duplex.party side).stream =
      ((write? (t.duplex.party side).stream x.ty x.value).map Prod.fst).getD
        (t.duplex.party side).stream := by
  simp only [step, duplex_setAccount, written]
  cases packed : x.packed with
  | error e =>
    rw [x.write?_of_error packed]
    rfl
  | ok chunk =>
    rw [x.write?_of_ok packed]
    simp only [Stream.Duplex.step, Stream.Duplex.party_setParty, Stream.Party.write]
    split <;> next same => rw [same]; rfl

/-- A read leaves the stream as the codec does. -/
theorem stream_read (t : Trade) (side : Side) (ty : Wire.Ty) :
    ((t.step (side, .read ty)).duplex.party side).stream =
      ((read? (t.duplex.party side).stream ty).map Prod.fst).getD (t.duplex.party side).stream := by
  simp only [step, duplex_setAccount, Stream.Duplex.step, Stream.Duplex.party_setParty, Stream.Party.read,
    read?]
  split <;> next given =>
    simp only [given, Option.map_some, Option.map_none, Option.getD_some, Option.getD_none]

/-! ## What the accounts say of the ends -/

/-- An end is as the account of its user says: the chunks written are those of the values, and the reads
were answered with what the stream gave, unpacked as the types asked for. -/
structure Keeps (a : Account) (p : Stream.Party) : Prop where
  wrote : a.wrote.map Item.packed = p.wrote.map .ok
  reads : ∃ asked : List (Wire.Ty × Except Stream.Error (Option Bytes)),
    p.Lone (asked.map Prod.snd) ∧
      a.reads = asked.map fun (ty, r) => ⟨ty, ofRead (Wire.unpacked ty) r⟩

namespace Keeps

variable {p p' : Stream.Party}

theorem does (h : Keeps a p) (does : p.Does p') : Keeps a p' := by
  obtain ⟨asked, lone, same⟩ := h.reads
  exact ⟨does.wrote ▸ h.wrote, asked, lone.does does, same⟩

theorem write (h : Keeps a p) {x : Item} {chunk : Bytes} (packed : x.packed = .ok chunk) :
    Keeps (a.write x ((write? p.stream x.ty x.value).map Prod.snd)) (p.write chunk) := by
  obtain ⟨asked, lone, same⟩ := h.reads
  have writes : Stream.Party.Act.write chunk ≠ .read := nofun
  have lone' : (p.write chunk).Lone (asked.map Prod.snd) := lone.step writes
  rw [x.write?_of_ok packed]
  unfold Stream.Party.write at lone' ⊢
  generalize p.stream.write? chunk = outcome at lone' ⊢
  match outcome with
  | some (stream, .ok ()) =>
    refine ⟨?_, asked, lone', same⟩
    change (a.wrote ++ [x]).map Item.packed = (p.wrote ++ [chunk]).map .ok
    rw [List.map_append, List.map_append, h.wrote, List.map_singleton, packed, List.map_singleton]
  | some (stream, .error e) | none => exact ⟨h.wrote, asked, lone', same⟩

theorem read (h : Keeps a p) (ty : Wire.Ty) :
    Keeps (a.read ty ((read? p.stream ty).map Prod.snd)) p.read := by
  obtain ⟨asked, lone, same⟩ := h.reads
  obtain ⟨inbox, ended, got, sawEnd, rest⟩ := p.read_rest
  have wrote : p.read.wrote = p.wrote := by rw [rest]
  have lone' := lone.read
  simp only [Stream.Party.answer?] at lone'
  unfold read?
  cases given : p.stream.read? with
  | none =>
    rw [given] at lone'
    exact ⟨wrote ▸ h.wrote, asked, by simpa using lone', same⟩
  | some answer =>
    rw [given] at lone'
    refine ⟨wrote ▸ h.wrote, asked ++ [(ty, answer.2)], by simpa using lone', ?_⟩
    change a.reads ++ [_] = _
    rw [List.map_append, same]
    rfl

end Keeps

theorem keeps_step (h : ∀ s, Keeps (t.account s) (t.duplex.party s)) (event : Event) (s : Side) :
    Keeps ((t.step event).account s) ((t.step event).duplex.party s) := by
  obtain ⟨side, act⟩ := event
  -- An event at the other end brings the user nothing.
  have apart (other : s ≠ side) (act : Stream.Duplex.Act) :
      Keeps (t.account s) ((t.duplex.step (side, act)).party s) :=
    (h s).does (t.duplex.does_step side act s fun own => absurd own other)
  cases act with
  | write x =>
    simp only [step, duplex_setAccount, written]
    by_cases own : s = side
    · subst own
      rw [account_setAccount]
      cases packed : x.packed with
      | error e =>
        rw [x.write?_of_error packed]
        exact h s
      | ok chunk =>
        simp only [Stream.Duplex.step, Stream.Duplex.party_setParty]
        exact (h s).write packed
    · rw [account_setAccount_of_ne own]
      cases x.packed with
      | error e => exact h s
      | ok chunk => exact apart own (.write chunk)
  | read ty =>
    simp only [step, duplex_setAccount]
    by_cases own : s = side
    · subst own
      rw [account_setAccount]
      simp only [Stream.Duplex.step, Stream.Duplex.party_setParty]
      exact (h s).read ty
    · rw [account_setAccount_of_ne own]
      exact apart own .read
  | other act =>
    simp only [step]
    split
    · exact h s
    · next plain => exact (h s).does (t.duplex.does_step side act s fun _ => by simpa using plain)

/-- The two ends of a run of values are those of a run of chunks. -/
theorem exists_run (t : Trade) (events : List Event) :
    ∃ chunks, (t.run events).duplex = t.duplex.run chunks := by
  refine run_induction (P := fun t' => ∃ chunks, t'.duplex = t.duplex.run chunks) ⟨[], rfl⟩ ?_ events
  rintro t' ⟨side, act⟩ ⟨chunks, same⟩
  have goesOn (event : Stream.Duplex.Event) :
      ∃ chunks, t'.duplex.step event = t.duplex.run chunks := by
    refine ⟨chunks ++ [event], ?_⟩
    rw [same, Stream.Duplex.run, Stream.Duplex.run, List.foldl_append]
    rfl
  cases act with
  | write x =>
    simp only [step, duplex_setAccount, written]
    cases x.packed with
    | error e => exact ⟨chunks, same⟩
    | ok chunk => exact goesOn (side, .write chunk)
  | read ty => exact goesOn (side, .read)
  | other act =>
    simp only [step]
    split
    · exact ⟨chunks, same⟩
    · exact goesOn (side, act)

theorem keeps_run (id : Chain.Id) (near far : Config) (events : List Event) (s : Side) :
    Keeps (((start id near far).run events).account s)
      (((start id near far).run events).duplex.party s) := by
  have begins (s : Side) : Keeps ((start id near far).account s) ((start id near far).duplex.party s) :=
    have lone := Stream.Duplex.lone_start id near far s
    ⟨by cases s <;> rfl, [], lone, rfl⟩
  exact run_induction (P := fun t => ∀ s, Keeps (t.account s) (t.duplex.party s)) begins
    (fun _ event h => keeps_step h event) events s

end Trade

end Codec

end Tether
