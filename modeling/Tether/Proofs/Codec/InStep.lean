import Tether.Proofs.Codec.Trade
import Tether.Proofs.Stream.Delivery

/-!
# Streams of values stay in step

A value travels as one chunk. The chunk is never empty, so that it is not taken for the end marker, and a
read uses up one chunk, whatever type it asks for and whether or not the chunk unpacks as that type. So
what a read answers is known from its number, from the type that it asks for, and from the values written
(`nthValue?`). What other reads asked for does not come in.

The stream delivers the chunks of these values, from the first one on, and the end marker behind them. A
read of the stream is answered by its number too (`nthRead?`), so that it remains to compare the two.
-/

namespace Tether.Codec

open Link (Side)

/-! ## What is read -/

/-- What the `n`-th read answers, counted from zero, if it asks for this type, where these values were
written, and the end marker behind them if the writer has closed. Without an answer it waits. -/
def nthValue? (wrote : List Item) (closed : Bool) (n : Nat) (ty : Wire.Ty) :
    Option (Except Error (Option ty.Val)) :=
  match wrote[n]? with
  | some x => some (x.readAs ty)
  | none => if closed then some (.ok none) else none

/-- Behind the values there is the end. -/
theorem nthValue?_behind {wrote : List Item} {n : Nat} (past : wrote.length ≤ n) (ty : Wire.Ty) :
    nthValue? wrote true n ty = some (.ok none) := by
  unfold nthValue?
  rw [List.getElem?_eq_none past]
  rfl

/-- What an end has accepted of a peer whose user has written these values, and has closed or not: the
chunks of the values from the first one on, and the end marker behind them. -/
structure Conveys (items : List Item) (wrote : List Bytes) (closed : Bool) (accepted : List Bytes) : Prop where
  packs : items.map Item.packed = wrote.map .ok
  delivered : accepted <+: wrote ++ Stream.endMarker closed

namespace Conveys

variable {items : List Item} {wrote accepted : List Bytes} {closed : Bool} {n : Nat}

theorem length_eq (h : Conveys items wrote closed accepted) : items.length = wrote.length := by
  simpa using congrArg List.length h.packs

/-- Each value has its chunk, and each chunk its value. -/
theorem packed_iff (h : Conveys items wrote closed accepted) {chunk : Bytes} :
    wrote[n]? = some chunk ↔ ∃ x, items[n]? = some x ∧ x.packed = .ok chunk := by
  have same := congrArg (fun l => l[n]?) h.packs
  simp only [List.getElem?_map] at same
  constructor
  · intro found
    rw [found, Option.map_some] at same
    exact Option.map_eq_some_iff.mp same
  · rintro ⟨x, known, packed⟩
    rw [known, Option.map_some, packed] at same
    obtain ⟨chunk', found, this⟩ := Option.map_eq_some_iff.mp same.symm
    cases this
    exact found

/-- No chunk of a value is taken for the end marker. -/
theorem nonempty (h : Conveys items wrote closed accepted) : [] ∉ wrote := by
  intro mem
  obtain ⟨n, found⟩ := List.getElem?_of_mem mem
  obtain ⟨x, -, packed⟩ := h.packed_iff.mp found
  exact Item.ne_nil_of_packed packed rfl

theorem exists_packed (h : Conveys items wrote closed accepted) {x : Item} (mem : x ∈ items) :
    ∃ chunk, x.packed = .ok chunk := by
  have made : x.packed ∈ wrote.map .ok := h.packs ▸ List.mem_map_of_mem mem
  obtain ⟨chunk, -, packed⟩ := List.mem_map.mp made
  exact ⟨chunk, packed.symm⟩

/-- The end marker is accepted last. -/
theorem ended_iff (h : Conveys items wrote closed accepted) :
    [] ∈ accepted ↔ closed = true ∧ accepted.length = items.length + 1 := by
  rw [h.length_eq]
  constructor
  · intro ended
    obtain ⟨shut, all⟩ := Stream.eq_log_of_endMarker h.nonempty h.delivered ended
    rw [all]
    exact ⟨shut, List.length_append⟩
  · rintro ⟨rfl, all⟩
    have whole : accepted = wrote ++ [[]] := h.delivered.eq_of_length (by rw [all]; simp)
    rw [whole]
    exact List.mem_append_right _ List.mem_cons_self

/-- Each unit of the log is read as its value, or as the end. -/
theorem nthValue?_of_unit (h : Conveys items wrote closed accepted) {unit : Bytes}
    (found : (wrote ++ Stream.endMarker closed)[n]? = some unit) (ty : Wire.Ty) :
    nthValue? items closed n ty =
      some (ofRead (Wire.unpacked ty) (.ok (if unit = [] then none else some unit))) := by
  rcases Nat.lt_or_ge n wrote.length with inside | past
  · rw [List.getElem?_append_left inside] at found
    obtain ⟨x, known, packed⟩ := h.packed_iff.mp found
    rw [if_neg (Item.ne_nil_of_packed packed), ← Item.readAs_of_packed packed]
    unfold nthValue?
    rw [known]
  · rw [List.getElem?_append_right past] at found
    cases closed with
    | false => cases found
    | true =>
      have marker : unit = [] := List.mem_singleton.mp (List.mem_of_getElem? found)
      rw [if_pos marker, nthValue?_behind (h.length_eq ▸ past)]
      rfl

/-- What was accepted answers as the values do. Only where it does not reach, and the end marker is not in
it, may a read fail with the stream. -/
theorem nthValue?_of_nthRead? (h : Conveys items wrote closed accepted) {failed : Option Stream.Error}
    {r : Except Stream.Error (Option Bytes)} (given : Stream.nthRead? accepted failed n = some r)
    (ty : Wire.Ty) : nthValue? items closed n ty = some (ofRead (Wire.unpacked ty) r) ∨
      ∃ e, r = .error e ∧ failed = some e ∧ accepted.length ≤ n ∧ [] ∉ accepted := by
  rcases Nat.lt_or_ge n accepted.length with inside | past
  · rw [Stream.nthRead?_of_unit (List.getElem?_eq_getElem inside)] at given
    cases given
    exact .inl (h.nthValue?_of_unit (List.prefix_iff_getElem?.mp h.delivered n inside) ty)
  · rw [Stream.nthRead?_behind past] at given
    split at given
    · next marked =>
      cases given
      obtain ⟨rfl, all⟩ := h.ended_iff.mp (List.contains_iff_mem.mp marked)
      exact .inl (nthValue?_behind (by omega) ty)
    · next unmarked =>
      obtain ⟨e, failed, rfl⟩ := Option.map_eq_some_iff.mp given
      exact .inr ⟨e, rfl, failed, past, fun mem => unmarked (List.contains_iff_mem.mpr mem)⟩

end Conveys

/-! ## The law -/

namespace Trade

variable {a : Account} {p : Stream.Party} {items : List Item} {wrote : List Bytes} {closed : Bool}

/-- A value whose chunk is short enough is refused only by a stream that has ended, or was closed. -/
theorem Keeps.refused (h : Keeps a p) {x : Item} {e : Error}
    (refused : (write? p.stream x.ty x.value).map Prod.snd = some (.error e)) :
    e ≠ .stream .emptyChunk ∧
      ∀ chunk, x.packed = .ok chunk → chunk.length ≤ p.stream.maxChunkLength →
        ∃ cause, e = .stream cause ∧
          (p.stream.terminal = some cause ∨ p.stream.buffer.closed = true ∧ cause = .closed) := by
  obtain ⟨asked, ⟨⟨config, ls, records⟩, -, ends⟩, -⟩ := h.reads
  cases packed : x.packed with
  | error cause =>
    rw [x.write?_of_error packed] at refused
    cases refused
    exact ⟨nofun, nofun⟩
  | ok chunk =>
    rw [x.write?_of_ok packed, Option.map_map] at refused
    obtain ⟨⟨s', r⟩, failed, same⟩ := Option.map_eq_some_iff.mp refused
    obtain ⟨cause, rfl, rfl⟩ : ∃ cause, r = .error cause ∧ .stream cause = e := by
      cases r with
      | ok _ => cases same
      | error cause =>
        cases same
        exact ⟨cause, rfl, rfl⟩
    have reason := (Stream.Endpoint.write?_eq_error_iff.mp failed).2
    unfold Stream.Endpoint.refusal? at reason
    split at reason
    · next long =>
      cases reason
      refine ⟨nofun, fun chunk' same short => ?_⟩
      cases same
      exact absurd long (Nat.not_lt.mpr short)
    · have filled : chunk ≠ [] := Item.ne_nil_of_packed packed
      rw [Stream.Buffer.refusal?, if_neg filled, records.agreed] at reason
      have causes : p.stream.terminal = some cause ∨ p.stream.buffer.closed = true ∧ cause = .closed := by
        cases ended : p.stream.terminal with
        | some first =>
          rw [ended, Option.some_or] at reason
          exact .inl reason
        | none =>
          rw [ended, Option.none_or] at reason
          obtain ⟨shut, same⟩ := Option.ite_none_right_eq_some.mp reason
          cases same
          exact .inr ⟨shut, rfl⟩
      refine ⟨fun empty => ?_, fun _ _ _ => ⟨cause, rfl, causes⟩⟩
      cases empty
      obtain ended | ⟨-, other⟩ := causes
      · cases ends _ ended
      · cases other

/-- The reads were answered as their numbers say. -/
theorem Keeps.answered (h : Keeps a p) (conveys : Conveys items wrote closed p.accepted) {k : Nat}
    {r : Reading} (found : a.reads[k]? = some r) : nthValue? items closed k r.ty = some r.answer ∨
      ∃ e, r.answer = .error (.stream e) ∧ p.stream.terminal = some e ∧ p.accepted.length ≤ k ∧
        [] ∉ p.accepted := by
  obtain ⟨asked, ⟨-, stands, -⟩, same⟩ := h.reads
  rw [same, List.getElem?_map] at found
  obtain ⟨⟨ty, given⟩, known, rfl⟩ := Option.map_eq_some_iff.mp found
  have told := stands.answered k given (by rw [List.getElem?_map, known, Option.map_some])
  obtain next | ⟨e, rfl, failed⟩ := conveys.nthValue?_of_nthRead? told ty
  · exact .inl next
  · exact .inr ⟨e, rfl, failed⟩

/-- The next read is answered as its number says, while something is left of what was accepted. -/
theorem Keeps.next (h : Keeps a p) (conveys : Conveys items wrote closed p.accepted)
    (more : a.reads.length < p.accepted.length ∨ [] ∈ p.accepted) (ty : Wire.Ty) :
    (read? p.stream ty).map Prod.snd = nthValue? items closed a.reads.length ty := by
  obtain ⟨asked, ⟨⟨config, ls, records⟩, stands, -⟩, same⟩ := h.reads
  have count : a.reads.length = (asked.map Prod.snd).length := by
    rw [same, List.length_map, List.length_map]
  rw [count] at more ⊢
  unfold read?
  cases answered : p.stream.read? with
  | none =>
    -- A read waits only if all that was accepted has been read, and then there is no end marker in it.
    obtain ⟨fresh, empty, reading⟩ := Stream.Endpoint.read?_eq_none_iff.mp answered
    rw [Stream.Party.accepted_of_fresh fresh, empty, List.append_nil,
      stands.place fresh (.inr reading)] at more
    obtain more | marked := more
    · exact absurd more (Nat.lt_irrefl _)
    · exact absurd marked stands.filled
  | some answer =>
    obtain ⟨s, r⟩ := answer
    have given := stands.nthRead?_of_reads records (Stream.Endpoint.read?_eq_some_iff.mp answered)
    obtain next | ⟨e, -, -, past, unmarked⟩ := conveys.nthValue?_of_nthRead? given ty
    · exact next.symm
    · obtain more | marked := more
      · exact absurd more (Nat.not_lt.mpr past)
      · exact absurd marked unmarked

/-- What one user has written reaches the other in order. -/
theorem conveys_run (id : Chain.Id) (near far : Config) (events : List Event) (side : Side) :
    let t := (start id near far).run events
    let writer := t.duplex.party side.opposite
    Conveys (t.account side.opposite).wrote writer.wrote writer.stream.buffer.closed
      (t.duplex.party side).accepted := by
  intro t writer
  obtain ⟨chunks, same⟩ := exists_run (start id near far) events
  obtain ⟨-, delivers⟩ := Stream.Duplex.delivers_run id near far chunks
  have forth := (delivers side).delivered
  rw [show (Stream.Duplex.start id near far).run chunks = t.duplex from same.symm] at forth
  exact ⟨(keeps_run id near far events side.opposite).wrote, forth⟩

/-- Streams of values stay in step. In every run of two ends with any settings, whatever happens to the
links, and in both directions:

* no write fails for an empty chunk. One whose chunk a frame can carry fails only with a stream that has
  ended, or was closed;
* a value that was written reads as the values of other types with the same tree, and as a value of its own
  type so as itself. Asked for another type it gives the error of unpacking;
* a read answers as its number says, whatever the other reads asked for: with the value of that number as
  the type asked for, and behind the last one with the end. It fails with the stream only where what was
  accepted does not reach, and the end marker is not in it;
* while something is left of what was accepted, or all has been, the next read does not wait;
* the end marker is accepted when the writer has closed and all that it had written is accepted. -/
theorem values_stay_in_step (id : Chain.Id) (near far : Config) (events : List Event) (side : Side) :
    let t := (start id near far).run events
    let reader := t.duplex.party side
    let writer := t.duplex.party side.opposite
    let wrote := (t.account side.opposite).wrote
    let closed := writer.stream.buffer.closed
    let reads := (t.account side).reads
    (∀ (x : Item) e, (write? writer.stream x.ty x.value).map Prod.snd = some (.error e) →
      e ≠ .stream .emptyChunk ∧
        ∀ chunk, x.packed = .ok chunk → chunk.length ≤ writer.stream.maxChunkLength →
          ∃ cause, e = .stream cause ∧
            (writer.stream.terminal = some cause ∨ closed = true ∧ cause = .closed)) ∧
    (∀ x ∈ wrote, ∀ ty, (∀ v, x.readAs ty = .ok (some v) ↔ ty.value v = x.tree) ∧
      ((∀ v, ty.value v ≠ x.tree) → ∃ e, x.readAs ty = .error (.pack e))) ∧
    (∀ k r, reads[k]? = some r → nthValue? wrote closed k r.ty = some r.answer ∨
      ∃ e, r.answer = .error (.stream e) ∧ reader.stream.terminal = some e ∧
        reader.accepted.length ≤ k ∧ [] ∉ reader.accepted) ∧
    (reads.length < reader.accepted.length ∨ [] ∈ reader.accepted →
      ∀ ty, (read? reader.stream ty).map Prod.snd = nthValue? wrote closed reads.length ty) ∧
    ([] ∈ reader.accepted ↔ closed = true ∧ reader.accepted.length = wrote.length + 1) := by
  intro t reader writer wrote closed reads
  have conveys := conveys_run id near far events side
  have ours : Keeps (t.account side) reader := keeps_run id near far events side
  have theirs : Keeps (t.account side.opposite) writer := keeps_run id near far events side.opposite
  refine ⟨fun x e => theirs.refused, fun x mem ty => ?_, fun k r => ours.answered conveys,
    ours.next conveys, conveys.ended_iff⟩
  obtain ⟨chunk, packed⟩ := conveys.exists_packed mem
  refine ⟨fun v => Item.readAs_eq_ok packed, fun other => Item.exists_error_of_readAs fun v reads => ?_⟩
  exact other v ((Item.readAs_eq_ok packed).mp reads)

/-- A truth value is asked for as a number. The number behind it is read all the same, and then the end. -/
example :
    let sent : List Event :=
      [(.near, .other .take), (.near, .other (.pass (.ok ()))), (.far, .other .receive)]
    let t := (start ⟨7⟩ {} {}).run
      ([(.near, .write ⟨.bool, true⟩), (.near, .write ⟨.u64, 7⟩), (.near, .other .close),
        (.near, .other (.stitch 1)), (.far, .other (.stitch 1)), (.near, .other .take)] ++
        sent ++ sent ++ sent ++ sent ++ [(.far, .read .u64), (.far, .read .u64), (.far, .read .u64)])
    (t.account .far).reads =
      [⟨.u64, .error (.pack (.invalidTag 2))⟩, ⟨.u64, .ok (some 7)⟩, ⟨.u64, .ok none⟩] := by
  cbv

end Trade

end Tether.Codec
