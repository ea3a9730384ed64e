import Tether.Chain.Id
import Mathlib.Data.List.Nodup

/-!
# Chains named in sequence

Dialers may share one sequence, and each draws from it for every chain that it dials. Their calls
overlap as they like: the counter takes one call at a time, in an order that need not be the one in
which the calls were made, and what a call is given is settled at that moment. So the dialers
together are given what one dialer would be given that draws as often.

The counter goes round after 2⁶⁴ draws. In a round every identifier is drawn once, and zero is one
of them. A sequence that is to start at zero starts at one, but nothing keeps the count from passing
through zero when it comes round.
-/

namespace Tether.Chain

namespace SequentialIds

/-- The sequence after so many draws. -/
def after (ids : SequentialIds) (count : Nat) : SequentialIds :=
  ⟨ids.next + UInt64.ofNat count⟩

/-- The identifier that is drawn after so many others. -/
def nth (ids : SequentialIds) (count : Nat) : Id :=
  (ids.after count).draw.1

variable {ids : SequentialIds} {count i j : Nat}

@[simp]
theorem after_zero (ids : SequentialIds) : ids.after 0 = ids :=
  congrArg mk (UInt64.add_zero _)

theorem draw_after (ids : SequentialIds) (count : Nat) :
    (ids.after count).draw = (ids.nth count, ids.after (count + 1)) := by
  simp only [nth, draw, after, UInt64.ofNat_add, UInt64.add_assoc]
  rfl

theorem toNat_nth (ids : SequentialIds) (count : Nat) :
    (ids.nth count).val.toNat = (ids.next.toNat + count) % UInt64.size := by
  simp only [nth, draw, after, UInt64.toNat_add, UInt64.toNat_ofNat', UInt64.size]
  omega

theorem drawMany_after (ids : SequentialIds) (k count : Nat) :
    (ids.after k).drawMany count = (List.range' k count).map ids.nth := by
  induction count generalizing k with
  | zero => rfl
  | succ count ih => rw [drawMany, draw_after, ih, List.range'_succ, List.map_cons]

theorem drawMany_eq_map (ids : SequentialIds) (count : Nat) :
    ids.drawMany count = (List.range count).map ids.nth := by
  rw [List.range_eq_range', ← drawMany_after, after_zero]

theorem drawMany_succ (ids : SequentialIds) (count : Nat) :
    ids.drawMany (count + 1) = ids.drawMany count ++ [ids.nth count] := by
  simp only [drawMany_eq_map, List.range_succ, List.map_append, List.map_singleton]

theorem getElem_drawMany (h : i < (ids.drawMany count).length) :
    (ids.drawMany count)[i] = ids.nth i := by
  simp only [drawMany_eq_map, List.getElem_map, List.getElem_range]

/-! ## A round -/

theorem nth_inj_iff : ids.nth i = ids.nth j ↔ i % UInt64.size = j % UInt64.size := by
  have values : ids.nth i = ids.nth j ↔ (ids.nth i).val.toNat = (ids.nth j).val.toNat := by
    rw [UInt64.toNat_inj, ← Id.mk.injEq]
  rw [values, toNat_nth, toNat_nth]
  simp only [UInt64.size]
  omega

theorem nth_eq_zero_iff : ids.nth i = ⟨0⟩ ↔ (ids.next.toNat + i) % UInt64.size = 0 := by
  rw [← toNat_nth, ← UInt64.toNat_zero, UInt64.toNat_inj, ← Id.mk.injEq]

/-- No identifier is drawn twice in a round, wherever the round begins. -/
theorem nodup_round (ids : SequentialIds) (count k : Nat) :
    (((ids.drawMany count).drop k).take UInt64.size).Nodup := by
  refine List.pairwise_iff_getElem.mpr fun i j _ within less => ?_
  have near : j < UInt64.size := Nat.lt_of_lt_of_le within (List.length_take_le _ _)
  rw [List.getElem_take, List.getElem_take, List.getElem_drop, List.getElem_drop,
    getElem_drawMany, getElem_drawMany, ne_eq, nth_inj_iff]
  simp only [UInt64.size] at near ⊢
  omega

/-- Zero is drawn when the count comes round, and not before. -/
theorem zero_mem_drawMany_iff (positive : 0 < ids.next.toNat) :
    ⟨0⟩ ∈ ids.drawMany count ↔ UInt64.size - ids.next.toNat < count := by
  have fits : ids.next.toNat < UInt64.size := ids.next.toNat_lt
  simp only [drawMany_eq_map, List.mem_map, List.mem_range, nth_eq_zero_iff]
  constructor
  · rintro ⟨i, drawn, zero⟩
    simp only [UInt64.size] at fits zero ⊢
    omega
  · intro long
    refine ⟨UInt64.size - ids.next.toNat, long, ?_⟩
    rw [Nat.add_sub_of_le (Nat.le_of_lt fits), Nat.mod_self]

theorem toNat_next_new (start : UInt64) : (new start).next.toNat = max start.toNat 1 := by
  unfold new
  split
  · next zero => rw [zero]; rfl
  · next nonzero =>
    have positive : start.toNat ≠ 0 := fun zero => nonzero (UInt64.toNat_inj.mp zero)
    exact (Nat.max_eq_left (Nat.one_le_iff_ne_zero.mpr positive)).symm

end SequentialIds

/-- A sequence that dialers share, and their calls for an identifier. -/
structure Naming where
  ids : SequentialIds
  /-- The calls that were made, each by its dialer, in order. -/
  calls : List Nat := []
  /-- The calls that came to the counter, with what they were given, in the order in which they
  came. -/
  served : List (Nat × Id) := []

namespace Naming

/-- The identifiers that were given, in order. -/
def names (x : Naming) : List Id :=
  x.served.map (·.2)

/-- A call comes to the counter, unless it has been there. -/
def serve (x : Naming) (call : Nat) : Naming :=
  if call < x.calls.length ∧ call ∉ x.served.map (·.1) then
    { x with ids := x.ids.draw.2, served := x.served ++ [(call, x.ids.draw.1)] }
  else x

/-! ## Runs -/

inductive Event where
  /-- A dialer calls for an identifier. -/
  | call (dialer : Nat)
  | serve (call : Nat)

/-- One event of a run. -/
def step (x : Naming) : Event → Naming
  | .call dialer => { x with calls := x.calls ++ [dialer] }
  | .serve call => x.serve call

/-- A sequence before any call. -/
def shared (start : UInt64) : Naming :=
  { ids := .new start }

/-- The sequence and its calls after a run. -/
def run (x : Naming) (events : List Event) : Naming :=
  events.foldl step x

/-- What one event keeps holds after every run. -/
theorem run_induction {P : Naming → Prop} {x : Naming} (start : P x)
    (step : ∀ x event, P x → P (x.step event)) (events : List Event) : P (x.run events) :=
  List.foldlRecOn events Naming.step start fun x held event _ => step x event held

/-- What holds of a sequence and its calls after every run. -/
structure InTurn (first : SequentialIds) (x : Naming) : Prop where
  ids : x.ids = first.after x.served.length
  names : x.names = first.drawMany x.served.length
  /-- No call comes to the counter twice. -/
  once : (x.served.map (·.1)).Nodup

variable {first : SequentialIds} {x : Naming}

theorem InTurn.serve (h : InTurn first x) (call : Nat) : InTurn first (x.serve call) := by
  unfold Naming.serve
  split
  · next waits =>
    have drawn : x.ids.draw = (first.nth x.served.length, first.after (x.served.length + 1)) :=
      h.ids ▸ first.draw_after x.served.length
    rw [drawn]
    refine ⟨?_, ?_, ?_⟩
    · rw [List.length_append, List.length_singleton]
    · rw [Naming.names, List.map_append, List.length_append, List.length_singleton,
        SequentialIds.drawMany_succ, ← h.names]
      rfl
    · rw [List.map_append, List.map_singleton, ← List.concat_eq_append]
      exact h.once.concat waits.2
  · exact h

theorem InTurn.step (h : InTurn first x) (event : Event) : InTurn first (x.step event) := by
  cases event with
  | call dialer => exact ⟨h.ids, h.names, h.once⟩
  | serve call => exact h.serve call

theorem inTurn_run (start : UInt64) (events : List Event) :
    InTurn (.new start) ((shared start).run events) := by
  have inTurn_shared : InTurn (.new start) (shared start) :=
    ⟨(SequentialIds.after_zero _).symm, rfl, List.nodup_nil⟩
  exact run_induction inTurn_shared (fun _ event h => h.step event) events

/-! ## The law -/

/-- A call that was made is given an identifier when it comes to the counter, if not before. -/
theorem exists_served (x : Naming) {call : Nat} (made : call < x.calls.length) :
    ∃ id, (call, id) ∈ (x.serve call).served := by
  unfold serve
  split
  · exact ⟨_, List.mem_append_right _ (List.mem_singleton_self _)⟩
  · next been =>
    have served : call ∈ x.served.map (·.1) := by
      by_contra waits
      exact been ⟨made, waits⟩
    obtain ⟨⟨_, id⟩, mem, rfl⟩ := List.mem_map.mp served
    exact ⟨id, mem⟩

/-- What dialers are given that share a sequence, whoever calls and however the calls overlap. Each
call that was made is given one identifier, when it comes to the counter. The calls are given the
identifiers from the start on (from one, if that is zero) in the order in which they come, modulo
2⁶⁴. Any 2⁶⁴ in a row differ, and two are the same if and only if they are a multiple of 2⁶⁴ apart.
Zero is given if and only if the count has come round, which takes more draws than 2⁶⁴ less the
start. -/
theorem zero_once_a_round (start : UInt64) (events : List Event) :
    let x := (shared start).run events
    let first := max start.toNat 1
    (x.served.map (·.1)).Nodup ∧
    (∀ call < x.calls.length, ∃ id, (call, id) ∈ (x.step (.serve call)).served) ∧
    x.names = (SequentialIds.new start).drawMany x.served.length ∧
    (∀ i id, x.names[i]? = some id → id.val.toNat = (first + i) % UInt64.size) ∧
    (∀ k, ((x.names.drop k).take UInt64.size).Nodup) ∧
    (∀ i j id id', x.names[i]? = some id → x.names[j]? = some id' →
      (id = id' ↔ i % UInt64.size = j % UInt64.size)) ∧
    (⟨0⟩ ∈ x.names ↔ UInt64.size - first < x.served.length) := by
  intro x first
  have turn : InTurn (.new start) x := inTurn_run start events
  have starts : (SequentialIds.new start).next.toNat = first := SequentialIds.toNat_next_new start
  have given {i : Nat} {id : Id} (at_i : x.names[i]? = some id) :
      id = (SequentialIds.new start).nth i := by
    rw [turn.names] at at_i
    obtain ⟨drawn, rfl⟩ := List.getElem?_eq_some_iff.mp at_i
    exact SequentialIds.getElem_drawMany drawn
  refine ⟨turn.once, fun call => x.exists_served, turn.names, ?_, ?_, ?_, ?_⟩
  · intro i id at_i
    rw [given at_i, SequentialIds.toNat_nth, starts]
  · intro k
    rw [turn.names]
    exact SequentialIds.nodup_round _ _ k
  · intro i j id id' at_i at_j
    rw [given at_i, given at_j, SequentialIds.nth_inj_iff]
  · have positive : 0 < (SequentialIds.new start).next.toNat :=
      starts ▸ Nat.lt_of_lt_of_le Nat.one_pos (Nat.le_max_right _ _)
    rw [turn.names, SequentialIds.zero_mem_drawMany_iff positive, starts]

/-- Two dialers call at the end of a round, and the second call overtakes the first. -/
example :
    ((shared 0xffffffffffffffff).run [.call 0, .call 1, .serve 1, .serve 0]).served =
      [(1, ⟨0xffffffffffffffff⟩), (0, ⟨0⟩)] := by
  decide

end Naming

end Tether.Chain
