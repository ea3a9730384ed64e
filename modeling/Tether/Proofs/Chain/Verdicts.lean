import Tether.Proofs.Chain.Judgment
import Tether.Proofs.Chain.Redialing

/-!
# What the verdicts so far say

The register keeps one number of all that it has admitted. Read together with the verdicts in their
order, that number is the highest one admitted, and each verdict tells whether an attempt with no
lower number was admitted before.
-/

namespace Tether.Chain

/-- An attempt was judged after one from before the last new start, with a number no lower, was
admitted. -/
def Overtaken (judged : List (Number × Verdict)) (k : Number) : Prop :=
  ∃ later v earlier, judged = later ++ (k, v) :: earlier ∧
    ∃ x ∈ earlier, x.2.answer = .ok ∧ x.1.epoch < k.epoch ∧ k.seq ≤ x.1.seq

/-- What happens later does not undo it. -/
theorem Overtaken.cons {judged : List (Number × Verdict)} {k : Number} (h : Overtaken judged k)
    (x : Number × Verdict) : Overtaken (x :: judged) k := by
  obtain ⟨later, v, earlier, rfl, admitted⟩ := h
  exact ⟨x :: later, v, earlier, rfl, admitted⟩

/-- What the judgments so far say, and what the register `r` has kept of them for a name. -/
structure Weighed (judged : List (Number × Verdict)) (r : Registry) (id : Id) : Prop where
  once : (judged.map (·.1)).Nodup
  kinds : ∀ x ∈ judged, x.2.answer = .ok ∨ x.2.answer = .duplicate ∨ x.2.answer = .closedChain
  /-- A duplicate comes after an admitted attempt whose number is no lower. -/
  duplicates : ∀ later k v earlier, judged = later ++ (k, v) :: earlier →
    (v.answer = .duplicate ↔ ∃ x ∈ earlier, x.2.answer = .ok ∧ k.seq ≤ x.1.seq)
  top : ∀ n, 0 < n → ((∃ m, r.top? id = some m ∧ n ≤ m) ↔
    ∃ x ∈ judged, x.2.answer = .ok ∧ n ≤ x.1.seq)

namespace Weighed

variable {judged : List (Number × Verdict)} {r : Registry} {id : Id} {k : Number} {v v' : Verdict}

theorem unique (h : Weighed judged r id) (mem : (k, v) ∈ judged) (mem' : (k, v') ∈ judged) :
    v = v' := by
  have once := h.once
  clear h
  induction judged with
  | nil => cases mem
  | cons x judged ih =>
    obtain ⟨fresh, once⟩ := List.nodup_cons.mp once
    rcases List.mem_cons.mp mem with rfl | old
    · rcases List.mem_cons.mp mem' with same | old'
      · cases same
        rfl
      · exact (fresh (List.mem_map.mpr ⟨_, old', rfl⟩)).elim
    · rcases List.mem_cons.mp mem' with rfl | old'
      · exact (fresh (List.mem_map.mpr ⟨_, old, rfl⟩)).elim
      · exact ih old old' once

/-- A split of the judgments, after one more, is at the new one or further back. -/
theorem split_cons {x y : Number × Verdict} {later earlier : List (Number × Verdict)}
    (split : x :: judged = later ++ y :: earlier) :
    y = x ∧ earlier = judged ∨ ∃ later', judged = later' ++ y :: earlier := by
  cases later with
  | nil =>
    cases split
    exact .inl ⟨rfl, rfl⟩
  | cons z later =>
    cases split
    exact .inr ⟨later, rfl⟩

/-- A verdict that the register gives to a new attempt. -/
theorem judge (h : Weighed judged r id) {r' : Registry} {fresh : ChainId}
    (new : k ∉ judged.map (·.1)) (positive : 0 < k.seq)
    (judging : r.judge (fun _ => false) fresh ⟨id, k.seq⟩ = (r', v)) :
    Weighed ((k, v) :: judged) r' id := by
  have once : (((k, v) :: judged).map (·.1)).Nodup := List.nodup_cons.mpr ⟨new, h.once⟩
  have known := h.top k.seq positive
  -- a verdict other than an admission leaves what the register knows
  have refused : v.answer ≠ .ok → ∀ n, (∃ x ∈ judged, x.2.answer = .ok ∧ n ≤ x.1.seq) ↔
      ∃ x ∈ (k, v) :: judged, x.2.answer = .ok ∧ n ≤ x.1.seq := by
    intro other n
    constructor
    · rintro ⟨x, mem, admitted⟩
      exact ⟨x, List.mem_cons_of_mem _ mem, admitted⟩
    · rintro ⟨x, mem, admitted, le⟩
      rcases List.mem_cons.mp mem with rfl | mem
      · exact absurd admitted other
      · exact ⟨x, mem, admitted, le⟩
  have duplicates : (v.answer = .duplicate ↔ ∃ x ∈ judged, x.2.answer = .ok ∧ k.seq ≤ x.1.seq) →
      ∀ later k' v' earlier, (k, v) :: judged = later ++ (k', v') :: earlier →
        (v'.answer = .duplicate ↔ ∃ x ∈ earlier, x.2.answer = .ok ∧ k'.seq ≤ x.1.seq) := by
    intro latest later k' v' earlier split
    obtain ⟨same, rfl⟩ | ⟨later', split⟩ := split_cons split
    · cases same
      exact latest
    · exact h.duplicates later' k' v' earlier split
  obtain ⟨low, rfl, verdict⟩ | ⟨high, top, verdict⟩ | ⟨unknown, rfl, verdict⟩ :=
    Registry.judge_cases judging
  · refine ⟨once, ?_, duplicates ⟨fun _ => known.mp low, fun _ => verdict⟩, fun n positive => ?_⟩
    · rintro x (_ | ⟨_, mem⟩)
      · exact .inr (.inl verdict)
      · exact h.kinds x mem
    · rw [← refused (by rw [verdict]; nofun)]
      exact h.top n positive
  · refine ⟨once, ?_, duplicates ⟨fun same => ?_, fun admitted => ?_⟩, fun n positive => ?_⟩
    · rintro x (_ | ⟨_, mem⟩)
      · exact .inl verdict
      · exact h.kinds x mem
    · rw [verdict] at same
      cases same
    · obtain ⟨m, same, le⟩ := known.mpr admitted
      exact absurd (high m same) (Nat.not_lt.mpr le)
    · constructor
      · rintro ⟨m, same, le⟩
        rw [top] at same
        cases same
        exact ⟨(k, v), List.mem_cons_self, verdict, le⟩
      · rintro ⟨x, mem, admitted, le⟩
        refine ⟨k.seq, top, ?_⟩
        rcases List.mem_cons.mp mem with rfl | mem
        · exact le
        · obtain ⟨m, same, le⟩ := (h.top n positive).mpr ⟨x, mem, admitted, le⟩
          exact Nat.le_trans le (Nat.le_of_lt (high m same))
  · refine ⟨once, ?_, duplicates ⟨fun same => ?_, fun admitted => ?_⟩, fun n positive => ?_⟩
    · rintro x (_ | ⟨_, mem⟩)
      · exact .inr (.inr verdict)
      · exact h.kinds x mem
    · rw [verdict] at same
      cases same
    · obtain ⟨m, same, -⟩ := known.mpr admitted
      rw [unknown] at same
      cases same
    · rw [← refused (by rw [verdict]; nofun)]
      exact h.top n positive

theorem not_closed (h : Weighed judged r id) {r' : Registry} {fresh : ChainId} {dial : Dial}
    (own : dial.id = id) {x : Number × Verdict} (mem : x ∈ judged) (admitted : x.2.answer = .ok)
    (positive : 0 < x.1.seq) (judging : r.judge (fun _ => false) fresh dial = (r', v)) :
    v.answer ≠ .closedChain := by
  obtain ⟨m, known, -⟩ := (h.top _ positive).mpr ⟨x, mem, admitted, Nat.le_refl _⟩
  rw [← own] at known
  obtain ⟨-, -, verdict⟩ | ⟨-, -, verdict⟩ | ⟨unknown, -, -⟩ := Registry.judge_cases judging
  · rw [verdict]
    nofun
  · rw [verdict]
    nofun
  · rw [known] at unknown
    cases unknown

end Weighed

end Tether.Chain
