import Tether.Proofs.Chain.Gate
import Tether.Proofs.Chain.Passage

/-!
# Stale redials never win

What a listener keeps over all steps of all admissions. The register has at most one slot to a name,
with the highest number admitted to the chain of the slot; a chain that lives is in the register; and
the links of a chain are those of inbound links that were admitted to it, under the numbers of their
attempts. So an attempt that comes late is turned away by the register or by its chain, and in either
case no chain is touched.
-/

namespace Tether.Chain

/-! ## Verdicts -/

namespace Registry

variable {r r' : Registry} {dead : ChainId → Bool} {fresh : ChainId} {d : Dial} {v : Verdict}

theorem mem_of_slot? {id : Id} {s : Slot} (known : r.slot? id = some s) : s ∈ r ∧ s.id = id :=
  ⟨List.mem_of_find?_eq_some known, by simpa using List.find?_some known⟩

theorem slot?_of_mem (names : (r.map (·.id)).Nodup) {s : Slot} (mem : s ∈ r) :
    r.slot? s.id = some s := by
  induction r with
  | nil => cases mem
  | cons first r ih =>
    obtain ⟨new, names⟩ := List.nodup_cons.mp names
    rcases List.mem_cons.mp mem with rfl | mem
    · exact List.find?_cons_of_pos (decide_eq_true rfl)
    · have other : first.id ≠ s.id := fun same =>
        new (List.mem_map.mpr ⟨s, mem, same.symm⟩)
      exact (List.find?_cons_of_neg (by simpa using other)).trans (ih names mem)

/-- What a verdict rests on, and what the register learns. -/
theorem judge_eq (judged : r.judge dead fresh d = (r', v)) :
    (∃ answer, v = .refused answer ∧ r' = r) ∨
      (∃ s, r.slot? d.id = some s ∧ dead s.chain = false ∧ s.lastSeq < d.seq ∧
        v = .joins s.chain d.seq ∧
        r' = r.map fun s => if s.id = d.id then { s with lastSeq := d.seq } else s) ∨
      r.slot? d.id = none ∧ d.seq = 1 ∧ v = .opens fresh 1 ∧ r' = ⟨d.id, fresh, 1⟩ :: r := by
  unfold judge at judged
  split at judged
  · next s known =>
    split at judged
    · cases judged
      exact .inl ⟨_, rfl, rfl⟩
    · next alive =>
      split at judged
      · cases judged
        exact .inl ⟨_, rfl, rfl⟩
      · next high =>
        cases judged
        exact .inr (.inl ⟨s, known, by simpa using alive, Nat.lt_of_not_le high, rfl, rfl⟩)
  · next unknown =>
    split at judged
    · next first =>
      cases judged
      exact .inr (.inr ⟨unknown, first, by rw [first], by rw [first]⟩)
    · cases judged
      exact .inl ⟨_, rfl, rfl⟩

end Registry

/-- Whether a link was turned away, by the verdict or by its chain. -/
def Outcome.turnedAway : Outcome → Bool
  | .answering (.refused _) | .refused => true
  | .hearing | .answering (.opens _ _) | .answering (.joins _ _) | .admitted _ _ | .attached _ _
  | .lost => false

namespace Gate

variable {g : Gate} {c : ChainId} {w : Wired} {i : Nat}

/-! ## What single steps change -/

theorem outcome?_setOutcome (g : Gate) (i j : Nat) (outcome : Outcome) :
    (g.setOutcome i outcome).outcome? j =
      if i = j then (g.outcome? j).map fun _ => outcome else g.outcome? j := by
  simp only [outcome?, setOutcome, List.getElem?_modify]
  split <;> simp [Function.comp_def]

theorem outcome?_arrive (g : Gate) (message : Bytes) (j : Nat) {outcome : Outcome}
    (known : (g.step (.arrive message)).outcome? j = some outcome) :
    g.outcome? j = some outcome ∨ outcome = .hearing := by
  simp only [outcome?, step, List.getElem?_append] at known ⊢
  split at known
  · exact .inl known
  · obtain ⟨x, found, rfl⟩ := Option.map_eq_some_iff.mp known
    rw [List.getElem?_singleton] at found
    split at found
    · cases found
      exact .inr rfl
    · cases found

/-- What judging a link comes to. -/
theorem judge_cases (g : Gate) (i : Nat) :
    g.judge i = g ∨ g.outcome? i = some .hearing ∧
      ((∃ answer, g.judge i = g.setOutcome i (.answering (.refused answer))) ∨
        (∃ id n s, g.registry.slot? id = some s ∧ g.dead s.chain = false ∧ s.lastSeq < n ∧
          g.judge i = { g.setOutcome i (.answering (.joins s.chain n)) with
            registry := g.registry.map fun s => if s.id = id then { s with lastSeq := n } else s
            admissions := g.admissions ++ [(s.chain, n)] }) ∨
        ∃ id, g.registry.slot? id = none ∧
          g.judge i = { g.setOutcome i (.answering (.opens g.chains.length 1)) with
            registry := ⟨id, g.chains.length, 1⟩ :: g.registry
            chains := g.chains ++ [.start .far id g.depth]
            admissions := g.admissions ++ [(g.chains.length, 1)] }) := by
  unfold judge
  split
  · next message waits =>
    refine .inr ⟨by rw [outcome?, waits]; rfl, ?_⟩
    unfold Registry.judgeMessage
    cases decoded : Dial.decode? message with
    | none => exact .inl ⟨_, rfl⟩
    | some d =>
      by_cases zero : d.seq = 0
      · simp only [zero, if_true]
        exact .inl ⟨_, rfl⟩
      · simp only [zero, if_false]
        cases judged : g.registry.judge g.dead g.chains.length d with
        | mk r' v =>
          obtain ⟨answer, rfl, rfl⟩ | ⟨s, known, alive, high, rfl, rfl⟩ | ⟨unknown, -, rfl, rfl⟩ :=
            Registry.judge_eq judged
          · exact .inl ⟨answer, rfl⟩
          · exact .inr (.inl ⟨d.id, d.seq, s, known, alive, high, rfl⟩)
          · exact .inr (.inr ⟨d.id, unknown, rfl⟩)
  · exact .inl rfl

/-! ## What every step keeps -/

/-- What the register, the chains and the admissions under way know of each other. -/
structure Kept (g : Gate) : Prop where
  flows : ∀ w ∈ g.chains, ∃ blocks, w.Flows blocks
  names : (g.registry.map (·.id)).Nodup
  /-- A slot knows the highest number admitted to its chain. -/
  slots : ∀ s ∈ g.registry, ∃ w, g.chains[s.chain]? = some w ∧ w.chain.id = s.id ∧
    (g.admitted s.chain).getLast? = some s.lastSeq
  listed : ∀ c w, g.chains[c]? = some w → w.chain.killed = false → ∃ s ∈ g.registry, s.chain = c
  known : ∀ x ∈ g.admissions, x.1 < g.chains.length
  rising : ∀ c < g.chains.length, (g.admitted c).head? = some 1 ∧ (g.admitted c).Pairwise (· < ·)
  /-- A link under way to its chain was admitted to it. -/
  pending : ∀ i c n, (g.outcome? i = some (.answering (.opens c n)) ∨
    g.outcome? i = some (.answering (.joins c n)) ∨ g.outcome? i = some (.admitted c n)) →
      n ∈ g.admitted c
  seqs : ∀ c w, g.chains[c]? = some w → ∀ k n, w.chain.seq? k = some n → n ∈ g.admitted c
  links : ∀ c w, g.chains[c]? = some w → ∀ k e, w.chain.link? k = some e →
    ∃ i, e = ⟨i, .far⟩ ∧ g.outcome? i = some (.attached c k)

theorem kept_start (depth : Nat) : (start depth).Kept := by
  constructor <;> simp [start, outcome?]

/-- A link that is not attached comes further, without being admitted by that. -/
theorem Kept.setOutcome (h : g.Kept) {outcome : Outcome} (i : Nat)
    (loose : ∀ c k, g.outcome? i ≠ some (.attached c k))
    (admitted : ∀ c n, (outcome = .answering (.opens c n) ∨ outcome = .answering (.joins c n) ∨
      outcome = .admitted c n) → n ∈ g.admitted c) : (g.setOutcome i outcome).Kept where
  flows := h.flows
  names := h.names
  slots := h.slots
  listed := h.listed
  known := h.known
  rising := h.rising
  pending j c n pending := by
    simp only [outcome?_setOutcome] at pending
    split at pending
    · refine admitted c n ?_
      cases known : g.outcome? j with
      | none => simp [known] at pending
      | some old => simpa [known] using pending
    · exact h.pending j c n pending
  seqs := h.seqs
  links c w found k e attached := by
    obtain ⟨j, rfl, known⟩ := h.links c w found k e attached
    refine ⟨j, rfl, ?_⟩
    rw [outcome?_setOutcome]
    split
    · next same =>
      subst same
      exact absurd known (loose c k)
    · exact known

theorem Kept.arrive (h : g.Kept) (message : Bytes) : (g.step (.arrive message)).Kept where
  flows := h.flows
  names := h.names
  slots := h.slots
  listed := h.listed
  known := h.known
  rising := h.rising
  pending i c n pending := by
    have old : ∀ {o : Outcome}, (g.step (.arrive message)).outcome? i = some o → o ≠ .hearing →
        g.outcome? i = some o := fun known other =>
      (outcome?_arrive g message i known).resolve_right other
    refine h.pending i c n ?_
    rcases pending with known | known | known
    · exact .inl (old known nofun)
    · exact .inr (.inl (old known nofun))
    · exact .inr (.inr (old known nofun))
  seqs := h.seqs
  links c w found k e attached := by
    obtain ⟨i, rfl, known⟩ := h.links c w found k e attached
    refine ⟨i, rfl, ?_⟩
    obtain ⟨x, found, same⟩ := Option.map_eq_some_iff.mp known
    have inside := (List.getElem?_eq_some_iff.mp found).1
    simp only [outcome?, step, List.getElem?_append_left inside, found, Option.map_some, same]

theorem Kept.answer (h : g.Kept) (i : Nat) (told : Bool) : (g.answer i told).Kept := by
  unfold Gate.answer
  split
  · next c n waits =>
    refine h.setOutcome i (by simp [waits]) fun c' n' admitted => ?_
    split at admitted <;> simp at admitted
    obtain ⟨rfl, rfl⟩ := admitted
    exact h.pending i c n (.inl waits)
  · next c n waits =>
    refine h.setOutcome i (by simp [waits]) fun c' n' admitted => ?_
    split at admitted <;> simp at admitted
    obtain ⟨rfl, rfl⟩ := admitted
    exact h.pending i c n (.inr (.inl waits))
  · next answer waits => exact h.setOutcome i (by simp [waits]) (by simp)
  · exact h

theorem admitted_concat (g : Gate) (registry : Registry) (chains : List Wired) (c c' : ChainId)
    (n : Nat) :
    admitted { g with registry, chains, admissions := g.admissions ++ [(c, n)] } c' =
      g.admitted c' ++ if c = c' then [n] else [] := by
  unfold admitted
  rw [List.filter_append, List.map_append]
  by_cases own : c = c' <;> simp [own]

theorem le_getLast? {ns : List Nat} (rising : ns.Pairwise (· < ·)) {m : Nat}
    (last : ns.getLast? = some m) {n : Nat} (mem : n ∈ ns) : n ≤ m := by
  obtain ⟨front, rfl⟩ := List.getLast?_eq_some_iff.mp last
  rcases List.mem_append.mp mem with old | new
  · exact Nat.le_of_lt ((List.pairwise_append.mp rising).2.2 n old m (List.mem_singleton_self m))
  · exact Nat.le_of_eq (List.mem_singleton.mp new)

/-- A higher number is admitted to a chain in the register. -/
theorem Kept.joins (h : g.Kept) {id : Id} {s : Slot} {n : Nat}
    (found : g.registry.slot? id = some s) (high : s.lastSeq < n) :
    Kept { g with
      registry := g.registry.map fun s => if s.id = id then { s with lastSeq := n } else s
      admissions := g.admissions ++ [(s.chain, n)] } := by
  obtain ⟨mem, rfl⟩ := Registry.mem_of_slot? found
  obtain ⟨w, chain, name, last⟩ := h.slots s mem
  have inside : s.chain < g.chains.length := (List.getElem?_eq_some_iff.mp chain).1
  have more : ∀ {c m}, m ∈ g.admitted c →
      m ∈ g.admitted c ++ if s.chain = c then [n] else [] := List.mem_append_left _
  refine ⟨h.flows, ?_, ?_, ?_, ?_, ?_, ?_, ?_, h.links⟩
  · have same : (g.registry.map fun t => if t.id = s.id then { t with lastSeq := n } else t).map
        (·.id) = g.registry.map (·.id) := by
      rw [List.map_map]
      refine List.map_congr_left fun t _ => ?_
      simp only [Function.comp_apply]
      split <;> rfl
    rw [same]
    exact h.names
  · intro t' raised
    obtain ⟨t, old, rfl⟩ := List.mem_map.mp raised
    simp only [admitted_concat]
    by_cases own : t.id = s.id
    · obtain rfl : t = s := by
        have slot := Registry.slot?_of_mem h.names old
        rw [own, found] at slot
        exact (Option.some.inj slot).symm
      simp only [if_true]
      exact ⟨w, chain, name, List.getLast?_concat⟩
    · obtain ⟨w', chain', name', last'⟩ := h.slots t old
      have other : s.chain ≠ t.chain := fun same => by
        rw [← same, chain] at chain'
        cases chain'
        exact own (name'.symm.trans name)
      rw [if_neg own, if_neg other, List.append_nil]
      exact ⟨w', chain', name', last'⟩
  · intro c w' chain' alive
    obtain ⟨t, old, own⟩ := h.listed c w' chain' alive
    refine ⟨_, List.mem_map_of_mem old, ?_⟩
    split <;> exact own
  · intro x mem
    rcases List.mem_append.mp mem with old | new
    · exact h.known x old
    · cases List.mem_singleton.mp new
      exact inside
  · intro c lt
    obtain ⟨first, rising⟩ := h.rising c lt
    rw [admitted_concat]
    split
    · next own =>
      subst own
      refine ⟨?_, ?_⟩
      · rw [List.head?_append, first]
        rfl
      · rw [List.pairwise_append]
        refine ⟨rising, List.pairwise_singleton _ _, fun m old m' new => ?_⟩
        rw [List.mem_singleton.mp new]
        exact Nat.lt_of_le_of_lt (le_getLast? rising last old) high
    · rw [List.append_nil]
      exact ⟨first, rising⟩
  · intro i c m pending
    rw [admitted_concat]
    exact more (h.pending i c m pending)
  · intro c w' chain' k m seq
    rw [admitted_concat]
    exact more (h.seqs c w' chain' k m seq)

/-- A chain is opened under a name that the register does not know. -/
theorem Kept.opens (h : g.Kept) {id : Id} (unknown : g.registry.slot? id = none) :
    Kept { g with
      registry := ⟨id, g.chains.length, 1⟩ :: g.registry
      chains := g.chains ++ [.start .far id g.depth]
      admissions := g.admissions ++ [(g.chains.length, 1)] } := by
  have none : g.admitted g.chains.length = [] := by
    unfold admitted
    rw [List.map_eq_nil_iff, List.filter_eq_nil_iff]
    intro x mem
    simpa using Nat.ne_of_lt (h.known x mem)
  have more : ∀ {c m}, m ∈ g.admitted c →
      m ∈ g.admitted c ++ if g.chains.length = c then [1] else [] := List.mem_append_left _
  -- a chain is an old one, or the new one without links
  have chains : ∀ {c w}, (g.chains ++ [Wired.start .far id g.depth])[c]? = some w →
      g.chains[c]? = some w ∨ c = g.chains.length ∧ w = .start .far id g.depth := by
    intro c w found
    rcases Nat.lt_or_ge c g.chains.length with lt | ge
    · exact .inl (List.getElem?_append_left lt ▸ found)
    · rw [List.getElem?_append_right ge, List.getElem?_singleton] at found
      split at found
      · next last =>
        cases found
        exact .inr ⟨by omega, rfl⟩
      · cases found
  refine ⟨?_, ?_, ?_, ?_, ?_, ?_, ?_, ?_, ?_⟩
  · intro w mem
    rcases List.mem_append.mp mem with old | new
    · exact h.flows w old
    · cases List.mem_singleton.mp new
      exact ⟨[], Wired.flows_start .far id g.depth⟩
  · refine List.nodup_cons.mpr ⟨fun mem => ?_, h.names⟩
    obtain ⟨s, old, rfl⟩ := List.mem_map.mp mem
    rw [Registry.slot?_of_mem h.names old] at unknown
    cases unknown
  · intro s mem
    simp only [admitted_concat]
    rcases List.mem_cons.mp mem with rfl | old
    · refine ⟨.start .far id g.depth, List.getElem?_concat_length, rfl, ?_⟩
      rw [if_pos rfl, none]
      rfl
    · obtain ⟨w, chain, name, last⟩ := h.slots s old
      have lt := (List.getElem?_eq_some_iff.mp chain).1
      rw [if_neg (Nat.ne_of_gt lt), List.append_nil, List.getElem?_append_left lt]
      exact ⟨w, chain, name, last⟩
  · intro c w found alive
    rcases chains found with old | ⟨rfl, -⟩
    · obtain ⟨s, mem, own⟩ := h.listed c w old alive
      exact ⟨s, List.mem_cons_of_mem _ mem, own⟩
    · exact ⟨_, List.mem_cons_self, rfl⟩
  · intro x mem
    have size : (g.chains ++ [Wired.start .far id g.depth]).length = g.chains.length + 1 :=
      List.length_append
    simp only [size]
    rcases List.mem_append.mp mem with old | new
    · exact Nat.lt_succ_of_lt (h.known x old)
    · cases List.mem_singleton.mp new
      exact Nat.lt_succ_self _
  · intro c lt
    rw [admitted_concat]
    split
    · next own =>
      subst own
      rw [none]
      exact ⟨rfl, List.pairwise_singleton _ _⟩
    · next other =>
      rw [List.append_nil]
      have size : (g.chains ++ [Wired.start .far id g.depth]).length = g.chains.length + 1 :=
        List.length_append
      simp only [size] at lt
      exact h.rising c (Nat.lt_of_le_of_ne (Nat.le_of_lt_succ lt) (Ne.symm other))
  · intro i c m pending
    rw [admitted_concat]
    exact more (h.pending i c m pending)
  · intro c w found k m seq
    rw [admitted_concat]
    rcases chains found with old | ⟨-, rfl⟩
    · exact more (h.seqs c w old k m seq)
    · simp [Wired.start, Endpoint.seq?, Endpoint.new] at seq
  · intro c w found k e attached
    rcases chains found with old | ⟨-, rfl⟩
    · exact h.links c w old k e attached
    · simp [Wired.start, Endpoint.link?, Endpoint.new] at attached

theorem Kept.judge (h : g.Kept) (i : Nat) : (g.judge i).Kept := by
  obtain same | ⟨waits, ⟨answer, refused⟩ | ⟨id, n, s, found, -, high, joins⟩ |
    ⟨id, unknown, opens⟩⟩ := g.judge_cases i
  · rw [same]
    exact h
  · rw [refused]
    exact h.setOutcome i (by simp [waits]) (by simp)
  · rw [joins]
    refine (h.joins found high).setOutcome i (fun c k attached => ?_) fun c m admitted => ?_
    · exact absurd (waits.symm.trans attached) nofun
    · simp only [reduceCtorEq, false_or, or_false, Outcome.answering.injEq,
        Verdict.joins.injEq] at admitted
      obtain ⟨rfl, rfl⟩ := admitted
      rw [admitted_concat, if_pos rfl]
      exact List.mem_append_right _ List.mem_cons_self
  · rw [opens]
    refine (h.opens unknown).setOutcome i (fun c k attached => ?_) fun c m admitted => ?_
    · exact absurd (waits.symm.trans attached) nofun
    · simp only [reduceCtorEq, or_false, Outcome.answering.injEq, Verdict.opens.injEq] at admitted
      obtain ⟨rfl, rfl⟩ := admitted
      rw [admitted_concat, if_pos rfl]
      exact List.mem_append_right _ List.mem_cons_self

/-- A chain changes, and its new links are those of inbound links that were admitted to it. -/
theorem Kept.setChain (h : g.Kept) {w w' : Wired} (found : g.chains[c]? = some w)
    (flows : ∃ blocks, w'.Flows blocks) (name : w'.chain.id = w.chain.id)
    (alive : w'.chain.killed = false → w.chain.killed = false)
    (seqs : ∀ k n, w'.chain.seq? k = some n → n ∈ g.admitted c)
    (links : ∀ k e, w'.chain.link? k = some e →
      ∃ i, e = ⟨i, .far⟩ ∧ g.outcome? i = some (.attached c k)) :
    Kept { g with chains := g.chains.set c w' } := by
  have inside : c < g.chains.length := (List.getElem?_eq_some_iff.mp found).1
  have chains : ∀ {c' v}, (g.chains.set c w')[c']? = some v →
      c = c' ∧ v = w' ∨ c ≠ c' ∧ g.chains[c']? = some v := by
    intro c' v known
    by_cases own : c = c'
    · subst own
      rw [List.getElem?_set_self inside] at known
      cases known
      exact .inl ⟨rfl, rfl⟩
    · rw [List.getElem?_set_ne own] at known
      exact .inr ⟨own, known⟩
  refine ⟨fun v mem => ?_, h.names, fun s mem => ?_, fun c' v known living => ?_, fun x mem => ?_,
    fun c' lt => h.rising c' ?_, h.pending, fun c' v known => ?_, fun c' v known => ?_⟩
  · rcases List.mem_or_eq_of_mem_set mem with old | rfl
    · exact h.flows v old
    · exact flows
  · obtain ⟨v, known, name', last⟩ := h.slots s mem
    by_cases own : c = s.chain
    · subst own
      cases found.symm.trans known
      exact ⟨w', List.getElem?_set_self inside, name.trans name', last⟩
    · exact ⟨v, (List.getElem?_set_ne own).trans known, name', last⟩
  · obtain ⟨rfl, rfl⟩ | ⟨-, old⟩ := chains known
    · exact h.listed c w found (alive living)
    · exact h.listed c' v old living
  · simp only [List.length_set]
    exact h.known x mem
  · simpa using lt
  · obtain ⟨rfl, rfl⟩ | ⟨-, old⟩ := chains known
    · exact seqs
    · exact h.seqs c' v old
  · obtain ⟨rfl, rfl⟩ | ⟨-, old⟩ := chains known
    · exact links
    · exact h.links c' v old

theorem Kept.within (h : g.Kept) (c : ChainId) (act : Wired.Act) :
    (g.step (.within c act)).Kept := by
  by_cases attaches : ∃ seq link pipe, act = .attach seq link pipe
  · obtain ⟨seq, link, pipe, rfl⟩ := attaches
    exact h
  · have other : g.step (.within c act) = { g with chains := g.chains.modify c (·.step act) } := by
      cases act with
      | attach seq link pipe => exact absurd ⟨seq, link, pipe, rfl⟩ attaches
      | _ => rfl
    rw [other]
    cases found : g.chains[c]? with
    | none =>
      rw [List.modify_eq_self (List.getElem?_eq_none_iff.mp found)]
      exact h
    | some w =>
      have moved : w.chain.Moves (w.step act).chain :=
        Wired.moves_step w fun seq link pipe same => attaches ⟨seq, link, pipe, same⟩
      have changed : g.chains.modify c (·.step act) = g.chains.set c (w.step act) := by
        refine List.ext_getElem? fun j => ?_
        rw [List.getElem?_modify]
        by_cases own : c = j
        · subst own
          rw [List.getElem?_set_self (List.getElem?_eq_some_iff.mp found).1, found]
          simp
        · rw [List.getElem?_set_ne own]
          simp [own]
      rw [changed]
      refine h.setChain found ?_ moved.name moved.alive ?_ ?_
      · exact Wired.flows_step w act (h.flows w (List.mem_of_getElem? found))
      · intro k n known
        exact h.seqs c w found k n (moved.seq k ▸ known)
      · intro k e known
        exact h.links c w found k e (moved.link k ▸ known)

theorem Kept.unregister (h : g.Kept) (c : ChainId) : (g.step (.unregister c)).Kept := by
  unfold step
  simp only
  split
  · next dead =>
    refine ⟨h.flows, ?_, ?_, ?_, h.known, h.rising, h.pending, h.seqs, h.links⟩
    · exact h.names.sublist (List.filter_sublist.map _)
    · intro s mem
      exact h.slots s (List.mem_filter.mp mem).1
    · intro c' w found alive
      obtain ⟨s, mem, own⟩ := h.listed c' w found alive
      refine ⟨s, List.mem_filter.mpr ⟨mem, ?_⟩, own⟩
      have other : c' ≠ c := fun same => by
        simp only [Gate.dead, ← same, found, Option.map_some, Option.getD_some, alive] at dead
        cases dead
      simpa [own] using other
  · exact h

/-- What installing an admitted link comes to. -/
theorem install_cases (g : Gate) (i : Nat) (pipe : Link.Pipe) :
    g.install i pipe = g ∨
      ∃ c n, g.outcome? i = some (.admitted c n) ∧
        (g.install i pipe = g.setOutcome i .refused ∨
          ∃ w k, g.chains[c]? = some w ∧ (w.chain.attach n ⟨i, .far⟩).2 = some k ∧
            g.install i pipe = { g.setOutcome i (.attached c k) with
              chains := g.chains.set c (w.attach n ⟨i, .far⟩ pipe) }) := by
  unfold install
  split
  · next c n waits =>
    split
    · exact .inl rfl
    · next w found =>
      refine .inr ⟨c, n, waits, ?_⟩
      split
      · exact .inl rfl
      · next k taken => exact .inr ⟨w, k, found, taken, rfl⟩
  · exact .inl rfl

theorem Kept.install (h : g.Kept) (i : Nat) (pipe : Link.Pipe) : (g.install i pipe).Kept := by
  obtain same | ⟨c, n, waits, refused | ⟨w, k, found, taken, attached⟩⟩ := g.install_cases i pipe
  · rw [same]
    exact h
  · rw [refused]
    exact h.setOutcome i (by simp [waits]) (by simp)
  · rw [attached]
    have own : n ∈ g.admitted c := h.pending i c n (.inr (.inr waits))
    obtain ⟨blocks, flows⟩ := h.flows w (List.mem_of_getElem? found)
    have attachedFlows := flows.attach n ⟨i, .far⟩ pipe
    obtain ⟨no, -⟩ | ⟨alive, -, before, faded, -, yes⟩ := flows.ranked.attach_cases n ⟨i, .far⟩
    · rw [no] at taken
      cases taken
    · rw [yes] at taken
      cases taken
      have chain : (w.attach n ⟨i, .far⟩ pipe).chain = (before.withLink n ⟨i, .far⟩).announce := by
        unfold Wired.attach
        rw [yes]
      have size : before.links.size = w.chain.links.size := faded.size
      have loose : (g.setOutcome i (.attached c w.chain.links.size)).Kept :=
        h.setOutcome i (by simp [waits]) (by simp)
      refine loose.setChain found ⟨blocks, attachedFlows⟩ ?_ (fun _ => alive) ?_ ?_
      · rw [chain]
        exact faded.name
      · intro k m known
        rw [chain] at known
        have known := (Endpoint.seq?_withLink before n ⟨i, .far⟩ k).symm.trans known
        split at known
        · cases known
          exact own
        · exact h.seqs c w found k m (faded.seq k ▸ known)
      · intro k e known
        rw [chain] at known
        have known := (Endpoint.link?_withLink before n ⟨i, .far⟩ k).symm.trans known
        split at known
        · next last =>
          cases known
          refine ⟨i, rfl, ?_⟩
          rw [outcome?_setOutcome, if_pos rfl, waits, last, size]
          rfl
        · exact loose.links c w found k e (faded.link k ▸ known)

theorem Kept.step (h : g.Kept) (event : Event) : (g.step event).Kept := by
  cases event with
  | arrive message => exact h.arrive message
  | judge i => exact h.judge i
  | answer i told => exact h.answer i told
  | install i pipe => exact h.install i pipe
  | within c act => exact h.within c act
  | unregister c => exact h.unregister c

theorem kept_run (depth : Nat) (events : List Event) : ((start depth).run events).Kept :=
  run_induction (kept_start depth) (fun _ event h => h.step event) events

/-! ## The law of admissions -/

/-- What a listener and its chains hold against stale redials. -/
structure Guards (g : Gate) : Prop where
  /-- The numbers admitted to a chain start at one and rise. -/
  rising : ∀ c w, g.chains[c]? = some w →
    (g.admitted c).head? = some 1 ∧ (g.admitted c).Pairwise (· < ·)
  /-- The links of a chain bear numbers that were admitted to it. At most one of them is unretired,
  and no link of the chain has a higher number. -/
  newest : ∀ c w, g.chains[c]? = some w →
    (∀ k n, w.chain.seq? k = some n → n ∈ g.admitted c) ∧
      ∀ k, w.chain.retired k = false → ∃ m, w.chain.seq? k = some m ∧
        ∀ j n, w.chain.seq? j = some n → n ≤ m ∧ (w.chain.retired j = false → j = k)
  /-- Turning a link away changes no chain, nor what was admitted. -/
  refusal : ∀ event i o o', g.outcome? i = some o → o.turnedAway = false →
    (g.step event).outcome? i = some o' → o'.turnedAway = true →
      (g.step event).chains = g.chains ∧ (g.step event).admissions = g.admissions
  /-- A link that was turned away stays so, and is not among the links of any chain. -/
  away : ∀ i o, g.outcome? i = some o → o.turnedAway = true →
    (∀ event, ∃ o', (g.step event).outcome? i = some o' ∧ o'.turnedAway = true) ∧
      ∀ (c : ChainId) (w : Wired) k, g.chains[c]? = some w → w.chain.link? k ≠ some ⟨i, .far⟩
  /-- What the reader of a chain was given came over links that were attached to the chain. -/
  delivered : ∀ c w, g.chains[c]? = some w → ∃ blocks : List Block,
    w.got = blocks.flatMap Block.deliveries ∧ ∀ b ∈ blocks, ∃ i,
      w.chain.link? b.link = some ⟨i, .far⟩ ∧ g.outcome? i = some (.attached c b.link)
  /-- A dead chain stays dead and admits nothing, neither by a verdict nor as a link. -/
  dead : ∀ c w, g.chains[c]? = some w → w.chain.killed = true → ∀ event,
    (g.step event).admitted c = g.admitted c ∧ ∃ w', (g.step event).chains[c]? = some w' ∧
      w'.chain.killed = true ∧ ∀ k, w'.chain.seq? k = w.chain.seq? k
  /-- A chain that lives is found in the register under its name, and is offered every number that
  is higher than all it has admitted. -/
  listed : ∀ c w, g.chains[c]? = some w → w.chain.killed = false →
    (∃ s, g.registry.slot? w.chain.id = some s ∧ s.chain = c) ∧
      ∀ n, (∀ m ∈ g.admitted c, m < n) →
        (g.registry.judge g.dead g.chains.length ⟨w.chain.id, n⟩).2 = .joins c n
  /-- Taking a chain out of the register takes out no other. -/
  unregistered : ∀ c, ∀ s ∈ g.registry, s.chain ≠ c → s ∈ (g.step (.unregister c)).registry

theorem exists_outcome_setOutcome {o : Outcome} (known : g.outcome? i = some o) (j : Nat)
    (outcome : Outcome) : ∃ o', (g.setOutcome j outcome).outcome? i = some o' ∧
      (o' = o ∨ j = i ∧ o' = outcome) := by
  rw [outcome?_setOutcome, known]
  split
  · next own => exact ⟨outcome, rfl, .inr ⟨own, rfl⟩⟩
  · exact ⟨o, rfl, .inl rfl⟩

/-- A link keeps its kind, or it is turned away and no chain is touched. -/
def Spares (g g' : Gate) (i : Nat) (o : Outcome) : Prop :=
  ∃ o', g'.outcome? i = some o' ∧ (o'.turnedAway = o.turnedAway ∨
    o.turnedAway = false ∧ g'.chains = g.chains ∧ g'.admissions = g.admissions)

/-- Some link comes further, without being turned away or taken back. -/
theorem spares_setOutcome {g' : Gate} {o before outcome : Outcome} {j : Nat}
    (known : g.outcome? i = some o) (waits : g.outcome? j = some before)
    (same : g'.inbound = (g.setOutcome j outcome).inbound)
    (kind : outcome.turnedAway = before.turnedAway) : g.Spares g' i o := by
  obtain ⟨o', after, rfl | ⟨rfl, rfl⟩⟩ := exists_outcome_setOutcome known j outcome
  · exact ⟨o', by rw [outcome?, same]; exact after, .inl rfl⟩
  · cases waits.symm.trans known
    exact ⟨o', by rw [outcome?, same]; exact after, .inl kind⟩

/-- Some link is turned away. -/
theorem spares_refused {o before outcome : Outcome} {j : Nat} (known : g.outcome? i = some o)
    (waits : g.outcome? j = some before) (kind : before.turnedAway = false) :
    g.Spares (g.setOutcome j outcome) i o := by
  obtain ⟨o', after, rfl | ⟨rfl, -⟩⟩ := exists_outcome_setOutcome known j outcome
  · exact ⟨o', after, .inl rfl⟩
  · cases waits.symm.trans known
    exact ⟨o', after, .inr ⟨kind, rfl, rfl⟩⟩

theorem spares_step {o : Outcome} (known : g.outcome? i = some o) (event : Event) :
    g.Spares (g.step event) i o := by
  have same : g.Spares g i o := ⟨o, known, .inl rfl⟩
  cases event with
  | arrive message =>
    obtain ⟨x, found, rfl⟩ := Option.map_eq_some_iff.mp known
    have inside := (List.getElem?_eq_some_iff.mp found).1
    refine ⟨x.outcome, ?_, .inl rfl⟩
    simp only [outcome?, step, List.getElem?_append_left inside, found, Option.map_some]
  | judge j =>
    change g.Spares (g.judge j) i o
    obtain unchanged | ⟨waits, ⟨answer, refused⟩ | ⟨id, n, s, -, -, -, joins⟩ |
      ⟨id, -, opens⟩⟩ := g.judge_cases j
    · rwa [unchanged]
    · rw [refused]
      exact spares_refused known waits rfl
    · rw [joins]
      exact spares_setOutcome known waits rfl rfl
    · rw [opens]
      exact spares_setOutcome known waits rfl rfl
  | answer j told =>
    change g.Spares (g.answer j told) i o
    unfold answer
    split
    · next c n waits => exact spares_setOutcome known waits rfl (by split <;> rfl)
    · next c n waits => exact spares_setOutcome known waits rfl (by split <;> rfl)
    · next answer waits => exact spares_setOutcome known waits rfl rfl
    · exact same
  | install j pipe =>
    change g.Spares (g.install j pipe) i o
    obtain unchanged | ⟨c, n, waits, refused | ⟨w, k, -, -, attached⟩⟩ := g.install_cases j pipe
    · rwa [unchanged]
    · rw [refused]
      exact spares_refused known waits rfl
    · rw [attached]
      exact spares_setOutcome known waits rfl rfl
  | within c act =>
    refine ⟨o, ?_, .inl rfl⟩
    cases act <;> exact known
  | unregister c =>
    refine ⟨o, ?_, .inl rfl⟩
    simp only [step]
    split <;> exact known

/-- A dead chain is only changed by what happens on it. -/
theorem dead_step (found : g.chains[c]? = some w) (dead : w.chain.killed = true)
    (event : Event) : (g.step event).admitted c = g.admitted c ∧
      ∃ w', (g.step event).chains[c]? = some w' ∧ w'.chain.killed = true ∧
        ∀ k, w'.chain.seq? k = w.chain.seq? k := by
  have inside : c < g.chains.length := (List.getElem?_eq_some_iff.mp found).1
  have same : g.admitted c = g.admitted c ∧ ∃ w', g.chains[c]? = some w' ∧
      w'.chain.killed = true ∧ ∀ k, w'.chain.seq? k = w.chain.seq? k :=
    ⟨rfl, w, found, dead, fun _ => rfl⟩
  cases event with
  | arrive message => exact same
  | judge i =>
    change (g.judge i).admitted c = _ ∧ ∃ w', (g.judge i).chains[c]? = some w' ∧ _
    obtain unchanged | ⟨-, ⟨answer, refused⟩ | ⟨id, n, s, -, alive, -, joins⟩ |
      ⟨id, -, opens⟩⟩ := g.judge_cases i
    · exact unchanged.symm ▸ same
    · exact refused.symm ▸ same
    · rw [joins]
      have other : s.chain ≠ c := fun own => by
        rw [own] at alive
        simp only [Gate.dead, found, Option.map_some, Option.getD_some, dead] at alive
        cases alive
      refine ⟨?_, same.2⟩
      refine (g.admitted_concat g.registry g.chains s.chain c n).trans ?_
      rw [if_neg other, List.append_nil]
    · rw [opens]
      refine ⟨?_, w, (List.getElem?_append_left inside).trans found, dead, fun _ => rfl⟩
      refine (g.admitted_concat g.registry g.chains g.chains.length c 1).trans ?_
      rw [if_neg (Nat.ne_of_gt inside), List.append_nil]
  | answer i told =>
    change (g.answer i told).admitted c = _ ∧ ∃ w', (g.answer i told).chains[c]? = some w' ∧ _
    unfold Gate.answer
    split <;> exact same
  | install i pipe =>
    change (g.install i pipe).admitted c = _ ∧ ∃ w', (g.install i pipe).chains[c]? = some w' ∧ _
    obtain unchanged | ⟨c', n, -, refused | ⟨v, k, known, taken, attached⟩⟩ :=
      g.install_cases i pipe
    · exact unchanged.symm ▸ same
    · exact refused.symm ▸ same
    · rw [attached]
      have other : c' ≠ c := fun own => by
        subst own
        cases found.symm.trans known
        rw [Endpoint.attach, if_pos dead] at taken
        cases taken
      exact ⟨rfl, w, (List.getElem?_set_ne other).trans found, dead, fun _ => rfl⟩
  | within c' act =>
    by_cases attaches : ∃ seq link pipe, act = .attach seq link pipe
    · obtain ⟨seq, link, pipe, rfl⟩ := attaches
      exact same
    · have changed : g.step (.within c' act) =
          { g with chains := g.chains.modify c' (·.step act) } := by
        cases act with
        | attach seq link pipe => exact absurd ⟨seq, link, pipe, rfl⟩ attaches
        | _ => rfl
      have moved : w.chain.Moves (w.step act).chain :=
        w.moves_step fun seq link pipe same => attaches ⟨seq, link, pipe, same⟩
      rw [changed]
      refine ⟨rfl, ?_⟩
      simp only [List.getElem?_modify, found, Option.map_eq_map, Option.map_some]
      split
      · exact ⟨_, rfl, moved.killed dead, moved.seq⟩
      · exact ⟨w, rfl, dead, fun _ => rfl⟩
  | unregister c' =>
    simp only [Gate.step]
    split <;> exact same

/-- No stale redial wins. Whatever links come to a listener, in whatever order they are judged,
answered and attached, and whatever happens to the chains meanwhile: the numbers admitted to a chain
start at one and rise; at most one of its links is unretired, and it bears the highest number; a link
that is turned away retires none and delivers nothing; a dead chain admits nothing; and taking it out
of the register leaves every chain that was opened later in it. -/
theorem stale_never_wins (depth : Nat) (events : List Event) :
    ((start depth).run events).Guards := by
  have h : ((start depth).run events).Kept := kept_run depth events
  generalize (start depth).run events = g at h
  refine ⟨fun c w found => ?_, fun c w found => ?_, fun event i o o' known notYet after turned => ?_,
    fun i o known turned => ?_, fun c w found => ?_, fun c w found dead => dead_step found dead,
    fun c w found alive => ?_, fun c s mem other => ?_⟩
  · exact h.rising c (List.getElem?_eq_some_iff.mp found).1
  · obtain ⟨blocks, flows⟩ := h.flows w (List.mem_of_getElem? found)
    refine ⟨h.seqs c w found, fun k whole => ?_⟩
    have last := flows.ranked.replaced whole
    obtain ⟨a, link⟩ := Endpoint.exists_link (e := w.chain) (k := k) (by omega)
    have own : w.chain.seq? k = some a.seq := by rw [Endpoint.seq?, link, Option.map_some]
    refine ⟨a.seq, own, fun j n seq => ⟨?_, fun whole' => ?_⟩⟩
    · have inside := Endpoint.lt_size_of_seq? seq
      rcases Nat.lt_or_eq_of_le (Nat.le_of_lt_succ (last ▸ inside)) with lt | rfl
      · exact Nat.le_of_lt (flows.ranked.rising lt seq own)
      · cases own.symm.trans seq
        exact Nat.le_refl _
    · exact Nat.add_right_cancel ((flows.ranked.replaced whole').trans last.symm)
  · obtain ⟨o'', after', same | ⟨-, unchanged⟩⟩ := spares_step known event
    · cases after.symm.trans after'
      rw [turned, notYet] at same
      cases same
    · exact unchanged
  · refine ⟨fun event => ?_, fun c w k found attached => ?_⟩
    · obtain ⟨o', after, same | ⟨notYet, -⟩⟩ := spares_step known event
      · exact ⟨o', after, same.trans turned⟩
      · rw [turned] at notYet
        cases notYet
    · obtain ⟨j, same, outcome⟩ := h.links c w found k _ attached
      cases same
      cases known.symm.trans outcome
      cases turned
  · obtain ⟨blocks, flows⟩ := h.flows w (List.mem_of_getElem? found)
    obtain ⟨parts, got, -, known⟩ := flows.exists_blocks
    refine ⟨parts, got, fun b mem => ?_⟩
    obtain ⟨a, link, -⟩ := Option.map_eq_some_iff.mp (known b mem).1
    have end' : w.chain.link? b.link = some a.link := by rw [Endpoint.link?, link, Option.map_some]
    obtain ⟨i, same, outcome⟩ := h.links c w found b.link a.link end'
    exact ⟨i, same ▸ end', outcome⟩
  · obtain ⟨s, mem, own⟩ := h.listed c w found alive
    obtain ⟨w', found', name, last⟩ := h.slots s mem
    rw [own] at found' last
    cases found.symm.trans found'
    have slot := Registry.slot?_of_mem h.names mem
    rw [← name] at slot
    refine ⟨⟨s, slot, own⟩, fun n higher => ?_⟩
    have living : g.dead c = false := by
      simp only [dead, found, Option.map_some, Option.getD_some, alive]
    have high : ¬n ≤ s.lastSeq := Nat.not_le.mpr (higher _ (List.mem_of_getLast? last))
    simp only [Registry.judge, slot, own, living, Bool.false_eq_true, if_false, high]
  · simp only [step]
    split
    · exact List.mem_filter.mpr ⟨mem, by simpa using other⟩
    · exact mem

end Gate

end Tether.Chain
