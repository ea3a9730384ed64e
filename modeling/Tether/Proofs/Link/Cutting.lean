import Tether.Proofs.Link.Freight

/-!
# What the network cuts

A network keeps a list of the pipes that it dialed, to cut them all or those of one address. The list
is pruned at each dial and emptied by the cuts themselves, so that it says less than was dialed. But it
loses no pipe of which a cut would still be felt, since a pipe that nobody holds is never held again and
one that is cut stays cut. So the cuts reach every live pipe, and the number told is that of the live
pipes.
-/

namespace Tether.Link

namespace Network

variable {n : Network} {id : PipeId}

theorem live_eq (known : (n.pipe? id).isSome) : n.live id = (n.pipeAt id).live := by
  obtain ⟨p, known⟩ := Option.isSome_iff_exists.mp known
  rw [live, pipeAt_eq known, known, Option.any_some]

theorem pipe?_cut (n : Network) (id i : PipeId) :
    (n.cut id).pipe? i = (n.pipe? i).map fun p => if id = i then { p with cut := true } else p :=
  n.pipe?_modifyPipe id _ i

/-- A pipe that is cut is not live. -/
theorem dead_of_cut {n' : Network}
    (cut : n'.pipe? id = (n.pipe? id).map fun p => { p with cut := true }) : n'.live id = false := by
  rw [live, cut, Option.any_map]
  cases n.pipe? id with
  | none => rfl
  | some p => exact Bool.and_false _

theorem live_of_pipe?_eq {n' : Network} (same : n'.pipe? id = n.pipe? id) :
    n'.live id = n.live id := by
  rw [live, live, same]

theorem live_cut (n : Network) (id i : PipeId) :
    (n.cut id).live i = if id = i then false else n.live i := by
  have cut := n.pipe?_cut id i
  split
  · next same =>
    simp only [same, if_true] at cut ⊢
    exact dead_of_cut cut
  · next other =>
    simp only [other, if_false, Option.map_id'] at cut
    exact live_of_pipe?_eq cut

/-! ## Cuts along a list -/

/-- Along a list, the pipes that are live are cut and no other pipe is touched. -/
theorem pipe?_foldl_cutLive (entries : List (String × PipeId)) (n : Network) (k : Nat)
    (id : PipeId) :
    (entries.foldl cutLive (n, k)).1.pipe? id = (n.pipe? id).map fun p =>
      if id ∈ entries.map (·.2) ∧ n.live id = true then { p with cut := true } else p := by
  induction entries generalizing n k with
  | nil => simp
  | cons entry rest ih =>
    simp only [List.foldl_cons, cutLive, List.map_cons, List.mem_cons]
    by_cases same : entry.2 = id
    · subst same
      split
      · next live => simp [ih, pipe?_cut, live_cut, live, Function.comp_def]
      · next dead => simp [ih, dead]
    · have elsewhere : id = entry.2 ∨ id ∈ rest.map (·.2) ↔ id ∈ rest.map (·.2) :=
        or_iff_right (Ne.symm same)
      split
      · simp only [ih, pipe?_cut, live_cut, if_neg same, elsewhere, Option.map_id']
      · simp only [ih, elsewhere]

/-- As many pipes are counted as are live, each being listed once. -/
theorem count_foldl_cutLive {entries : List (String × PipeId)} (distinct : (entries.map (·.2)).Nodup)
    (n : Network) (k : Nat) :
    (entries.foldl cutLive (n, k)).2 = k + (entries.filter (n.live ·.2)).length := by
  induction entries generalizing n k with
  | nil => rfl
  | cons entry rest ih =>
    obtain ⟨unlisted, distinct⟩ := List.nodup_cons.mp distinct
    by_cases live : n.live entry.2 = true
    · have others : rest.filter ((n.cut entry.2).live ·.2) = rest.filter (n.live ·.2) := by
        refine List.filter_congr fun other mem => ?_
        rw [live_cut, if_neg]
        exact fun same => unlisted (List.mem_map.mpr ⟨other, mem, same.symm⟩)
      simp only [List.foldl_cons, cutLive, List.filter_cons, live, if_true, ih distinct, others,
        List.length_cons]
      omega
    · simp only [List.foldl_cons, cutLive, List.filter_cons, live, if_false, ih distinct,
        Bool.false_eq_true]

theorem pipe?_foldl_cut (entries : List (String × PipeId)) (n : Network) (id : PipeId) :
    (entries.foldl (fun n entry => n.cut entry.2) n).pipe? id = (n.pipe? id).map fun p =>
      if id ∈ entries.map (·.2) then { p with cut := true } else p := by
  induction entries generalizing n with
  | nil => simp
  | cons entry rest ih =>
    simp only [List.foldl_cons, List.map_cons, List.mem_cons, ih, pipe?_cut, Option.map_map]
    congr 1
    funext p
    by_cases same : entry.2 = id
    · simp [same]
    · have elsewhere : id = entry.2 ∨ id ∈ rest.map (·.2) ↔ id ∈ rest.map (·.2) :=
        or_iff_right (Ne.symm same)
      simp only [Function.comp_apply, if_neg same, elsewhere]

/-! ## Cutting all, and cutting an address -/

theorem pipe?_cutAll (n : Network) (id : PipeId) :
    n.cutAll.1.pipe? id = (n.pipe? id).map fun p =>
      if id ∈ n.dialed.map (·.2) ∧ n.live id = true then { p with cut := true } else p :=
  pipe?_foldl_cutLive n.dialed { n with dialed := [] } 0 id

theorem pipe?_kill (n : Network) (addr : String) (id : PipeId) :
    (n.kill addr).pipe? id = (n.pipe? id).map fun p =>
      if (addr, id) ∈ n.dialed then { p with cut := true } else p := by
  have doomed : id ∈ (n.dialed.filter fun entry => entry.1 = addr).map (·.2) ↔
      (addr, id) ∈ n.dialed := by
    simp [List.mem_map, List.mem_filter]
  simp only [kill, pipe?_foldl_cut, doomed]
  rfl

theorem dialed_cutAll (n : Network) : n.cutAll.1.dialed = [] :=
  n.cutAll_fades.keeps.dialed

theorem dialed_kill (n : Network) (addr : String) :
    (n.kill addr).dialed = n.dialed.filter fun entry => entry.1 ≠ addr :=
  (n.kill_fades addr).keeps.dialed

theorem count_cutAll (distinct : (n.dialed.map (·.2)).Nodup) :
    n.cutAll.2 = (n.dialed.filter (n.live ·.2)).length :=
  (count_foldl_cutLive distinct { n with dialed := [] } 0).trans (Nat.zero_add _)

theorem live_cutAll {entry : String × PipeId} (mem : entry ∈ n.dialed) :
    n.cutAll.1.live entry.2 = false := by
  have cut := n.pipe?_cutAll entry.2
  simp only [List.mem_map_of_mem mem, true_and] at cut
  by_cases alive : n.live entry.2 = true
  · simp only [alive, if_true] at cut
    exact dead_of_cut cut
  · simp only [alive, Bool.false_eq_true, if_false, Option.map_id'] at cut
    exact (live_of_pipe?_eq cut).trans (Bool.eq_false_iff.mpr alive)

theorem live_kill {addr : String} (mem : (addr, id) ∈ n.dialed) : (n.kill addr).live id = false := by
  have cut := n.pipe?_kill addr id
  simp only [mem, if_true] at cut
  exact dead_of_cut cut

end Network

namespace Traffic

/-! ## No live pipe is forgotten -/

/-- A pipe of which a cut would be felt was such a pipe before. -/
theorem live_of_step {t : Traffic} {act : Act} {id : PipeId} (laid : (t.network.pipe? id).isSome)
    (live : (t.step act).network.live id = true) : t.network.live id = true := by
  have laid' := isSome_pipe?_step laid act
  have moves := t.moves_step act id
  rw [Network.live_eq laid', Pipe.live, Bool.and_eq_true, Bool.not_eq_true'] at live
  rw [Network.live_eq laid, Pipe.live, Bool.and_eq_true, Bool.not_eq_true']
  refine ⟨moves.held live.1, Bool.eq_false_iff.mpr fun cut => ?_⟩
  cases live.2.symm.trans (moves.cut cut)

/-- What a network remembers of the pipes that were dialed. -/
structure Remembers (t : Traffic) : Prop where
  distinct : (t.dialed.map (·.2)).Nodup
  laid : ∀ entry ∈ t.dialed, (t.network.pipe? entry.2).isSome
  listed : t.network.dialed.Sublist t.dialed
  live : ∀ entry ∈ t.dialed, t.network.live entry.2 = true → entry ∈ t.network.dialed

variable {t t' : Traffic} {act : Act}

theorem Remembers.dial (h : t.Remembers) (addr : String) (sockets : Array Socket)
    (live : ∀ entry ∈ t.dialed, (t.network.dialedTo addr sockets).live entry.2 = true →
      entry ∈ t.network.dialed)
    (laid : ∀ entry ∈ t.dialed, ((t.network.dialedTo addr sockets).pipe? entry.2).isSome) :
    Remembers
      { t with
        network := t.network.dialedTo addr sockets
        dialed := t.dialed ++ [(addr, t.network.cables.size)] } := by
  have new : t.network.cables.size ∉ t.dialed.map (·.2) := by
    intro mem
    obtain ⟨entry, mem, same⟩ := List.mem_map.mp mem
    have laid := h.laid entry mem
    rw [same, Network.pipe?, Array.getElem?_eq_none (Nat.le_refl _)] at laid
    cases laid
  refine ⟨?_, fun entry mem => ?_, ?_, fun entry mem alive => ?_⟩
  · rw [List.map_append, List.map_singleton]
    refine List.nodup_append.mpr ⟨h.distinct, List.pairwise_singleton _ _, ?_⟩
    intro id mem id' mem' same
    rw [same, List.mem_singleton.mp mem'] at mem
    exact new mem
  · obtain mem | mem := List.mem_append.mp mem
    · exact laid entry mem
    · rw [List.mem_singleton.mp mem, Network.dialedTo, Network.pipe?, Array.getElem?_push_size]
      rfl
  · exact (List.filter_sublist.trans h.listed).append (.refl _)
  · obtain mem | mem := List.mem_append.mp mem
    · refine List.mem_append_left _ (List.mem_filter.mpr ⟨live entry mem alive, ?_⟩)
      obtain ⟨p, known, alive⟩ := (Option.any_eq_true _ _).mp alive
      exact (Option.any_eq_true _ _).mpr ⟨p, known, (Bool.and_eq_true_iff.mp alive).1⟩
    · exact List.mem_append_right _ mem

theorem Remembers.step (h : t.Remembers) (act : Act) : (t.step act).Remembers := by
  have laid : ∀ entry ∈ t.dialed, ((t.step act).network.pipe? entry.2).isSome :=
    fun entry mem => isSome_pipe?_step (h.laid entry mem) act
  have live : ∀ entry ∈ t.dialed, (t.step act).network.live entry.2 = true →
      entry ∈ t.network.dialed :=
    fun entry mem alive => h.live entry mem (live_of_step (h.laid entry mem) alive)
  have turns := t.turns_step act
  generalize t.step act = t' at laid live turns ⊢
  -- Unless a pipe is dialed, what was forgotten has to be dead.
  have forgets (same : t'.dialed = t.dialed) (listed : t'.network.dialed.Sublist t.network.dialed)
      (kept : ∀ entry ∈ t.network.dialed, t'.network.live entry.2 = true →
        entry ∈ t'.network.dialed) : t'.Remembers :=
    ⟨same ▸ h.distinct, same ▸ laid, same ▸ listed.trans h.listed,
      fun entry mem alive => kept entry (live entry (same ▸ mem) alive) alive⟩
  have keeps (same : t'.dialed = t.dialed) (same' : t'.network.dialed = t.network.dialed) :
      t'.Remembers :=
    forgets same (same' ▸ .refl _) fun _ mem _ => same' ▸ mem
  cases turns with
  | passes passes =>
    obtain ⟨books, same⟩ := passes.keeps
    exact keeps same books.dialed
  | dials addr sockets => exact h.dial addr sockets live laid
  | cutsAll =>
    refine forgets rfl (t.network.dialed_cutAll ▸ List.nil_sublist _) fun entry mem alive => ?_
    cases (Network.live_cutAll mem).symm.trans alive
  | kills addr =>
    refine forgets rfl (t.network.dialed_kill addr ▸ List.filter_sublist) fun entry mem alive => ?_
    rw [t.network.dialed_kill]
    refine List.mem_filter.mpr ⟨mem, decide_eq_true fun same => ?_⟩
    have doomed : (addr, entry.2) ∈ t.network.dialed := same ▸ mem
    cases (Network.live_kill doomed).symm.trans alive
  | isInUse | listens | isRefused | failsLinks => exact keeps rfl rfl
  | heals => exact keeps rfl (by rw [t.network.heal_others])

theorem remembers_run (chance : Chance) (acts : List Act) : ((start chance).run acts).Remembers :=
  run_induction ⟨.nil, nofun, .slnil, nofun⟩ (fun _ act h => h.step act) acts

/-! ## The law -/

/-- What a part of a list has of a kind is all that the list has of it, if nothing occurs twice. -/
theorem filter_eq_of_sublist {α : Type} {part whole : List α} {p : α → Bool}
    (sublist : part.Sublist whole) (distinct : whole.Nodup)
    (all : ∀ a ∈ whole, p a = true → a ∈ part) : part.filter p = whole.filter p := by
  induction sublist with
  | slnil => rfl
  | @cons part whole a sublist ih =>
    obtain ⟨unlisted, distinct⟩ := List.nodup_cons.mp distinct
    have absent : ¬ p a = true := fun kind =>
      unlisted (sublist.subset (all a List.mem_cons_self kind))
    rw [List.filter_cons_of_neg absent]
    exact ih distinct fun b mem => all b (List.mem_cons_of_mem _ mem)
  | @cons_cons part whole a sublist ih =>
    obtain ⟨unlisted, distinct⟩ := List.nodup_cons.mp distinct
    have rest : part.filter p = whole.filter p := ih distinct fun b mem kind =>
      (List.mem_cons.mp (all b (List.mem_cons_of_mem _ mem) kind)).resolve_left
        fun same => unlisted (same ▸ mem)
    rw [List.filter_cons, List.filter_cons, rest]

theorem Remembers.filter_live (h : t.Remembers) :
    t.network.dialed.filter (t.network.live ·.2) = t.dialed.filter (t.network.live ·.2) := by
  refine filter_eq_of_sublist h.listed ?_ h.live
  exact List.Pairwise.of_map (·.2) (fun _ _ other same => other (congrArg _ same)) h.distinct

/-- After every run, cutting all pipes cuts each pipe that was ever dialed, of which a half is held and
which is not cut, and touches no other pipe; it tells how many these are, and told at once again to cut
all it tells none. A kill cuts each such pipe that was dialed to the address, and touches no pipe that
was not dialed to it. -/
theorem cuts_reach_the_live_pipes (chance : Chance) (acts : List Act) :
    let t := (start chance).run acts
    let n := t.network
    let live := t.dialed.filter fun entry => n.live entry.2
    (t.dialed.map (·.2)).Nodup ∧
    n.cutAll.2 = live.length ∧
    n.cutAll.1.cutAll.2 = 0 ∧
    (∀ id, n.cutAll.1.pipe? id = (n.pipe? id).map fun p =>
      if id ∈ live.map (·.2) then { p with cut := true } else p) ∧
    ∀ addr id,
      ((addr, id) ∈ live → (n.kill addr).pipe? id = (n.pipe? id).map fun p =>
        { p with cut := true }) ∧
      ((addr, id) ∉ t.dialed → (n.kill addr).pipe? id = n.pipe? id) := by
  intro t n live
  have remembers : t.Remembers := remembers_run chance acts
  have listed : n.dialed.filter (n.live ·.2) = live := remembers.filter_live
  have distinct : (n.dialed.map (·.2)).Nodup :=
    remembers.distinct.sublist (remembers.listed.map _)
  refine ⟨remembers.distinct, ?_, ?_, fun id => ?_, fun addr id => ⟨fun mem => ?_, fun other => ?_⟩⟩
  · rw [Network.count_cutAll distinct, listed]
  · rw [Network.cutAll_eq, n.dialed_cutAll]
    rfl
  · have felt : id ∈ n.dialed.map (·.2) ∧ n.live id = true ↔ id ∈ live.map (·.2) := by
      rw [← listed]
      simp [List.mem_map, List.mem_filter]
    simp only [n.pipe?_cutAll, felt]
  · rw [← listed] at mem
    simp only [n.pipe?_kill, (List.mem_filter.mp mem).1, if_true]
  · have unlisted : (addr, id) ∉ n.dialed := fun mem => other (remembers.listed.subset mem)
    simp only [n.pipe?_kill, unlisted, if_false, Option.map_id']

end Traffic

end Tether.Link
