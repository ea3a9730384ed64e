import Tether.Proofs.Link.Turns

/-!
# Gone until someone listens again

A kill makes an address gone: its listener is cut off and dials say that it is gone. This is lifted by
one thing alone, which is that someone listens on the address. Nobody can be listening there by then,
so the first who tries succeeds, and from then on the address can be dialed as before. So whether a
dial says that an address is gone depends on the history alone: on whether it was killed after it was
last listened on.
-/

namespace Tether.Link.Traffic

/-- Whether an address was killed and has not been listened on since. -/
def KilledLast (acts : List Act) (addr : String) : Prop :=
  ∃ earlier later, acts = earlier ++ .kill addr :: later ∧ .listen addr ∉ later

variable {acts more : List Act} {act : Act} {addr : String}

theorem not_killedLast_nil : ¬ KilledLast [] addr := by
  rintro ⟨earlier, later, eq, -⟩
  cases earlier <;> cases eq

theorem KilledLast.append (h : KilledLast acts addr) (none : .listen addr ∉ more) :
    KilledLast (acts ++ more) addr := by
  obtain ⟨earlier, later, rfl, quiet⟩ := h
  refine ⟨earlier, later ++ more, by simp, fun mem => ?_⟩
  exact (List.mem_append.mp mem).elim quiet none

theorem killedLast_snoc :
    KilledLast (acts ++ [act]) addr ↔
      act = .kill addr ∨ KilledLast acts addr ∧ act ≠ .listen addr := by
  constructor
  · rintro ⟨earlier, later, eq, quiet⟩
    obtain rfl | ⟨later, last, rfl⟩ := later.eq_nil_or_concat
    · obtain ⟨-, same⟩ := List.append_inj' eq rfl
      exact .inl (List.singleton_inj.mp same)
    · rw [List.concat_eq_append, ← List.cons_append, ← List.append_assoc] at eq
      obtain ⟨rfl, same⟩ := List.append_inj' eq rfl
      obtain rfl := List.singleton_inj.mp same
      rw [List.concat_eq_append] at quiet
      refine .inr ⟨⟨earlier, later, rfl, fun mem => quiet (List.mem_append_left _ mem)⟩, ?_⟩
      rintro rfl
      exact quiet (List.mem_append_right _ (List.mem_singleton_self _))
  · rintro (rfl | ⟨killed, other⟩)
    · exact ⟨acts, [], rfl, List.not_mem_nil⟩
    · exact killed.append fun mem => other (List.mem_singleton.mp mem).symm

theorem killedLast_kill {a : String} :
    KilledLast (acts ++ [.kill a]) addr ↔ addr = a ∨ KilledLast acts addr := by
  rw [killedLast_snoc, Act.kill.injEq, eq_comm, and_iff_left nofun]

theorem killedLast_listen {a : String} :
    KilledLast (acts ++ [.listen a]) addr ↔ KilledLast acts addr ∧ addr ≠ a := by
  rw [killedLast_snoc, or_iff_right nofun, ne_eq, Act.listen.injEq, eq_comm]

theorem killedLast_of_other (kill : ∀ a, act ≠ .kill a) (listen : ∀ a, act ≠ .listen a) :
    KilledLast (acts ++ [act]) addr ↔ KilledLast acts addr := by
  rw [killedLast_snoc, or_iff_right (kill addr), and_iff_left (listen addr)]

/-- What holds of the addresses of a network after every run. -/
structure Buried (acts : List Act) (n : Network) : Prop where
  gone : ∀ addr, addr ∈ n.gone ↔ KilledLast acts addr
  /-- Nobody listens on an address that is gone. -/
  unheard : ∀ addr ∈ n.gone, n.listeners.lookup addr = none

variable {t : Traffic} {n : Network}

theorem Buried.of_eq (h : Buried acts n) {n' : Network} (gone : n'.gone = n.gone)
    (known : ∀ a, n.listeners.lookup a = none → n'.listeners.lookup a = none)
    (kill : ∀ a, act ≠ .kill a) (listen : ∀ a, act ≠ .listen a) : Buried (acts ++ [act]) n' := by
  constructor
  · intro a
    rw [killedLast_of_other kill listen, gone, h.gone]
  · intro a mem
    rw [gone] at mem
    exact known a (h.unheard a mem)

theorem Buried.kill (h : Buried acts n) (addr : String) :
    Buried (acts ++ [.kill addr]) (n.kill addr) := by
  have keeps := (n.kill_fades addr).keeps
  constructor
  · intro a
    rw [killedLast_kill, keeps.gone, ← h.gone]
    exact List.mem_cons
  · intro a mem
    rw [keeps.gone] at mem
    rw [keeps.listeners]
    obtain rfl | mem := List.mem_cons.mp mem
    · exact Network.lookup_filter_ne _ a
    · exact Network.lookup_filter_eq_none (h.unheard a mem) _

/-- To listen is to lift it. -/
theorem Buried.opened (h : Buried acts n) (addr : String) :
    Buried (acts ++ [.listen addr]) (n.opened addr) := by
  constructor
  · intro a
    rw [killedLast_listen, Network.opened, List.mem_filter, h.gone, decide_eq_true_iff]
  · intro a mem
    obtain ⟨mem, other⟩ := List.mem_filter.mp mem
    rw [Network.opened, List.lookup_cons, beq_eq_false_iff_ne.mpr (of_decide_eq_true other)]
    exact Network.lookup_filter_eq_none (h.unheard a mem) _

/-- Where someone listens nothing was to be lifted. -/
theorem Buried.inUse (h : Buried acts n) {socket : SocketId}
    (known : n.listeners.lookup addr = some socket) : Buried (acts ++ [.listen addr]) n := by
  refine ⟨fun a => ?_, h.unheard⟩
  rw [killedLast_listen, ← h.gone, iff_self_and]
  intro mem same
  subst same
  cases known.symm.trans (h.unheard a mem)

theorem Buried.keeps (h : Buried acts n) {n' : Network} (keeps : n.Keeps n')
    (other : ∀ a, act ≠ .kill a) (other' : ∀ a, act ≠ .listen a) : Buried (acts ++ [act]) n' :=
  h.of_eq keeps.gone (fun _ => keeps.listeners ▸ id) other other'

theorem Buried.step (h : Buried acts t.network) (act : Act) :
    Buried (acts ++ [act]) (t.step act).network := by
  have turns := t.turns_step act
  generalize t.step act = t' at turns ⊢
  cases turns with
  | passes passes =>
    have plain := passes.plain
    refine h.keeps passes.keeps.1 ?_ ?_ <;> (rintro a rfl; cases plain)
  | isInUse known => exact h.inUse known
  | listens addr => exact h.opened addr
  | isRefused known => exact h.of_eq rfl known nofun nofun
  | cutsAll =>
    have keeps := t.network.cutAll_fades.keeps
    exact h.of_eq keeps.gone (fun _ => keeps.listeners ▸ id) nofun nofun
  | kills addr => exact h.kill addr
  | heals => exact t.network.heal_others ▸ h.of_eq rfl (fun _ => id) nofun nofun
  | dials | failsLinks => exact h.of_eq rfl (fun _ => id) nofun nofun

theorem buried_run (chance : Chance) (acts : List Act) :
    Buried acts ((start chance).run acts).network := by
  have buried_start : Buried [] (start chance).network :=
    ⟨fun _ => ⟨nofun, fun killed => absurd killed not_killedLast_nil⟩, nofun⟩
  exact history_induction (P := fun acts t => Buried acts t.network) [] acts buried_start
    fun _ _ act h => h.step act

/-! ## The law -/

theorem dial_gone_iff (n : Network) (addr a : String) :
    (n.dial addr).2 = .error (.gone a) ↔ a = addr ∧ addr ∈ n.gone := by
  have dials := n.dials_dial addr
  generalize n.dial addr = outcome at dials ⊢
  cases dials with
  | gone killed =>
    constructor
    · intro told
      cases told
      exact ⟨rfl, killed⟩
    · rintro ⟨rfl, -⟩
      rfl
  | fails _ alive => exact ⟨nofun, fun ⟨_, killed⟩ => absurd killed alive⟩
  | lays _ alive => exact ⟨nofun, fun ⟨_, killed⟩ => absurd killed alive⟩

/-- Where nobody listens, listening succeeds, and then a dial succeeds unless the address is down. -/
theorem listen_revives (unheard : n.listeners.lookup addr = none) :
    (∃ socket, (n.listen addr).2 = .ok socket) ∧
      (addr ∉ n.down → ∃ pipe, ((n.listen addr).1.dial addr).2 = .ok pipe) := by
  have opened : n.listen addr = (n.opened addr, .ok n.sockets.size) := by
    unfold Network.listen
    rw [unheard]
    rfl
  rw [opened]
  refine ⟨⟨_, rfl⟩, fun up => ?_⟩
  have alive : addr ∉ n.gone.filter (· ≠ addr) := fun mem =>
    of_decide_eq_true (List.mem_filter.mp mem).2 rfl
  simp only [Network.opened, Network.dial, if_neg alive, if_neg up, List.lookup_cons_self,
    Network.holdsSocket, Array.getElem?_push_size, Option.any_some, if_true]
  exact ⟨_, rfl⟩

/-- Whether a dial says that an address is gone depends on the history alone: it says so if and only
if the address was killed and nobody tried to listen on it since. So an address is not gone before it
was killed, and once a dial says that it is gone every later one does, until someone listens. But
whoever tries to listen succeeds, and then the address is dialed as before. -/
theorem gone_until_listened_again (chance : Chance) (acts : List Act) (addr : String) :
    let n := ((start chance).run acts).network
    (∀ a, (n.dial addr).2 = .error (.gone a) ↔ a = addr ∧ KilledLast acts addr) ∧
    (KilledLast acts addr →
      (∀ more, .listen addr ∉ more →
        (((start chance).run (acts ++ more)).network.dial addr).2 = .error (.gone addr)) ∧
      (∃ socket, (n.listen addr).2 = .ok socket) ∧
      (addr ∉ n.down → ∃ pipe, ((n.listen addr).1.dial addr).2 = .ok pipe)) := by
  intro n
  have buried := buried_run chance acts
  refine ⟨fun a => ?_, fun killed => ⟨fun more quiet => ?_, ?_⟩⟩
  · rw [dial_gone_iff, buried.gone]
  · rw [dial_gone_iff, (buried_run chance (acts ++ more)).gone]
    exact ⟨rfl, killed.append quiet⟩
  · exact listen_revives (buried.unheard addr ((buried.gone addr).mpr killed))

end Tether.Link.Traffic
