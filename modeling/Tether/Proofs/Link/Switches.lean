import Tether.Proofs.Link.Turns

/-!
# What the fault switch governs

Setting the failures makes a new switch, which governs the pipes that are dialed from then on. Healing
edits the switch that is now in place. So a pipe follows the settings until the first time that they are
set anew after it was dialed; from then on the failures on it are as likely as they were at that moment,
whatever is set and healed.
-/

namespace Tether.Link

namespace Network

variable {n : Network} {id : PipeId} {w : Option FaultsId}

/-- What lets sends fail: the answers of a generator, and how likely they are to be yes. Without a switch
no send fails. -/
inductive Rated (n : Network) : Option FaultsId → (Rat → Nat → Bool) → Rat → Prop where
  | never (answers : Rat → Nat → Bool) : Rated n none answers 0
  | rate {k : FaultsId} {answers : Rat → Nat → Bool} {p : Rat}
      (known : n.rate? k = some (answers, p)) : Rated n (some k) answers p

/-- How many questions were put to the generator of the switch of a pipe. -/
def asked (n : Network) (id : PipeId) : Nat :=
  ((n.wire? id).bind fun w => w.bind (n.switches[·]?)).elim 0 (·.asked)

theorem snd_roll {k : FaultsId} {f : Faults} (switch : n.switches[k]? = some f) :
    (n.roll (some k)).2 = f.roll.2 := by
  cases rolled : f.roll with
  | mk drawn fault => simp only [roll, switch, rolled]

theorem strikes_eq (wired : n.wire? id = some w) :
    n.strikes id = (w.bind (n.switches[·]?)).any (·.roll.2) := by
  obtain ⟨c, cable, rfl⟩ := Option.map_eq_some_iff.mp wired
  rw [strikes, cable, Option.any_some]
  cases c.faults with
  | none => rfl
  | some k =>
    rw [Option.bind_some]
    cases switch : n.switches[k]? with
    | none => rw [roll, switch]; rfl
    | some f => rw [snd_roll switch, Option.any_some]

variable {answers : Rat → Nat → Bool} {p : Rat}

/-- Chance strikes where a yes is likely at all, and is the answer to the next question. -/
theorem Rated.strikes_iff (rated : n.Rated w answers p) (wired : n.wire? id = some w) :
    n.strikes id = true ↔ 0 < p ∧ answers p (n.asked id) = true := by
  rw [strikes_eq wired, asked, wired, Option.bind_some]
  cases rated with
  | never => exact ⟨nofun, fun likely => absurd likely.1 (by decide)⟩
  | rate known =>
    obtain ⟨f, switch, same⟩ := Option.map_eq_some_iff.mp known
    obtain ⟨rfl, rfl⟩ := Prod.mk.inj same
    rw [Option.bind_some, switch, Option.any_some, Option.elim_some, Faults.roll]
    split
    · next likely => exact (and_iff_right likely).symm
    · next off => exact ⟨nofun, fun likely => absurd likely.1 off⟩

theorem Rated.of_rates {n' : Network} (rated : n.Rated w answers p)
    (rates : ∀ k, n'.rate? k = n.rate? k) : n'.Rated w answers p := by
  cases rated with
  | never => exact .never answers
  | rate known => exact .rate ((rates _).trans known)

theorem Rated.ne_new (rated : n.Rated w answers p) : some n.switches.size ≠ w := by
  rintro rfl
  cases rated with
  | rate known =>
    rw [rate?, Array.getElem?_eq_none (Nat.le_refl _)] at known
    cases known

theorem Rated.failLinks (rated : n.Rated w answers p) (chance : Chance) (seed : UInt64) (odds : Odds) :
    (n.failLinks chance seed odds).Rated w answers p := by
  cases rated with
  | never => exact .never answers
  | rate known =>
    obtain ⟨f, switch, same⟩ := Option.map_eq_some_iff.mp known
    obtain ⟨within, -⟩ := Array.getElem?_eq_some_iff.mp switch
    refine .rate ?_
    rw [rate?, Network.failLinks, Array.getElem?_push, if_neg (Nat.ne_of_lt within), switch,
      Option.map_some, same]

theorem rated_failLinks (n : Network) (chance : Chance) (seed : UInt64) (odds : Odds) :
    (n.failLinks chance seed odds).Rated (some n.switches.size) (chance seed) odds.probability := by
  refine .rate ?_
  rw [rate?, failLinks, Array.getElem?_push_size]
  rfl

/-- To heal is to edit the switch in place. -/
theorem rate?_heal (n : Network) (k : FaultsId) :
    n.heal.rate? k =
      if n.faults = some k then (n.rate? k).map fun (answers, _) => (answers, 0) else n.rate? k := by
  unfold heal
  split
  · next none => simp [none]
  · next current some =>
    simp only [rate?, some, Array.getElem?_modify, Option.some.injEq]
    split
    · simp only [Option.map_map]; rfl
    · rfl

theorem rated_heal (rated : n.Rated n.faults answers p) : n.heal.Rated n.heal.faults answers 0 := by
  have same : n.heal.faults = n.faults := by rw [n.heal_others]
  rw [same]
  cases current : n.faults with
  | none => exact .never answers
  | some k =>
    rw [current] at rated
    cases rated with
    | rate known => exact .rate (by rw [rate?_heal, if_pos current, known, Option.map_some])

theorem Rated.heal (rated : n.Rated w answers p) (other : n.faults ≠ w) :
    n.heal.Rated w answers p := by
  cases rated with
  | never => exact .never answers
  | rate known => exact .rate (by rw [rate?_heal, if_neg other, known])

/-- A dial gives the pipe the switch in place. -/
theorem wire?_of_dial {addr : String} (dialed : (n.dial addr).2 = .ok id) :
    (n.dial addr).1.wire? id = some n.faults ∧ (n.dial addr).1.faults = n.faults := by
  have dials := n.dials_dial addr
  generalize n.dial addr = outcome at dials dialed ⊢
  cases dials with
  | gone | fails => cases dialed
  | lays =>
    cases dialed
    rw [dialedTo, wire?, Array.getElem?_push_size]
    exact ⟨rfl, rfl⟩

end Network

namespace Traffic

/-! ## Settings -/

/-- Whether an act puts another switch in place. -/
def Act.replaces : Act → Bool
  | .failLinks _ _ => true
  | _ => false

/-- What the failures are set to. -/
structure Setting where
  seed : UInt64 := 0
  probability : Rat := 0

/-- What an act sets the failures to, on pipes that follow the settings. -/
def Act.sets (s : Setting) : Act → Setting
  | .failLinks seed odds => ⟨seed, odds.probability⟩
  | .heal => { s with probability := 0 }
  | _ => s

/-- What the failures were last set to. -/
def setting (acts : List Act) : Setting :=
  acts.foldl Act.sets {}

theorem setting_snoc (acts : List Act) (act : Act) :
    setting (acts ++ [act]) = act.sets (setting acts) := by
  rw [setting, List.foldl_append]
  rfl

variable {chance : Chance} {t : Traffic} {act : Act} {w : Option FaultsId}
  {answers : Rat → Nat → Bool} {p : Rat}

/-- Chance stays what it was. -/
theorem chance_run (t : Traffic) (acts : List Act) : (t.run acts).chance = t.chance := by
  refine run_induction (P := fun u => u.chance = t.chance) rfl (fun u act same => ?_) acts
  have turns := u.turns_step act
  generalize u.step act = u' at turns ⊢
  cases turns with
  | passes passes => cases passes <;> exact same
  | _ => exact same

/-- Only setting the failures anew puts another switch in place. -/
theorem faults_step (t : Traffic) (kept : act.replaces = false) :
    (t.step act).network.faults = t.network.faults := by
  have turns := t.turns_step act
  generalize t.step act = t' at turns ⊢
  cases turns with
  | passes passes => exact passes.keeps.1.faults
  | cutsAll => exact t.network.cutAll_fades.keeps.faults
  | kills addr => exact (t.network.kill_fades addr).keeps.faults
  | heals => rw [t.network.heal_others]
  | failsLinks => cases kept
  | isInUse | listens | isRefused | dials => rfl

/-- Only healing edits a switch, and only the one in place. -/
theorem rated_step (rated : t.network.Rated w answers p)
    (spared : act = .heal → t.network.faults ≠ w) : (t.step act).network.Rated w answers p := by
  have turns := t.turns_step act
  generalize t.step act = t' at turns ⊢
  cases turns with
  | passes passes => exact rated.of_rates passes.keeps.1.rates
  | cutsAll => exact rated.of_rates t.network.cutAll_fades.keeps.rates
  | kills addr => exact rated.of_rates (t.network.kill_fades addr).keeps.rates
  | heals => exact rated.heal (spared rfl)
  | failsLinks => exact rated.failLinks _ _ _
  | isInUse | listens | isRefused | dials => exact rated.of_rates fun _ => rfl

/-! ## Runs -/

theorem rated_step_kept (tuned : t.network.Rated t.network.faults answers p)
    (kept : act.replaces = false) (other : act ≠ .heal) :
    (t.step act).network.Rated (t.step act).network.faults answers p := by
  rw [t.faults_step kept]
  exact rated_step tuned fun same => absurd same other

/-- The switch in place is as a setting says. -/
def Tuned (t : Traffic) (s : Setting) : Prop :=
  t.network.Rated t.network.faults (t.chance s.seed) s.probability

theorem Tuned.step {s : Setting} (tuned : t.Tuned s) (act : Act) :
    (t.step act).Tuned (act.sets s) := by
  have chance : (t.step act).chance = t.chance := t.chance_run [act]
  rw [Tuned, chance]
  cases act with
  | failLinks seed odds => exact t.network.rated_failLinks t.chance seed odds
  | heal => exact Network.rated_heal tuned
  | _ => exact rated_step_kept tuned rfl nofun

/-- The switch in place follows the settings. -/
theorem tuned_run (chance : Chance) (acts : List Act) :
    ((start chance).run acts).Tuned (setting acts) :=
  history_induction (P := fun acts t => t.Tuned (setting acts)) [] acts (.never _)
    fun past _ act tuned => setting_snoc past act ▸ tuned.step act

theorem faults_run {kept : List Act} (none : ∀ act ∈ kept, act.replaces = false) (t : Traffic) :
    (t.run kept).network.faults = t.network.faults := by
  induction kept generalizing t with
  | nil => rfl
  | cons act kept ih =>
    obtain ⟨first, rest⟩ := List.forall_mem_cons.mp none
    exact (ih rest (t.step act)).trans (t.faults_step first)

/-- Another switch than a given one is in place after it was replaced. -/
theorem replaced_step (rated : t.network.Rated w answers p)
    (other : act.replaces = false → t.network.faults ≠ w) : (t.step act).network.faults ≠ w := by
  cases replaces : act.replaces with
  | false =>
    rw [t.faults_step replaces]
    exact other replaces
  | true =>
    cases act with
    | failLinks seed odds => exact rated.ne_new
    | _ => cases replaces

/-- A switch that was replaced keeps its likelihood. -/
theorem rated_run (rated : t.network.Rated w answers p) (replaced : t.network.faults ≠ w)
    (acts : List Act) : (t.run acts).network.Rated w answers p := by
  suffices h : (t.run acts).network.Rated w answers p ∧ (t.run acts).network.faults ≠ w from h.1
  refine run_induction (P := fun t => t.network.Rated w answers p ∧ t.network.faults ≠ w)
    ⟨rated, replaced⟩ ?_ acts
  intro t act ⟨rated, replaced⟩
  exact ⟨rated_step rated fun _ => replaced, replaced_step rated fun _ => replaced⟩

theorem wire?_run {id : PipeId} (wired : t.network.wire? id = some w) (acts : List Act) :
    (t.run acts).network.wire? id = some w :=
  run_induction (P := fun t => t.network.wire? id = some w) wired (fun _ act h => wire?_step h act) acts

/-- The switch of a pipe follows the settings until it is replaced. -/
theorem rated_pipe (before after : List Act) {addr : String} {id : PipeId}
    (dialed : (((start chance).run before).network.dial addr).2 = .ok id) :
    let t := (start chance).run (before ++ .dial addr :: after)
    let s := setting (before ++ .dial addr :: after.takeWhile (!·.replaces))
    ∃ w, t.network.wire? id = some w ∧ t.network.Rated w (chance s.seed) s.probability := by
  intro t s
  obtain ⟨wired, faults⟩ := Network.wire?_of_dial dialed
  rw [← network_dial] at wired faults
  have run (acts : List Act) : (start chance).run (before ++ .dial addr :: acts) =
      (((start chance).run before).dial addr).run acts :=
    run_append _ _ _
  refine ⟨_, (congrArg (·.network.wire? id) (run after)).trans (wire?_run wired after), ?_⟩
  have none : ∀ act ∈ after.takeWhile (!·.replaces), act.replaces = false := by
    simpa using List.all_eq_true.mp (List.all_takeWhile (l := after) (p := (!·.replaces)))
  -- The switch was in place as long as it was not replaced, and followed the settings by that.
  have rated : (((start chance).run before).dial addr).run (after.takeWhile (!·.replaces)) |>.Tuned s :=
    run _ ▸ tuned_run chance _
  rw [Tuned, ← run, chance_run, run, faults_run none, faults] at rated
  rw [show t.network = _ from congrArg Traffic.network (run after),
    ← List.takeWhile_append_dropWhile (p := (!·.replaces)) (l := after), run_append]
  generalize (((start chance).run before).dial addr).run (after.takeWhile (!·.replaces)) = t
    at rated ⊢
  have replaced := List.head?_dropWhile_not (!·.replaces) after
  cases later : after.dropWhile (!·.replaces) with
  | nil => exact rated
  | cons act rest =>
    rw [later] at replaced
    have replaces : act.replaces = true := by simpa using replaced
    refine rated_run (rated_step rated ?_) (replaced_step rated ?_) rest
    · rintro rfl
      cases replaces
    · exact fun kept => by cases kept.symm.trans replaces

/-! ## The law -/

/-- The failures on a pipe are as they were set to be by the time that they were first set anew after the
pipe was dialed, or by now if they were not; healing counts only until then. A send fails by chance if and
only if its pipe is not cut, a failure is likely at all, and the generator of that setting answers the next
question with yes; so it has to where a failure is certain. A send that fails by chance cuts the pipe. -/
theorem governed_until_set_anew (sure : chance.Sure) (before after : List Act) {addr : String}
    {id : PipeId} (dialed : (((start chance).run before).network.dial addr).2 = .ok id) (side : Side)
    (chunk : Bytes) :
    let n := ((start chance).run (before ++ .dial addr :: after)).network
    let s := setting (before ++ .dial addr :: after.takeWhile (!·.replaces))
    let struck := (n.send ⟨id, side⟩ chunk).2 = .error (.io "pipe cut by fault injection")
    (struck ↔ n.isCut id = false ∧ 0 < s.probability ∧
      chance s.seed s.probability (n.asked id) = true) ∧
    (s.probability = 1 → n.isCut id = false → struck) ∧
    (struck → (n.send ⟨id, side⟩ chunk).1.isCut id = true) := by
  intro n s struck
  obtain ⟨w, wired, rated⟩ := rated_pipe before after dialed
  have law : struck ↔ n.isCut id = false ∧ 0 < s.probability ∧
      chance s.seed s.probability (n.asked id) = true := by
    rw [← rated.strikes_iff wired]
    exact Network.send_fault_iff
  refine ⟨law, fun certain uncut => law.mpr ⟨uncut, ?_⟩, Network.isCut_of_fault⟩
  rw [certain]
  exact ⟨by decide, sure _ _⟩

/-- A pipe that was dialed while every send failed is not healed once the failures were set anew, and
failures that are set after a pipe was dialed do not reach it. -/
theorem governed_until_set_anew_not_healed :
    let chance : Chance := fun _ p _ => decide (1 ≤ p)
    let failing : List Act := [.failLinks 1 (.number 1), .listen "z"]
    let healed : List Act := [.failLinks 2 (.number 0), .heal]
    let n := ((start chance).run (failing ++ .dial "z" :: healed)).network
    let n' := ((start chance).run ([.listen "z"] ++ .dial "z" :: [.failLinks 3 (.number 1)])).network
    chance.Sure ∧ (((start chance).run failing).network.dial "z").2 = .ok 0 ∧
      (((start chance).run [.listen "z"]).network.dial "z").2 = .ok 0 ∧
      n.isCut 0 = false ∧ n'.isCut 0 = false ∧
      (n.send ⟨0, .near⟩ [120]).2 = .error (.io "pipe cut by fault injection") ∧
      (n'.send ⟨0, .near⟩ [121]).2 ≠ .error (.io "pipe cut by fault injection") := by
  intro chance failing healed n n'
  have sure : chance.Sure := fun _ _ => rfl
  have dialed : (((start chance).run failing).network.dial "z").2 = .ok 0 := rfl
  have dialed' : (((start chance).run [.listen "z"]).network.dial "z").2 = .ok 0 := rfl
  obtain ⟨-, certain, -⟩ := governed_until_set_anew sure failing healed dialed .near [120]
  obtain ⟨law, -, -⟩ :=
    governed_until_set_anew sure [.listen "z"] [.failLinks 3 (.number 1)] dialed' .near [121]
  refine ⟨sure, dialed, dialed', rfl, rfl, certain rfl rfl, fun struck => ?_⟩
  exact absurd (law.mp struck).2.1 (by decide)

end Traffic

end Tether.Link
