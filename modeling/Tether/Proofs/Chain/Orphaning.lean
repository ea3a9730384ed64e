import Tether.Proofs.Chain.Killing
import Tether.Proofs.Chain.Passage
import Tether.Proofs.Chain.Vigil

/-!
# When a chain is given up early

A watcher that waits has looked for a live link after it had noted the announcements. A link that was live
then would have been seen, so none is live until one is attached that the note does not count. What was
attached before the note came before the look, at which the time began. So when the time is over, what was
attached within it is missing from the note: it was attached since, and the watcher went by its time and
not by the announcement.

Of the branches that are ready the watcher takes any, and it does not look for a link once more. So a link
that it missed, which came while the time was running or after it was over and before the chain was ended,
is all that makes an end come early.
-/

namespace Tether.Chain

/-! ## Links and announcements -/

namespace Endpoint

variable {e e' : Endpoint}

/-- What attaches nothing brings no link to life. -/
theorem Moves.live (h : e.Moves e') (live : e'.hasLiveLink = true) : e.hasLiveLink = true := by
  unfold hasLiveLink at live ⊢
  cases current : e'.current with
  | none =>
    rw [current] at live
    cases live
  | some k =>
    rw [current] at live
    obtain same | ⟨none, -⟩ := h.current
    · rw [← same, current]
      have whole := h.whole (Bool.not_eq_true' _ ▸ live)
      simp only [whole, Bool.not_false]
    · cases none.symm.trans current

theorem Works.announced (work : e.Works e') : e'.announced = e.announced := by
  cases work <;> rfl

theorem announced_nameReason (e : Endpoint) (reason : Option Error) :
    (e.nameReason reason).announced = e.announced := by
  unfold nameReason
  split <;> rfl

theorem announced_retireCurrent (e : Endpoint) : e.retireCurrent.announced = e.announced := by
  unfold retireCurrent
  split <;> rfl

theorem announced_attach (e : Endpoint) (seq : Nat) (link : Link.End) :
    (e.attach seq link).1.announced = e.announced := by
  unfold attach
  split
  · rfl
  · cases e.current with
    | none => rfl
    | some old =>
      simp only
      split <;> rfl

end Endpoint

namespace Wired

variable {w : Wired} {act : Act}

/-- Only an installation announces a link. -/
theorem announced_step (other : ∀ seq link pipe, act ≠ .attach seq link pipe) :
    (w.step act).chain.announced = w.chain.announced := by
  cases act with
  | attach seq link pipe => exact absurd rfl (other seq link pipe)
  | nameReason reason => exact Endpoint.announced_nameReason _ reason
  | raise => rfl
  | retireCurrent =>
    simp only [step]
    split
    · exact Endpoint.announced_retireCurrent _
    · rfl
  | close =>
    exact (Endpoint.announced_retireCurrent _).trans (Endpoint.announced_nameReason _ none)
  | _ => exact (works_step w (by constructor)).announced

theorem ne_attach_of_foreign (foreign : act.foreign = true) (seq : Nat) (link : Link.End)
    (pipe : Link.Pipe) : act ≠ .attach seq link pipe := by
  rintro rfl
  cases foreign

/-- Others do not say that a chain is an orphan. -/
theorem orphaned_of_step (foreign : act.foreign = true)
    (orphan : (w.step act).chain.terminal = some .orphaned) :
    w.chain.terminal = some .orphaned := by
  have named {reason : Option Error} (other : reason ≠ some .orphaned)
      (orphan : (w.chain.nameReason reason).terminal = some .orphaned) :
      w.chain.terminal = some .orphaned := by
    rw [Endpoint.nameReason_terminal] at orphan
    cases known : w.chain.terminal with
    | some e => rwa [known] at orphan
    | none =>
      rw [known] at orphan
      cases reason with
      | none => cases orphan
      | some e => exact absurd orphan other
  cases act with
  | attach => cases foreign
  | nameReason reason => exact named (of_decide_eq_true foreign) orphan
  | raise => exact orphan
  | retireCurrent =>
    simp only [step] at orphan
    split at orphan
    · exact (Endpoint.terminal_retireCurrent _).symm.trans orphan
    · exact orphan
  | close =>
    have orphan : (w.chain.nameReason none).terminal = some .orphaned :=
      (Endpoint.terminal_retireCurrent (w.chain.nameReason none).raise).symm.trans orphan
    exact named (fun same => by cases same) orphan
  | _ => exact (works_step w (by constructor)).terminal.symm.trans orphan

end Wired

/-! ## Branches -/

namespace Watch

variable {e : Endpoint} {now timeout : Nat} {w : Watch} {branch : Branch} {step : Step}

/-- What the watcher of an endpoint does from where it stands, and what it has found there. -/
inductive Goes (e : Endpoint) (now timeout : Nat) : Watch → Step → Prop where
  | finds {k : LinkId} (current : e.current = some k) : Goes e now timeout looking (.goOn (linked k))
  | misses (none : e.current = none) : Goes e now timeout looking (.goOn noting)
  | finishes {w : Watch} (killed : e.killed = true) : Goes e now timeout w .finished
  | loses {k : LinkId} (retired : e.retired k = true) : Goes e now timeout (linked k) (.goOn noting)
  | notes : Goes e now timeout noting (.goOn (noted e.announced))
  | returns {n : Nat} (live : e.hasLiveLink = true) : Goes e now timeout (noted n) (.goOn looking)
  /-- It begins to wait when it finds no live link, and has its whole time then. -/
  | waits {n : Nat} (dead : e.hasLiveLink = false) :
    Goes e now timeout (noted n) (.goOn (waiting n (now + timeout)))
  | wakes {n d : Nat} (newer : n < e.announced) : Goes e now timeout (waiting n d) (.goOn looking)
  | expires {n d : Nat} (late : d ≤ now) : Goes e now timeout (waiting n d) .orphaned

theorem goes_of_take? (taken : w.take? e now timeout branch = some step) :
    Goes e now timeout w step := by
  cases w with
  | looking =>
    cases branch with
    | look =>
      simp only [take?] at taken
      split at taken
      · next current =>
        cases taken
        exact .finds current
      · next none =>
        cases taken
        exact .misses none
    | _ => cases taken
  | linked k =>
    cases branch with
    | killed =>
      obtain ⟨killed, ⟨⟩⟩ := Option.ite_none_right_eq_some.mp taken
      exact .finishes killed
    | retired =>
      obtain ⟨retired, ⟨⟩⟩ := Option.ite_none_right_eq_some.mp taken
      exact .loses retired
    | _ => cases taken
  | noting =>
    cases branch with
    | look =>
      cases taken
      exact .notes
    | _ => cases taken
  | noted n =>
    cases branch with
    | look =>
      simp only [take?] at taken
      split at taken
      · next live =>
        cases taken
        exact .returns live
      · next dead =>
        cases taken
        exact .waits (Bool.eq_false_iff.mpr dead)
    | _ => cases taken
  | waiting n d =>
    cases branch with
    | killed =>
      obtain ⟨killed, ⟨⟩⟩ := Option.ite_none_right_eq_some.mp taken
      exact .finishes killed
    | announced =>
      obtain ⟨newer, ⟨⟩⟩ := Option.ite_none_right_eq_some.mp taken
      exact .wakes newer
    | expired =>
      obtain ⟨late, ⟨⟩⟩ := Option.ite_none_right_eq_some.mp taken
      exact .expires late
    | _ => cases taken

end Watch

namespace Vigil

variable {v v' before : Vigil}

/-! ## What an event can do -/

/-- An act of the watcher as it ends the chain and has named why, with the stages around it. -/
inductive Ending : Stage → Wired.Act → Stage → Prop where
  | raises : Ending .dying .raise .parting
  | parts : Ending .parting .retireCurrent .finished

/-- What one event can have done. -/
inductive Did (v : Vigil) : Vigil → Prop where
  | rests : Did v v
  | installs (seq : Nat) (link : Link.End) (wired : Wired)
      (attached : wired.chain = (v.chain.attach seq link).1) :
    Did v { v with wired, installed := v.installed ++ [v.clock] }
  | announces (pending : v.chain.announced < v.installed.length) :
    Did v { v with wired := { v.wired with chain := v.chain.announce } }
  | elsewhere (act : Wired.Act) (foreign : act.foreign = true) :
    Did v { v with wired := v.wired.step act }
  | goesOn {w next : Watch} {branch : Watch.Branch} (watching : v.stage = .watching w)
      (taken : w.take? v.chain v.clock v.timeout branch = some (.goOn next)) :
    Did v { v with stage := .watching next }
  | finishes : Did v { v with stage := .finished }
  /-- The time is over. -/
  | orphans {n d : Nat} (waiting : v.stage = .watching (.waiting n d)) (late : d ≤ v.clock) :
    Did v { v with stage := .condemning n }
  | names {n : Nat} (condemning : v.stage = .condemning n) :
    Did v { v with
      wired := v.wired.step (.nameReason (some .orphaned))
      stage := .dying
      verdict := some ⟨v.clock, n⟩ }
  | ends {act : Wired.Act} {stage : Stage} (ending : Ending v.stage act stage) :
    Did v { v with wired := v.wired.step act, stage }
  | ticks : Did v { v with clock := v.clock + 1 }

theorem did_step (v : Vigil) (event : Event) : v.Did (v.step event) := by
  cases event with
  | install seq link pipe =>
    simp only [step, install]
    split
    · exact .rests
    · next attached => exact .installs seq link _ (by rw [attached])
  | announce =>
    simp only [step, announce]
    split
    · next pending => exact .announces pending
    · exact .rests
  | watch branch =>
    simp only [step, watch]
    split
    · next w watching =>
      split
      · exact .rests
      · next taken => exact .goesOn watching taken
      · exact .finishes
      · next taken =>
        cases Watch.goes_of_take? taken with
        | expires late => exact .orphans watching late
    · exact .rests
  | kill =>
    have ending {stage : Stage} {act : Wired.Act} {next : Stage} (ends : Ending stage act next)
        (here : v.stage = stage) : v.Did { v with wired := v.wired.step act, stage := next } :=
      .ends (here ▸ ends)
    simp only [step, kill]
    split
    · next condemning => exact .names condemning
    · next dying => exact ending .raises dying
    · next parting => exact ending .parts parting
    · exact .rests
  | elsewhere act =>
    simp only [step]
    split
    · next foreign => exact .elsewhere act foreign
    · exact .rests
  | tick => exact .ticks

theorem Ending.ne_attach {stage next : Stage} {act : Wired.Act} (ending : Ending stage act next)
    (seq : Nat) (link : Link.End) (pipe : Link.Pipe) : act ≠ .attach seq link pipe := by
  cases ending <;> nofun

theorem Ending.not_watching {stage next : Stage} {act : Wired.Act} (ending : Ending stage act next)
    (w : Watch) : next ≠ .watching w := by
  cases ending <;> nofun

theorem Ending.not_condemning {stage next : Stage} {act : Wired.Act}
    (ending : Ending stage act next) (n : Nat) : next ≠ .condemning n := by
  cases ending <;> nofun

/-! ## What a note says -/

/-- What a watcher knows by a note of `n` announcements, if no link was live when it looked after it. -/
structure Noted (v : Vigil) (n : Nat) : Prop where
  noted : n ≤ v.installed.length
  /-- A live link was attached after the look. -/
  fresh : v.chain.hasLiveLink = true → n < v.installed.length

/-- Something happens that attaches nothing and brings no link to life. -/
theorem Noted.acts {n : Nat} (h : v.Noted n) (installed : v'.installed = v.installed)
    (live : v'.chain.hasLiveLink = true → v.chain.hasLiveLink = true) : v'.Noted n :=
  ⟨installed ▸ h.noted, fun alive => installed ▸ h.fresh (live alive)⟩

theorem Noted.install {n : Nat} (h : v.Noted n) (wired : Wired) :
    Noted { v with wired, installed := v.installed ++ [v.clock] } n := by
  have noted := h.noted
  constructor
  · simp only [List.length_append, List.length_singleton]
    omega
  · intro _
    simp only [List.length_append, List.length_singleton]
    omega

/-- The first `n` links were attached long enough before a moment. -/
def Older (v : Vigil) (n moment : Nat) : Prop :=
  ∀ m ∈ v.installed.take n, m + v.timeout ≤ moment

theorem Older.mono {n d t : Nat} (h : v.Older n d) (le : d ≤ t) : v.Older n t :=
  fun m mem => Nat.le_trans (h m mem) le

theorem Older.install {n d : Nat} (h : v.Older n d) (noted : n ≤ v.installed.length) (wired : Wired) :
    Older { v with wired, installed := v.installed ++ [v.clock] } n d := by
  intro m mem
  rw [List.take_append_of_le_length noted] at mem
  exact h m mem

/-- What holds throughout a run. -/
structure Keeps (v : Vigil) : Prop where
  announced : v.chain.announced ≤ v.installed.length
  installed : ∀ m ∈ v.installed, m ≤ v.clock
  looks : ∀ n, v.stage = .watching (.noted n) → n ≤ v.installed.length
  waits : ∀ n d, v.stage = .watching (.waiting n d) → v.Noted n ∧ v.Older n d
  condemns : ∀ n, v.stage = .condemning n → v.Noted n ∧ v.Older n v.clock
  verdict : ∀ r, v.verdict = some r →
    r.moment ≤ v.clock ∧ r.noted ≤ v.installed.length ∧ v.Older r.noted r.moment
  undecided : ∀ w, v.stage = .watching w → v.verdict = none
  unnamed : ∀ n, v.stage = .condemning n → v.verdict = none
  reason : v.chain.terminal = some .orphaned → ∃ r, v.verdict = some r

theorem keeps_start (side : Link.Side) (id : Id) (depth timeout : Nat) :
    (start side id depth timeout).Keeps where
  announced := Nat.le_refl 0
  installed := nofun
  looks := nofun
  waits := nofun
  condemns := nofun
  verdict := nofun
  undecided _ _ := rfl
  unnamed := nofun
  reason := nofun

theorem Keeps.did (h : v.Keeps) (did : v.Did v') : v'.Keeps := by
  cases did with
  | rests => exact h
  | installs seq link wired attached =>
    have longer : v.installed.length ≤ (v.installed ++ [v.clock]).length := by simp
    refine ⟨?_, fun m mem => ?_, fun n noted => Nat.le_trans (h.looks n noted) longer,
      fun n d waiting => ?_, fun n condemning => ?_, fun r found => ?_, h.undecided, h.unnamed,
      fun orphan => ?_⟩
    · change wired.chain.announced ≤ _
      rw [attached, Endpoint.announced_attach]
      exact Nat.le_trans h.announced longer
    · rcases List.mem_append.mp mem with old | new
      · exact h.installed m old
      · exact Nat.le_of_eq (List.mem_singleton.mp new)
    · obtain ⟨noted, older⟩ := h.waits n d waiting
      exact ⟨noted.install wired, older.install noted.noted wired⟩
    · obtain ⟨noted, older⟩ := h.condemns n condemning
      exact ⟨noted.install wired, older.install noted.noted wired⟩
    · obtain ⟨past, noted, older⟩ := h.verdict r found
      exact ⟨past, Nat.le_trans noted longer, older.install noted wired⟩
    · refine h.reason ?_
      rw [← (Endpoint.terminal_attach v.chain seq link).1, ← attached]
      exact orphan
  | announces pending =>
    exact ⟨pending, h.installed, h.looks,
      fun n d waiting => ⟨(h.waits n d waiting).1.acts rfl id, (h.waits n d waiting).2⟩,
      fun n condemning => ⟨(h.condemns n condemning).1.acts rfl id, (h.condemns n condemning).2⟩,
      h.verdict, h.undecided, h.unnamed, h.reason⟩
  | elsewhere act foreign =>
    have moved := Wired.moves_step v.wired (Wired.ne_attach_of_foreign foreign)
    refine ⟨?_, h.installed, h.looks,
      fun n d waiting => ⟨(h.waits n d waiting).1.acts rfl moved.live, (h.waits n d waiting).2⟩,
      fun n condemning => ⟨(h.condemns n condemning).1.acts rfl moved.live, (h.condemns n condemning).2⟩,
      h.verdict, h.undecided, h.unnamed, fun orphan => ?_⟩
    · exact (Wired.announced_step (Wired.ne_attach_of_foreign foreign)).symm ▸ h.announced
    · exact h.reason (Wired.orphaned_of_step foreign orphan)
  | goesOn watching taken =>
    refine ⟨h.announced, h.installed, fun n noted => ?_, fun n d waiting => ?_, nofun, h.verdict,
      fun _ _ => h.undecided _ watching, nofun, h.reason⟩
    · cases noted
      cases Watch.goes_of_take? taken with
      | notes => exact h.announced
    · cases waiting
      cases Watch.goes_of_take? taken with
      | waits dead =>
        refine ⟨⟨h.looks n watching, fun live => ?_⟩, fun m mem => ?_⟩
        · cases dead.symm.trans live
        · exact Nat.add_le_add_right (h.installed m (List.mem_of_mem_take mem)) _
  | finishes =>
    exact ⟨h.announced, h.installed, nofun, nofun, nofun, h.verdict, nofun, nofun, h.reason⟩
  | orphans waiting late =>
    refine ⟨h.announced, h.installed, nofun, nofun, fun n condemning => ?_, h.verdict, nofun,
      fun _ _ => h.undecided _ waiting, h.reason⟩
    cases condemning
    obtain ⟨noted, older⟩ := h.waits _ _ waiting
    exact ⟨noted.acts rfl id, older.mono late⟩
  | @names n condemning =>
    refine ⟨?_, h.installed, nofun, nofun, nofun, fun r found => ?_, nofun, nofun,
      fun _ => ⟨_, rfl⟩⟩
    · exact (Endpoint.announced_nameReason _ _).symm ▸ h.announced
    · cases found
      obtain ⟨noted, older⟩ := h.condemns n condemning
      exact ⟨Nat.le_refl _, noted.noted, older⟩
  | @ends act stage ending =>
    have announced := Wired.announced_step (w := v.wired) ending.ne_attach
    refine ⟨announced.symm ▸ h.announced, h.installed,
      fun n noted => absurd noted (ending.not_watching _),
      fun n d waiting => absurd waiting (ending.not_watching _),
      fun n condemning => absurd condemning (ending.not_condemning n), h.verdict,
      fun w watching => absurd watching (ending.not_watching w),
      fun n condemning => absurd condemning (ending.not_condemning n), fun orphan => ?_⟩
    generalize v.stage = before at ending
    cases ending with
    | raises => exact h.reason orphan
    | parts => exact h.reason (Wired.orphaned_of_step rfl orphan)
  | ticks =>
    exact ⟨h.announced, fun m mem => Nat.le_succ_of_le (h.installed m mem), h.looks,
      fun n d waiting => ⟨(h.waits n d waiting).1.acts rfl id, (h.waits n d waiting).2⟩,
      fun n condemning => ⟨(h.condemns n condemning).1.acts rfl id,
        (h.condemns n condemning).2.mono (Nat.le_succ _)⟩,
      fun r found => ⟨Nat.le_succ_of_le (h.verdict r found).1, (h.verdict r found).2⟩,
      h.undecided, h.unnamed, h.reason⟩

theorem keeps_run (side : Link.Side) (id : Id) (depth timeout : Nat) (events : List Event) :
    ((start side id depth timeout).run events).Keeps :=
  run_induction (keeps_start side id depth timeout) (fun v event h => h.did (v.did_step event))
    events

/-! ## What is left of a moment -/

/-- The watcher relies on a note of `n` announcements: it waits for another one, or waited in vain. -/
def Relies (v : Vigil) (n : Nat) : Prop :=
  (∃ d, v.stage = .watching (.waiting n d)) ∨ v.stage = .condemning n

theorem Keeps.fresh (h : v.Keeps) {n : Nat} (relies : v.Relies n)
    (live : v.chain.hasLiveLink = true) : n < v.installed.length := by
  obtain ⟨d, waiting⟩ | condemning := relies
  · exact (h.waits n d waiting).1.fresh live
  · exact (h.condemns n condemning).1.fresh live

/-- What a later state says of an earlier one. -/
structure Since (before v : Vigil) : Prop where
  keeps : v.Keeps
  timeout : v.timeout = before.timeout
  clock : before.clock ≤ v.clock
  reason : ∀ e, before.chain.terminal = some e → v.chain.terminal = some e
  decided : ∀ r, before.verdict = some r → v.verdict = some r
  /-- A wait that ends before its whole time has passed had begun. -/
  waits : ∀ n d, v.stage = .watching (.waiting n d) → d < before.clock + before.timeout →
    before.Relies n
  condemns : ∀ n, v.stage = .condemning n → v.clock < before.clock + before.timeout →
    before.Relies n
  verdict : before.verdict = none → ∀ r, v.verdict = some r →
    r.moment < before.clock + before.timeout → before.Relies r.noted

theorem Keeps.since (h : v.Keeps) : v.Since v where
  keeps := h
  timeout := rfl
  clock := Nat.le_refl _
  reason _ named := named
  decided _ found := found
  waits _ d waiting _ := .inl ⟨d, waiting⟩
  condemns _ condemning _ := .inr condemning
  verdict none r found := by cases none.symm.trans found

theorem Since.did (h : before.Since v) (did : v.Did v') : before.Since v' := by
  have keeps := h.keeps.did did
  cases did with
  | rests => exact h
  | installs seq link wired attached =>
    refine ⟨keeps, h.timeout, h.clock, fun e named => ?_, h.decided, h.waits, h.condemns, h.verdict⟩
    have terminal := (Endpoint.terminal_attach v.chain seq link).1
    rw [← attached] at terminal
    exact terminal.trans (h.reason e named)
  | announces =>
    exact ⟨keeps, h.timeout, h.clock, h.reason, h.decided, h.waits, h.condemns, h.verdict⟩
  | elsewhere act =>
    exact ⟨keeps, h.timeout, h.clock, fun e named => Wired.terminal_step (h.reason e named) act,
      h.decided, h.waits, h.condemns, h.verdict⟩
  | goesOn watching taken =>
    refine ⟨keeps, h.timeout, h.clock, h.reason, h.decided, fun n d waiting short => ?_, nofun,
      h.verdict⟩
    cases waiting
    cases Watch.goes_of_take? taken with
    | waits =>
      rw [h.timeout] at short
      exact absurd short (Nat.not_lt.mpr (Nat.add_le_add_right h.clock _))
  | finishes => exact ⟨keeps, h.timeout, h.clock, h.reason, h.decided, nofun, nofun, h.verdict⟩
  | orphans waiting late =>
    refine ⟨keeps, h.timeout, h.clock, h.reason, h.decided, nofun, fun n condemning short => ?_,
      h.verdict⟩
    cases condemning
    exact h.waits _ _ waiting (Nat.lt_of_le_of_lt late short)
  | @names n condemning =>
    refine ⟨keeps, h.timeout, h.clock, fun e named => Wired.terminal_step (h.reason e named) _,
      fun r found => ?_, nofun, nofun, fun _ r found short => ?_⟩
    · cases (h.keeps.unnamed n condemning).symm.trans (h.decided r found)
    · cases found
      exact h.condemns n condemning short
  | @ends act stage ending =>
    exact ⟨keeps, h.timeout, h.clock, fun e named => Wired.terminal_step (h.reason e named) act,
      h.decided, fun n d waiting => absurd waiting (ending.not_watching _),
      fun n condemning => absurd condemning (ending.not_condemning n), h.verdict⟩
  | ticks =>
    exact ⟨keeps, h.timeout, Nat.le_succ_of_le h.clock, h.reason, h.decided, h.waits,
      fun n condemning short => h.condemns n condemning (Nat.lt_of_succ_lt short), h.verdict⟩

theorem Keeps.since_run (h : v.Keeps) (later : List Event) : v.Since (v.run later) :=
  run_induction h.since (fun u event held => held.did (u.did_step event)) later

/-- A verdict that is given later than now is not given yet. -/
theorem Since.undecided (h : before.Since v) (keeps : before.Keeps) {r : Verdict}
    (found : v.verdict = some r) (later : before.clock < r.moment) : before.verdict = none := by
  cases known : before.verdict with
  | none => rfl
  | some r' =>
    cases (h.decided r' known).symm.trans found
    exact absurd (keeps.verdict r known).1 (Nat.not_le.mpr later)

/-! ## The law -/

/-- While its time runs, a watcher that waits goes on only once the chain is killed or a link that it has
not noted is announced. Then it looks anew. -/
theorem looks_of_take? {n d : Nat} {branch : Watch.Branch} {s : Watch.Step}
    (early : v.clock < d)
    (taken : (Watch.waiting n d).take? v.chain v.clock v.timeout branch = some s) :
    s = .finished ∧ v.chain.killed = true ∨ s = .goOn .looking ∧ n < v.chain.announced := by
  cases Watch.goes_of_take? taken with
  | finishes killed => exact .inl ⟨rfl, killed⟩
  | wakes newer => exact .inr ⟨rfl, newer⟩
  | expires late => exact absurd early (Nat.not_lt.mpr late)

/-- When an accepted chain is given up as an orphan too early. Let a run give it up at a moment `t`, when
the watcher had noted `n` announcements before its last look.

* A link was attached within the time before `t` if and only if one was that the watcher missed: one beyond
  the first `n`. And a link is live at a moment within that time only if one was missed by then.
* While the watcher waits, its time ends no earlier than its whole length after each link that it has
  noted; and until then it goes on only to look anew, for a link that is announced, or with the chain
  killed.
* Only a verdict makes it the reason of the end, and it replaces none that was named before. -/
theorem orphaned_early_iff_missed (side : Link.Side) (id : Id) (depth timeout : Nat)
    (before after : List Event) :
    let s := (start side id depth timeout).run before
    let v := s.run after
    (∀ t n, v.verdict = some ⟨t, n⟩ →
      ((∃ m ∈ v.installed, m < t ∧ t < m + timeout) ↔
        ∃ m ∈ v.installed.drop n, m < t ∧ t < m + timeout) ∧
      (s.clock < t → t < s.clock + timeout → s.chain.hasLiveLink = true → n < s.installed.length)) ∧
    (∀ n d, v.stage = .watching (.waiting n d) → (∀ m ∈ v.installed.take n, m + timeout ≤ d) ∧
      (v.clock < d → ∀ branch next,
        (Watch.waiting n d).take? v.chain v.clock timeout branch = some next →
        next = .finished ∧ v.chain.killed = true ∨ next = .goOn .looking ∧ n < v.chain.announced)) ∧
    (v.chain.terminal = some .orphaned → ∃ r, v.verdict = some r) ∧
    ∀ e, s.chain.terminal = some e → v.chain.terminal = some e := by
  intro s v
  have keeps : s.Keeps := keeps_run side id depth timeout before
  have since : s.Since v := keeps.since_run after
  have time : s.timeout = timeout :=
    ((keeps_start side id depth timeout).since_run before).timeout
  have time' : v.timeout = timeout := since.timeout.trans time
  refine ⟨fun t n found => ⟨⟨?_, ?_⟩, fun later short live => ?_⟩, fun n d waiting => ⟨?_, ?_⟩,
    since.keeps.reason, since.reason⟩
  · rintro ⟨m, mem, earlier, short⟩
    rw [← List.take_append_drop n v.installed] at mem
    rcases List.mem_append.mp mem with old | new
    · have long : m + v.timeout ≤ t := (since.keeps.verdict _ found).2.2 m old
      exact absurd (Nat.lt_of_lt_of_le short (time' ▸ long)) (Nat.lt_irrefl _)
    · exact ⟨m, new, earlier, short⟩
  · rintro ⟨m, mem, within⟩
    exact ⟨m, List.mem_of_mem_drop mem, within⟩
  · have undecided := since.undecided keeps found later
    exact keeps.fresh (since.verdict undecided _ found (time.symm ▸ short)) live
  · exact time' ▸ (since.keeps.waits n d waiting).2
  · intro early branch next taken
    exact looks_of_take? early (time'.symm ▸ taken)

/-- The time is over, then a link is attached and announced, and then the watcher learns that its time is
over. It missed the link, and gives the chain up although the link is live. -/
theorem orphaned_early_iff_missed_late_poll :
    let v := (start .far ⟨7⟩ 4 3).run
      [.watch .look, .watch .look, .watch .look, .tick, .tick, .tick, .tick, .install 1 ⟨0, .far⟩ {},
        .announce, .tick, .watch .expired, .kill]
    v.verdict = some ⟨5, 0⟩ ∧ (∃ m ∈ v.installed, m < 5 ∧ 5 < m + 3) ∧ v.chain.hasLiveLink = true ∧
      v.chain.terminal = some .orphaned := by
  intro v
  have verdict : v.verdict = some ⟨5, 0⟩ := by decide
  have missed : ∃ m ∈ v.installed.drop 0, m < 5 ∧ 5 < m + 3 := ⟨4, by decide, by decide, by decide⟩
  obtain ⟨early, -⟩ := orphaned_early_iff_missed .far ⟨7⟩ 4 3 [] _
  exact ⟨verdict, (early 5 0 verdict).1.mpr missed, by decide, by decide⟩

end Vigil

end Tether.Chain
