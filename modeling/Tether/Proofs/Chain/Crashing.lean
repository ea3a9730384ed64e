import Mathlib.Data.List.Induction
import Tether.Proofs.Chain.Upkeep

/-!
# What an event does to a dialer

An event whose sums fit does one of a few things to a dialer, and none of them is a crash. An event
with a sum that does not fit ends the dialer and changes nothing else. So a dialer has crashed exactly
if such an event was among those of its run.
-/

namespace Tether.Chain

namespace Upkeep

variable {u u' : Upkeep}

/-! ## What an event can do -/

/-- What one event can have done whose sums fit. -/
inductive Did (u : Upkeep) : Upkeep → Prop where
  | rests : Did u u
  | elsewhere (act : Wired.Act) (allowed : u.wired.allows act = true) :
    Did u { u with wired := u.wired.step act }
  | pauses (resting : u.stage = .resting) : Did u { u with stage := .pausing }
  | resumes (pausing : u.stage = .pausing)
      (fits : u.checks = true → u.memory.seq.toNat + 1 < UInt64.size) :
    Did u { u with stage := .dialing }
  | dials (link : Link.End) (dialing : u.stage = .dialing) :
    Did u { u with
      stage := .greeting link
      sent := u.sent ++ [⟨u.epoch, u.memory.attemptSeq.toNat⟩] }
  /-- A dial made no link. -/
  | misses (failures : Option UInt32) (dialing : u.stage = .dialing) :
    Did u { u with memory := { u.memory with failures }, stage := .resting }
  /-- A dial that was sent came to nothing. -/
  | fails (failures : Option UInt32) {link : Link.End} (greeting : u.stage = .greeting link) :
    Did u { u with
      memory := { u.memory with seq := u.memory.attemptSeq, failures }
      stage := .resting }
  /-- The numbers are started over. -/
  | restarts (failures : Option UInt32) {link : Link.End} (greeting : u.stage = .greeting link)
      (never : u.memory.admitted = false) :
    Did u { u with
      memory := { u.memory with seq := 0, failures }
      epoch := u.epoch + 1
      stage := .resting }
  | attaches (link' : Link.End) (pipe : Link.Pipe) {link : Link.End} {k : LinkId}
      (greeting : u.stage = .greeting link)
      (attached : (u.chain.attach u.memory.attemptSeq.toNat link').2 = some k) :
    Did u { u with
      wired := u.wired.step (.attach u.memory.attemptSeq.toNat link' pipe)
      memory := ⟨u.memory.attemptSeq, true, some 0⟩
      stage := .stitching k }
  /-- The chain does not take the link. -/
  | refuses (link' : Link.End) {link : Link.End} (greeting : u.stage = .greeting link)
      (refused : (u.chain.attach u.memory.attemptSeq.toNat link').2 = none) :
    Did u { u with memory := ⟨u.memory.attemptSeq, true, some 0⟩, stage := .stopped }
  | givesUp (e : Error) (open' : u.stage = .dialing ∨ ∃ link, u.stage = .greeting link) :
    Did u { u with wired := u.wired.step (.nameReason (some e)), stage := .dying }
  | stitches {k : LinkId} {chain : Endpoint} (stitching : u.stage = .stitching k)
      (stitched : u.chain.stitch? k = some chain) :
    Did u { u with
      wired := u.wired.step (.stitch k)
      stage := if chain.stage k = .refused then .stopped else .linked k }
  | loses {k : LinkId} (linked : u.stage = .linked k) : Did u { u with stage := .resting }
  | halts (going : u.stage ≠ .crashed) (dead : u.chain.killed = true) :
    Did u { u with stage := .stopped }
  | raises (dying : u.stage = .dying) :
    Did u { u with wired := u.wired.step .raise, stage := .parting }
  | parts (parting : u.stage = .parting) :
    Did u { u with wired := u.wired.step .retireCurrent, stage := .stopped }

theorem moreFailures_eq_zero_iff {r : Redial} :
    r.moreFailures = 0 ↔ ∃ n, r.failures = some n ∧ n.toNat + 1 = UInt32.size := by
  unfold Redial.moreFailures
  split
  · next first =>
    rw [first]
    exact iff_of_false (by decide) (by rintro ⟨n, known, -⟩; cases known)
  · next n known =>
    have bound := n.toNat_lt
    rw [known, ← UInt32.toNat_inj, UInt32.toNat_add]
    simp only [UInt32.toNat_one, UInt32.toNat_zero, Option.some.injEq, exists_eq_left', UInt32.size]
    omega

theorem attemptSeq_eq_zero_iff {r : Redial} :
    r.attemptSeq = 0 ↔ r.seq.toNat + 1 = UInt64.size := by
  have bound := r.seq.toNat_lt
  rw [Redial.attemptSeq, ← UInt64.toNat_inj, UInt64.toNat_add]
  simp only [UInt64.toNat_one, UInt64.toNat_zero, UInt64.size]
  omega

theorem wired_attach_refused {w : Wired} {seq : Nat} {link : Link.End}
    (refused : (w.chain.attach seq link).2 = none) (pipe : Link.Pipe) :
    w.step (.attach seq link pipe) = w := by
  simp only [Wired.step, Wired.attach]
  split
  · rfl
  · next attached =>
    rw [attached] at refused
    cases refused

/-- An attempt is to be repeated, if there is a count for one more failure. -/
theorem conclude_retry {a : Attempt} {memory : Redial}
    (retries : u.memory.conclude a = (memory, .retry u.memory.moreFailures)) (pipe : Link.Pipe) :
    (u.FailsTooOften ∧ u.conclude a pipe = { u with stage := .crashed }) ∨
      (¬ u.FailsTooOften ∧
        u.conclude a pipe = { u with memory, epoch := u.epochAfter a, stage := .resting }) := by
  unfold FailsTooOften
  rw [← moreFailures_eq_zero_iff]
  simp only [conclude, retries]
  split
  · next overflow => exact .inl ⟨overflow, rfl⟩
  · next fits => exact .inr ⟨fits, rfl⟩

/-- The dialer ends its chain after an attempt that must not be repeated. -/
theorem conclude_fatal {e : Error} (final : ¬ (e = .rejected .closedChain ∧ !u.memory.admitted))
    (pipe : Link.Pipe) : u.conclude (.fatal e) pipe =
      { u with wired := u.wired.step (.nameReason (some e)), stage := .dying } := by
  simp only [conclude, Redial.conclude, if_neg final]

theorem step_pause (u : Upkeep) (draw : Nat) :
    (u.Overflows (.pause draw) ∧ u.step (.pause draw) = { u with stage := .crashed }) ∨
      (¬ u.Overflows (.pause draw) ∧ u.Did (u.step (.pause draw))) := by
  simp only [Overflows, step, pause]
  split
  · next resting =>
    rw [← Config.redialPause?_eq_none_iff]
    cases u.config.redialPause? (u.memory.failures.getD 0) draw with
    | none => exact .inl ⟨⟨resting, rfl⟩, rfl⟩
    | some span => exact .inr ⟨fun overflow => (nomatch overflow.2), .pauses resting⟩
  · next other => exact .inr ⟨fun overflow => other overflow.1, .rests⟩

theorem step_resume (u : Upkeep) :
    (u.Overflows .resume ∧ u.step .resume = { u with stage := .crashed }) ∨
      (¬ u.Overflows .resume ∧ u.Did (u.step .resume)) := by
  simp only [Overflows, step, resume]
  split
  · next pausing =>
    rw [← attemptSeq_eq_zero_iff]
    split
    · next overflow => exact .inl ⟨⟨pausing, overflow⟩, rfl⟩
    · next fits =>
      refine .inr ⟨fun overflow => fits overflow.2, .resumes pausing fun checks => ?_⟩
      have := u.memory.seq.toNat_lt
      have last := mt attemptSeq_eq_zero_iff.mpr fun zero => fits ⟨checks, zero⟩
      simp only [UInt64.size] at last ⊢
      omega
  · next other => exact .inr ⟨fun overflow => other overflow.1, .rests⟩

theorem step_miss (u : Upkeep) (e : Link.Error) :
    (u.Overflows (.miss e) ∧ u.step (.miss e) = { u with stage := .crashed }) ∨
      (¬ u.Overflows (.miss e) ∧ u.Did (u.step (.miss e))) := by
  simp only [Overflows, step, miss]
  split
  · next dialing =>
    cases outcome : Attempt.ofDialError e with
    | unreached =>
      obtain ⟨often, same⟩ | ⟨few, same⟩ :=
        conclude_retry (u := u) (a := .unreached) rfl {}
      · exact .inl ⟨⟨dialing, rfl, often⟩, same⟩
      · exact .inr ⟨fun overflow => few overflow.2.2, same ▸ .misses _ dialing⟩
    | fatal reason =>
      refine .inr ⟨fun overflow => (nomatch overflow.2.1), ?_⟩
      cases e with
      | gone addr =>
        cases outcome
        rw [conclude_fatal (e := .gone addr) (by simp)]
        exact .givesUp (.gone addr) (.inl dialing)
      | _ => cases outcome
    | admitted | failed => unfold Attempt.ofDialError at outcome; split at outcome <;> cases outcome
  · next other => exact .inr ⟨fun overflow => other overflow.1, .rests⟩

theorem step_fail (u : Upkeep) :
    (u.Overflows .fail ∧ u.step .fail = { u with stage := .crashed }) ∨
      (¬ u.Overflows .fail ∧ u.Did (u.step .fail)) := by
  simp only [Overflows, step, fail]
  split
  · next link greeting =>
    obtain ⟨often, same⟩ | ⟨few, same⟩ := conclude_retry (u := u) (a := .failed) rfl {}
    · exact .inl ⟨⟨⟨link, greeting⟩, often⟩, same⟩
    · exact .inr ⟨fun overflow => few overflow.2, same ▸ .fails _ greeting⟩
  · next other => exact .inr ⟨fun ⟨⟨link, greeting⟩, _⟩ => other link greeting, .rests⟩

/-- Before the first admission, a chain said to be closed has the numbers started over. -/
theorem conclude_closedChain {r : Redial} (never : r.admitted = false) :
    r.conclude (.fatal (.rejected .closedChain)) =
      ({ r with seq := 0, failures := some r.moreFailures }, .retry r.moreFailures) := by
  simp only [Redial.conclude, never, Bool.not_false, and_self, if_true, Redial.retrying,
    Redial.moreFailures]

theorem step_answer (u : Upkeep) (message : Bytes) (pipe : Link.Pipe) :
    (u.Overflows (.answer message pipe) ∧
        u.step (.answer message pipe) = { u with stage := .crashed }) ∨
      (¬ u.Overflows (.answer message pipe) ∧ u.Did (u.step (.answer message pipe))) := by
  simp only [Overflows, step, answer]
  split
  · next link greeting =>
    have closed {e : Error} : (∃ link, u.stage = .greeting link ∧
        Attempt.ofAnswer link message = .fatal e) ↔ Attempt.ofAnswer link message = .fatal e := by
      rw [greeting]
      simp
    rw [closed]
    cases outcome : Attempt.ofAnswer link message with
    | admitted link' =>
      refine .inr ⟨fun overflow => (nomatch overflow.1), ?_⟩
      simp only [conclude, Redial.conclude]
      split
      · next k attached => exact .attaches link' pipe greeting attached
      · next refused =>
        rw [wired_attach_refused refused]
        exact .refuses link' greeting refused
    | unreached | failed =>
      unfold Attempt.ofAnswer at outcome
      split at outcome <;> cases outcome
    | fatal e =>
      by_cases early : e = .rejected .closedChain ∧ u.memory.admitted = false
      · obtain ⟨rfl, never⟩ := early
        obtain ⟨often, same⟩ | ⟨few, same⟩ := conclude_retry (conclude_closedChain never) pipe
        · exact .inl ⟨⟨rfl, never, often⟩, same⟩
        · exact .inr ⟨fun overflow => few overflow.2.2, same ▸ .restarts _ greeting never⟩
      · refine .inr ⟨fun overflow => early ⟨Attempt.fatal.inj overflow.1, overflow.2.1⟩, ?_⟩
        rw [conclude_fatal (by simpa using early)]
        exact .givesUp e (.inr ⟨link, greeting⟩)
  · next other => exact .inr ⟨fun ⟨⟨link, greeting, _⟩, _⟩ => other link greeting, .rests⟩

/-- A sum that does not fit ends the dialer and nothing else. -/
theorem step_cases (u : Upkeep) (event : Event) :
    (u.Overflows event ∧ u.step event = { u with stage := .crashed }) ∨
      (¬ u.Overflows event ∧ u.Did (u.step event)) := by
  cases event with
  | pause draw => exact u.step_pause draw
  | resume => exact u.step_resume
  | miss e => exact u.step_miss e
  | fail => exact u.step_fail
  | answer message pipe => exact u.step_answer message pipe
  | dial link =>
    refine .inr ⟨nofun, ?_⟩
    simp only [step, dial]
    split
    · next dialing => exact .dials link dialing
    · exact .rests
  | stitch =>
    refine .inr ⟨nofun, ?_⟩
    simp only [step, stitch]
    split
    · next k stitching =>
      split
      · exact .rests
      · next chain stitched => exact .stitches stitching stitched
    · exact .rests
  | lose =>
    refine .inr ⟨nofun, ?_⟩
    simp only [step, lose]
    split
    · next k linked =>
      split
      · exact .loses linked
      · exact .rests
    · exact .rests
  | halt =>
    refine .inr ⟨nofun, ?_⟩
    simp only [step, halt]
    split
    all_goals first
      | exact .rests
      | next going =>
        split
        · next dead => exact .halts (by rw [going]; nofun) dead
        · exact .rests
  | kill =>
    refine .inr ⟨nofun, ?_⟩
    simp only [step, kill]
    split
    · next dying => exact .raises dying
    · next parting => exact .parts parting
    · exact .rests
  | elsewhere act =>
    refine .inr ⟨nofun, ?_⟩
    simp only [step]
    split
    · next allowed => exact .elsewhere act allowed
    · exact .rests

/-! ## Crashes -/

/-- No event whose sums fit is a crash. -/
theorem Did.crashed_iff (did : u.Did u') : u'.stage = .crashed ↔ u.stage = .crashed := by
  cases did with
  | rests | elsewhere => exact Iff.rfl
  | pauses other | resumes other | dials _ other | misses _ other | fails _ other
  | restarts _ other | attaches _ _ other | refuses _ other | loses other | raises other
  | parts other => exact iff_of_false (by simp) (by rw [other]; simp)
  | halts going => exact iff_of_false (by simp) going
  | givesUp e place =>
    refine iff_of_false (by simp) ?_
    obtain dialing | ⟨link, greeting⟩ := place
    · rw [dialing]
      simp
    · rw [greeting]
      simp
  | stitches stitching =>
    refine iff_of_false ?_ (by rw [stitching]; simp)
    dsimp only
    split <;> simp

theorem Did.kept (did : u.Did u') :
    u'.config = u.config ∧ u'.checks = u.checks ∧ u.sent <+: u'.sent := by
  cases did with
  | dials => exact ⟨rfl, rfl, List.prefix_append _ _⟩
  | _ => exact ⟨rfl, rfl, List.prefix_rfl⟩

theorem stage_step_eq_crashed_iff (u : Upkeep) (event : Event) :
    (u.step event).stage = .crashed ↔ u.stage = .crashed ∨ u.Overflows event := by
  obtain ⟨overflow, same⟩ | ⟨fits, did⟩ := u.step_cases event
  · rw [same]
    exact iff_of_true rfl (.inr overflow)
  · rw [did.crashed_iff, or_iff_left fits]

/-- A dialer crashed exactly if some sum of the run did not fit. -/
theorem stage_run_eq_crashed_iff (going : u.stage ≠ .crashed) (events : List Event) :
    (u.run events).stage = .crashed ↔
      ∃ before event after, events = before ++ event :: after ∧ (u.run before).Overflows event := by
  induction events using List.reverseRecOn with
  | nil => exact iff_of_false going (by rintro ⟨before, event, after, split, -⟩; simp at split)
  | append_singleton events last ih =>
    rw [run_append]
    refine ((u.run events).stage_step_eq_crashed_iff last).trans ⟨?_, ?_⟩
    · rintro (earlier | now)
      · obtain ⟨before, event, after, rfl, overflow⟩ := ih.mp earlier
        exact ⟨before, event, after ++ [last], by simp, overflow⟩
      · exact ⟨events, last, [], rfl, now⟩
    · rintro ⟨before, event, after, split, overflow⟩
      obtain rfl | ⟨after, x, rfl⟩ := List.eq_nil_or_concat after
      · obtain ⟨rfl, rfl⟩ : events = before ∧ last = event := by simpa using split
        exact .inr overflow
      · rw [List.concat_eq_append, ← List.cons_append, ← List.append_assoc] at split
        exact .inl (ih.mpr ⟨before, event, after, (List.append_inj' split rfl).1, overflow⟩)

theorem step_kept (u : Upkeep) (event : Event) :
    (u.step event).config = u.config ∧ (u.step event).checks = u.checks ∧
      u.sent <+: (u.step event).sent := by
  obtain ⟨-, same⟩ | ⟨-, did⟩ := u.step_cases event
  · rw [same]
    exact ⟨rfl, rfl, List.prefix_rfl⟩
  · exact did.kept

theorem Whole.of_step {event : Event} (whole : (u.step event).Whole) : u.Whole := by
  obtain ⟨-, checks, grown⟩ := u.step_kept event
  refine whole.imp (checks ▸ ·) fun few => Nat.lt_of_le_of_lt grown.length_le few

/-- What a step keeps while no number came round to zero holds after every run of this kind. -/
theorem run_induction_of_whole {P : Upkeep → Prop} (start : P u)
    (step : ∀ u event, P u → (u.step event).Whole → P (u.step event)) (events : List Event)
    (whole : (u.run events).Whole) : P (u.run events) :=
  run_induction (P := fun u => u.Whole → P u) (fun _ => start)
    (fun u event held whole => step u event (held whole.of_step) whole) events whole

end Upkeep

end Tether.Chain
