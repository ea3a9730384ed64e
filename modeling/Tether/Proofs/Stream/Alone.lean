import Tether.Proofs.Stream.Terminal

/-!
# Each end of a stream alone

What happens to two ends of a stream happens to each of them as to an end with any peer: an event is an
act of that end, or nothing at all. The other end and the links come in only by what the chain delivers. So
what is known of one end and any peer is known of both ends of a stream, and is not shown again.

The two sorts of runs keep different accounts of what surrounds an end: which link it was given, what is in
flight from it, and which counts it heard. `Alike` leaves these out.
-/

namespace Tether.Stream

open Chain (LinkId)
open Link (Side)

/-- Whether a stream can end with an error. The others concern one write only. -/
def Error.ends : Error → Bool
  | closed | protocolViolation _ | chain _ => true
  | emptyChunk | chunkTooLarge _ _ => false

theorem Error.ends_of_accuses {e : Error} (accuses : e.accuses = true) : e.ends = true := by
  cases e with
  | protocolViolation detail => rfl
  | closed | emptyChunk | chunkTooLarge | chain => cases accuses

/-! ## Acts of one end -/

namespace Party

/-- Whether an act brings a chunk from the user, or to the user. -/
def Act.carries : Act → Bool
  | .write _ | .read => true
  | _ => false

/-- Two ends with the same stream, whose users have written and read the same. -/
structure Alike (p q : Party) : Prop where
  stream : q.stream = p.stream
  wrote : q.wrote = p.wrote
  got : q.got = p.got

/-- What an event can come to for an end, where it brings no chunk from its user or to it. -/
inductive Does (p : Party) : Party → Prop where
  | rests {q : Party} (same : p.Alike q) : Does p q
  | acts {q : Party} (act : Act) (other : act.carries = false) (same : (p.step act).Alike q) : Does p q

/-- What the laws of one end and any peer know of the end, once its reads were answered so: it has a log of
deliveries, the answers are those of their numbers, and an error with which the stream has ended is one
with which streams end. -/
structure Lone (reads : List (Except Error (Option Bytes))) (p : Party) : Prop where
  records : ∃ config ls, Records config ls p
  stands : Stands reads p
  ends : ∀ e, p.stream.terminal = some e → e.ends = true

variable {p p' q : Party} {act : Act} {reads : List (Except Error (Option Bytes))}

theorem Alike.refl (p : Party) : p.Alike p :=
  ⟨rfl, rfl, rfl⟩

theorem Alike.deliver (h : p.Alike q) (d : Chain.Delivery) : (p.deliver d).Alike (q.deliver d) := by
  unfold Party.deliver
  rw [h.stream]
  split <;> exact ⟨rfl, h.wrote, h.got⟩

theorem alike_hear (p : Party) (data : Bytes) : (p.deliver (.chunk data)).Alike (p.hear data) :=
  have listened : p.Alike { p with heard := p.heard ++ (countOf? data).toList } := ⟨rfl, rfl, rfl⟩
  listened.deliver (.chunk data)

theorem Alike.sent (h : p.Alike q) (answer : Except Chain.Error Unit) :
    (p.sent answer).Alike (q.sent answer) := by
  unfold Party.sent
  rw [h.stream]
  split <;> exact ⟨rfl, h.wrote, h.got⟩

/-- Only a write adds to what was written. -/
theorem wrote_step (p : Party) (other : act.carries = false) : (p.step act).wrote = p.wrote := by
  cases act with
  | write | read => cases other
  | close | kill => rfl
  | share | letGo | expire =>
    simp only [step, share, letGo, expire]
    split <;> rfl
  | deliver d =>
    simp only [step, deliver]
    split
    · split <;> rfl
    · rfl
  | lose e =>
    simp only [step]
    split <;> rfl
  | take =>
    simp only [step, take]
    split
    · rfl
    · split <;> rfl
  | pass answer =>
    simp only [step, pass, sent]
    split
    · rfl
    · rfl
    · split <;> rfl

theorem Does.wrote (does : p.Does p') : p'.wrote = p.wrote := by
  cases does with
  | rests same => exact same.wrote
  | acts act other same => exact same.wrote.trans (p.wrote_step other)

/-- An act fails a stream that has not ended for an error with which streams end. -/
theorem ends_of_failure? (going : p.stream.buffer.aborted = none) {e : Error}
    (fails : p.failure? act = some e) : e.ends = true := by
  cases act with
  | write | close | read | share | letGo | take => cases fails
  | kill =>
    cases fails
    rfl
  | expire =>
    obtain ⟨-, same⟩ := Option.ite_none_left_eq_some.mp fails
    cases same
    rfl
  | lose cause =>
    obtain ⟨-, same⟩ := Option.ite_none_right_eq_some.mp fails
    cases same
    rfl
  | deliver d =>
    obtain ⟨-, led⟩ := Option.ite_none_right_eq_some.mp fails
    obtain ⟨-, -, leads⟩ := p.stream.deliver_leads d
    generalize (p.stream.deliver d).2 = effect at led leads
    cases leads with
    | goOn | linger => cases led
    | fail cause =>
      cases led
      obtain accuses | aborted := cause
      · exact Error.ends_of_accuses accuses
      · cases going.symm.trans aborted
  | pass answer =>
    simp only [failure?] at fails
    split at fails
    · split at fails
      · cases fails
      · cases fails
      · next cause judged =>
        cases fails
        unfold Endpoint.Sent.ofResult at judged
        split at judged <;> cases judged
        rfl
    · cases fails
    · cases fails

/-! ## What an end keeps to -/

namespace Lone

theorem start (chain : Chain.ChainId) (id : Chain.Id) (config : Config) :
    Lone [] (start chain id config) :=
  ⟨⟨config, [], .start chain id config⟩, ⟨nofun, nofun, Nat.le_refl 0, nofun, nofun, nofun⟩, nofun⟩

theorem alike (h : Lone reads p) (same : p.Alike q) : Lone reads q := by
  obtain ⟨⟨config, ls, records⟩, stands, ends⟩ := h
  have accepted : q.accepted = p.accepted := by
    unfold accepted
    rw [same.got, same.stream]
  refine ⟨⟨config, ls, ?_⟩, ?_, same.stream ▸ ends⟩
  · obtain ⟨settings, whole, taken, owes, asked, told, agreed⟩ := records
    rw [← same.stream] at settings taken owes asked told agreed
    exact ⟨settings, accepted.trans whole, taken, owes, asked, told, agreed⟩
  · obtain ⟨filled, answered, behind, ended, stuck, stopped⟩ := stands
    rw [← same.got] at filled behind ended stuck
    rw [← accepted] at answered
    rw [← same.stream] at answered ended stuck stopped
    exact ⟨filled, answered, behind, ended, stuck, stopped⟩

theorem ends_step (h : Lone reads p) (act : Act) {e : Error}
    (ended : (p.step act).stream.terminal = some e) : e.ends = true := by
  rw [(p.turns_step act).terminal] at ended
  obtain ⟨config, ls, records⟩ := h.records
  cases before : p.stream.terminal with
  | some cause =>
    rw [before, Option.some_or] at ended
    exact h.ends e (before.trans ended)
  | none =>
    rw [before, Option.none_or] at ended
    exact ends_of_failure? (records.agreed.trans before) ended

theorem step (h : Lone reads p) (other : act ≠ .read) : Lone reads (p.step act) := by
  obtain ⟨config, ls, records⟩ := h.records
  exact ⟨⟨config, _, records.step act⟩, h.stands.step records other, fun _ => h.ends_step act⟩

theorem read (h : Lone reads p) : Lone (reads ++ (p.answer? .read).toList) p.read := by
  obtain ⟨config, ls, records⟩ := h.records
  exact ⟨⟨config, _, records.step .read⟩, h.stands.read records, fun _ => h.ends_step .read⟩

theorem does (h : Lone reads p) (does : p.Does p') : Lone reads p' := by
  cases does with
  | rests same => exact h.alike same
  | acts act other same =>
    refine (h.step fun reads => ?_).alike same
    rw [reads] at other
    cases other

end Lone

end Party

/-! ## Events of two ends -/

namespace Duplex

/-- Whether an act brings a chunk from the user, or to the user. -/
def Act.carries : Act → Bool
  | .write _ | .read => true
  | _ => false

variable {d : Duplex} {side s : Side}

/-- At both ends, when it happens at one of them. -/
theorem does_setParty {p : Party} (does : s = side → (d.party side).Does p) :
    (d.party s).Does ((d.setParty side p).party s) := by
  cases side <;> cases s <;> first | exact does rfl | exact .rests (.refl _)

theorem does_stitch (p : Party) (k : LinkId) : p.Does (p.stitch k) := by
  unfold Party.stitch
  split
  · next newer =>
    refine .acts (.deliver (.stitch k k)) rfl ?_
    simp only [Party.step, newer.1, if_true]
    exact ⟨rfl, rfl, rfl⟩
  · exact .rests (.refl p)

theorem does_receive (d : Duplex) (side s : Side) : (d.party s).Does ((d.receive side).party s) := by
  unfold receive
  split
  · exact .rests (.refl _)
  · next data rest arriving =>
    split
    · next reading =>
      have hears : (d.party side).Does ((d.party side).hear data) := by
        refine .acts (.deliver (.chunk data)) rfl ?_
        simp only [Party.step, reading, if_true]
        exact (d.party side).alike_hear data
      cases side <;> cases s
      · exact hears
      · exact .rests ⟨rfl, rfl, rfl⟩
      · exact .rests ⟨rfl, rfl, rfl⟩
      · exact hears
    · exact .rests (.refl _)

theorem does_pass (d : Duplex) (side : Side) (answer : Except Chain.Error Unit) (s : Side) :
    (d.party s).Does ((d.pass side answer).party s) := by
  have passes {q : Party} (same : ((d.party side).pass answer).Alike q) : (d.party side).Does q :=
    .acts (.pass answer) rfl same
  unfold Party.pass at passes
  simp only [pass]
  cases hand : (d.party side).hand with
  | none => exact .rests (.refl _)
  | some data =>
    cases held : (d.party side).stream.writer with
    | none =>
      simp only [hand, held] at passes
      exact does_setParty fun _ => passes (.refl _)
    | some k =>
      simp only [hand, held] at passes
      cases answer with
      | ok u =>
        have handed : (d.party side).Alike { d.party side with
            flight := if k ∈ d.cut then (d.party side).flight else (d.party side).flight ++ [(k, data)] } :=
          ⟨rfl, rfl, rfl⟩
        exact does_setParty fun _ => passes (handed.sent (.ok u))
      | error e =>
        simp only [party_cut]
        exact does_setParty fun _ => passes (.refl _)

/-- What an event is for an end: an act of it, or nothing. Writes and reads of its own are not meant. -/
theorem does_step (d : Duplex) (side : Side) (act : Act) (s : Side)
    (other : s = side → act.carries = false) : (d.party s).Does ((d.step (side, act)).party s) := by
  have acts (act : Party.Act) (plain : act.carries = false) :
      (d.party s).Does ((d.setParty side ((d.party side).step act)).party s) :=
    does_setParty fun _ => .acts act plain (.refl _)
  cases act with
  | write chunk => exact does_setParty fun own => by cases other own
  | read => exact does_setParty fun own => by cases other own
  | close => exact acts .close rfl
  | share => exact acts .share rfl
  | letGo => exact acts .letGo rfl
  | kill => exact acts .kill rfl
  | expire => exact acts .expire rfl
  | stitch k => exact does_setParty fun _ => does_stitch _ k
  | receive => exact d.does_receive side s
  | lose e =>
    have lost := acts (.lose e) rfl
    simp only [Party.step] at lost
    simp only [step]
    split
    · next reading =>
      rw [if_pos reading] at lost
      exact lost
    · exact .rests (.refl _)
  | take => exact acts .take rfl
  | pass answer => exact d.does_pass side answer s
  | cut k =>
    rw [step, party_cut]
    exact .rests (.refl _)

/-- Both ends of a stream begin as one end and any peer. -/
theorem lone_start (id : Chain.Id) (near far : Config) (s : Side) :
    Party.Lone [] ((start id near far).party s) := by
  cases s
  · exact .start 0 id near
  · exact .start 1 id far

end Duplex

end Tether.Stream
