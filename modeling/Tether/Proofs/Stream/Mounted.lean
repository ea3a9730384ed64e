import Tether.Proofs.Chain.Passage
import Tether.Proofs.Stream.Intake

/-!
# A stream on its chain

The runs that the law of ends is about. One end of a stream stands on one end of a chain. The reading
activity takes what the chain gives it, the sending activity is answered by the chain, and a stream that
fails kills its chain. What else happens to the chain and on its links may happen at any time: it is given
links, they are cut, the peer sends anything, and the chain may be killed from elsewhere.

A stream fails by a call that names an error, and each such call is one act, with the kill of the chain.
`failure?` says which acts make such a call. All that an end keeps of them is the first error, and
`turns_step` says so.

The reading activity takes something from the chain, and does with it later what is to be done. The
stream may be failed between the two. A chain that was killed delivers nothing more, so that what the
reading activity has in hand then is the last that it can accept.
-/

namespace Tether

namespace Chain.Wired

/-- What a writer is answered. `fault` says whether the medium fails. -/
def verdict (w : Wired) (k : LinkId) (fault : Bool) (data : Bytes) : Except Error Unit :=
  match w.strands[k]? with
  | none => .error .superseded
  | some s =>
    match w.chain.mayWrite k with
    | .error e => .error e
    | .ok () => (w.chain.written k (s.pipe.send w.side fault data).2).2

/-- A kill is for good. -/
theorem killed_step {w : Wired} (dead : w.chain.killed = true) (act : Act) :
    (w.step act).chain.killed = true := by
  by_cases attaches : ∃ seq link pipe, act = .attach seq link pipe
  · obtain ⟨seq, link, pipe, rfl⟩ := attaches
    simp only [step, attach, Endpoint.attach, if_pos dead]
    exact dead
  · have other (seq link pipe) : act ≠ .attach seq link pipe :=
      fun same => attaches ⟨seq, link, pipe, same⟩
    exact (moves_step w other).killed dead

end Chain.Wired

namespace Stream

namespace Endpoint

/-- What a delivery leaves alone, whatever it leads to. -/
theorem deliver_keeps (s : Endpoint) (d : Chain.Delivery) :
    (s.deliver d).1.terminal = s.terminal ∧ (s.deliver d).1.dead = s.dead ∧
      (s.deliver d).1.reading = s.reading ∧ (s.deliver d).1.ended = s.ended := by
  have applied (f : Frame) : (s.apply f).1.terminal = s.terminal ∧ (s.apply f).1.dead = s.dead ∧
      (s.apply f).1.reading = s.reading ∧ (s.apply f).1.ended = s.ended := by
    cases f with
    | chunk seq payload =>
      simp only [apply]
      split <;> exact ⟨rfl, rfl, rfl, rfl⟩
    | sync count | ack count => exact ⟨rfl, rfl, rfl, rfl⟩
  cases d with
  | stitch seq link => exact ⟨rfl, rfl, rfl, rfl⟩
  | chunk data =>
    simp only [deliver]
    split
    · exact ⟨rfl, rfl, rfl, rfl⟩
    · next f read =>
      have kept := applied f
      split
      · next same =>
        rw [same] at kept
        exact kept
      · next same =>
        rw [same] at kept
        split <;> exact kept

end Endpoint

namespace Party

/-- The error for which an act fails the stream, if it does. -/
def failure? (p : Party) : Act → Option Error
  | .kill => some (.chain .killed)
  | .expire => if p.lingers = 0 then none else some .closed
  | .deliver d =>
    if p.stream.reading then
      match (p.stream.deliver d).2 with
      | .goOn | .linger => none
      | .fail e => some e
    else none
  | .lose e => if p.stream.reading then some (.chain e) else none
  | .pass answer =>
    match p.hand, p.stream.writer with
    | some _, some _ =>
      match Endpoint.Sent.ofResult answer with
      | .goOn | .letGo => none
      | .fail e => some e
    | none, _ | some _, none => none
  | .write _ | .close | .read | .share | .letGo | .take => none

/-- What the user is answered by an act, if it is a read that does not wait. -/
def answer? (p : Party) : Act → Option (Except Error (Option Bytes))
  | .read => p.stream.read?.map Prod.snd
  | _ => none

/-- Whether an act is what the chain makes of it. -/
def Act.told : Act → Bool
  | .deliver _ | .lose _ | .pass _ => true
  | _ => false

/-- What an act does to the end of a stream, and to what its user will read. -/
structure Turns (p : Party) (act : Act) (p' : Party) : Prop where
  terminal : p'.stream.terminal = p.stream.terminal.or (p.failure? act)
  dead : p'.stream.dead = (p.stream.dead || (p.failure? act).isSome)
  reading : p.failure? act = none → p'.stream.reading = p.stream.reading
  got : act ≠ .read → p'.got = p.got
  ended : act ≠ .read → p'.stream.ended = p.stream.ended
  /-- What is handed to the inbox gets in behind. -/
  inbox : act ≠ .read → p'.stream.inbox = p.stream.inbox ++ Intake.units (p.intake? act).toList

/-- Nothing that the user has read or will read is touched. -/
structure Leaves (p p' : Party) : Prop where
  got : p'.got = p.got
  ended : p'.stream.ended = p.stream.ended
  inbox : p'.stream.inbox = p.stream.inbox

variable {p p' : Party} {act : Act}

theorem Turns.calm (calm : p.failure? act = none) (idle : p.intake? act = none)
    (terminal : p'.stream.terminal = p.stream.terminal) (dead : p'.stream.dead = p.stream.dead)
    (reading : p'.stream.reading = p.stream.reading) (leaves : act ≠ .read → p.Leaves p') :
    p.Turns act p' where
  terminal := by rw [terminal, calm, Option.or_none]
  dead := by rw [dead, calm, Option.isSome_none, Bool.or_false]
  reading _ := reading
  got other := (leaves other).got
  ended other := (leaves other).ended
  inbox other := by
    rw [(leaves other).inbox, idle]
    exact (List.append_nil _).symm

theorem Turns.failed {e : Error} (fails : p.failure? act = some e) (idle : p.intake? act = none)
    (terminal : p'.stream.terminal = some (p.stream.terminal.getD e)) (dead : p'.stream.dead = true)
    (leaves : p.Leaves p') : p.Turns act p' where
  terminal := by
    rw [terminal, fails]
    cases p.stream.terminal <;> rfl
  dead := by rw [dead, fails, Option.isSome_some, Bool.or_true]
  reading calm := by cases fails.symm.trans calm
  got _ := leaves.got
  ended _ := leaves.ended
  inbox _ := by
    rw [leaves.inbox, idle]
    exact (List.append_nil _).symm

/-- A delivery that is taken is a fault, or ends nothing. -/
theorem turns_deliver (reading : p.stream.reading = true) (d : Chain.Delivery) :
    p.Turns (.deliver d) (p.deliver d) := by
  have fails : p.failure? (.deliver d) =
      match (p.stream.deliver d).2 with
      | .goOn | .linger => none
      | .fail e => some e := if_pos reading
  have takes : p.intake? (.deliver d) = some (p.intake d) := if_pos reading
  have inbox : (p.deliver d).stream.inbox = p.stream.inbox ++ (p.intake d).handed := by
    have judgment := p.deliver_judged d
    cases judged : p.stream.judged d with
    | ok r =>
      rw [judged] at judgment
      rw [intake_of_takes judgment, judgment.inbox]
    | error e =>
      rw [judged] at judgment
      rw [intake_of_stopReading judgment, judgment]
      exact (List.append_nil _).symm
  have shelf : (p.deliver d).stream.inbox =
      p.stream.inbox ++ Intake.units (p.intake? (.deliver d)).toList := by
    rw [inbox, takes]
    simp [Intake.units]
  obtain ⟨terminal, dead, still, ended⟩ := p.stream.deliver_keeps d
  clear takes inbox
  unfold deliver at shelf ⊢
  generalize p.stream.deliver d = outcome at fails terminal dead still ended shelf ⊢
  obtain ⟨s, effect⟩ := outcome
  cases effect with
  | goOn | linger =>
    refine ⟨?_, ?_, fun _ => still, fun _ => rfl, fun _ => ended, fun _ => shelf⟩
    · rw [fails, Option.or_none]
      exact terminal
    · rw [fails, Option.isSome_none, Bool.or_false]
      exact dead
  | fail e =>
    refine ⟨?_, ?_, fun calm => ?_, fun _ => rfl, fun _ => ended, fun _ => shelf⟩
    · rw [fails, ← terminal]
      change some (s.terminal.getD e) = _
      cases s.terminal <;> rfl
    · rw [fails, Option.isSome_some, Bool.or_true]
      rfl
    · cases fails.symm.trans calm

/-- An act that fails the stream for an error ends it, unless it has ended, and no other act does. -/
theorem turns_step (p : Party) (act : Act) : p.Turns act (p.step act) := by
  cases act with
  | write chunk =>
    rw [step]
    obtain ⟨buffer, n, -, -, same⟩ | same := p.write_cases chunk <;>
      rw [same] <;> exact .calm rfl rfl rfl rfl rfl fun _ => ⟨rfl, rfl, rfl⟩
  | read =>
    obtain ⟨inbox, ended, got, sawEnd, rest⟩ := p.read_rest
    rw [step, rest]
    exact .calm rfl rfl rfl rfl rfl (absurd rfl)
  | share | letGo =>
    simp only [step, share, letGo]
    split <;> exact .calm rfl rfl rfl rfl rfl fun _ => ⟨rfl, rfl, rfl⟩
  | kill => exact .failed rfl rfl rfl rfl ⟨rfl, rfl, rfl⟩
  | expire =>
    simp only [step, expire]
    split
    · next none' => exact .calm (if_pos none') rfl rfl rfl rfl fun _ => ⟨rfl, rfl, rfl⟩
    · next lingers => exact .failed (if_neg lingers) rfl rfl rfl ⟨rfl, rfl, rfl⟩
  | deliver d =>
    simp only [step]
    split
    · next reading => exact turns_deliver reading d
    · next stopped => exact .calm (if_neg stopped) (if_neg stopped) rfl rfl rfl fun _ => ⟨rfl, rfl, rfl⟩
  | lose e =>
    simp only [step]
    split
    · next reading => exact .failed (if_pos reading) rfl rfl rfl ⟨rfl, rfl, rfl⟩
    · next stopped => exact .calm (if_neg stopped) rfl rfl rfl rfl fun _ => ⟨rfl, rfl, rfl⟩
  | take =>
    simp only [step, take]
    split
    · exact .calm rfl rfl rfl rfl rfl fun _ => ⟨rfl, rfl, rfl⟩
    · obtain next | next | ⟨k, rest, -, next⟩ | ⟨f, rest, -, next⟩ | ⟨k, buffer, seq, unit, -, -, -, next⟩ :=
        nextAction?_cases p.stream
      all_goals
        rw [next]
        exact .calm rfl rfl rfl rfl rfl fun _ => ⟨rfl, rfl, rfl⟩
  | pass answer =>
    simp only [step, pass]
    split
    · next none' => exact .calm (by simp only [failure?, none']) rfl rfl rfl rfl fun _ => ⟨rfl, rfl, rfl⟩
    · next held none' =>
      exact .calm (by simp only [failure?, held, none']) rfl rfl rfl rfl fun _ => ⟨rfl, rfl, rfl⟩
    · next held writer =>
      unfold sent
      split
      · next judged =>
        exact .calm (by simp only [failure?, held, writer, judged]) rfl rfl rfl rfl
          fun _ => ⟨rfl, rfl, rfl⟩
      · next judged =>
        exact .calm (by simp only [failure?, held, writer, judged]) rfl rfl rfl rfl
          fun _ => ⟨rfl, rfl, rfl⟩
      · next judged =>
        exact .failed (by simp only [failure?, held, writer, judged]) rfl rfl rfl ⟨rfl, rfl, rfl⟩
  | close => exact .calm rfl rfl rfl rfl rfl fun _ => ⟨rfl, rfl, rfl⟩

end Party

/-! ## Runs -/

/-- What the reading activity does about what the chain gave it. -/
def Party.Act.ofRead : Except Chain.Error Chain.Delivery → Party.Act
  | .ok d => .deliver d
  | .error e => .lose e

/-- One end of a stream on one end of a chain, with all that is told of its end: the errors that it was
failed for, oldest first, what the reads of the user were answered, and the log of the deliveries that
the reading activity took. -/
structure Mounted where
  party : Party
  wired : Chain.Wired
  /-- What the reading activity has from the chain and has done nothing about. -/
  held : Option (Except Chain.Error Chain.Delivery) := none
  failures : List Error := []
  reads : List (Except Error (Option Bytes)) := []
  taken : List Intake := []

namespace Mounted

/-- The end after an act, with the chain as it is then. -/
def after (m : Mounted) (act : Party.Act) (wired : Chain.Wired) : Mounted where
  party := m.party.step act
  wired
  held := m.held
  failures := m.failures ++ (m.party.failure? act).toList
  reads := m.reads ++ (m.party.answer? act).toList
  taken := m.taken ++ (m.party.intake? act).toList

/-- An act of the end. If it fails the stream, the chain is killed. -/
def turn (m : Mounted) (act : Party.Act) (wired : Chain.Wired) : Mounted :=
  m.after act
    (if (m.party.failure? act).isSome then { wired with chain := wired.chain.kill none } else wired)

/-- The reading activity lets go of the chain if it has stopped. -/
def release (m : Mounted) : Mounted :=
  if m.party.stream.reading then m else { m with wired := m.wired.step .close }

/-- The reading activity reads from the chain. -/
def receive (m : Mounted) : Mounted :=
  if m.party.stream.reading ∧ m.held = none then
    let r := m.wired.chain.read
    { m with wired := { m.wired with chain := r.1 }, held := r.2 }
  else m

/-- The reading activity does what is to be done about what it has in hand. -/
def apply (m : Mounted) : Mounted :=
  match m.held with
  | none => m
  | some r => ({ m with held := none }.turn (.ofRead r) m.wired).release

/-- The sending activity hands on what it took. Without a writer it is lost. `fault` says whether the
medium fails. -/
def pass (m : Mounted) (fault : Bool) : Mounted :=
  match m.party.hand, m.party.stream.writer with
  | some data, some k => m.turn (.pass (m.wired.verdict k fault data)) (m.wired.write k fault data)
  | some _, none => m.turn (.pass (.ok ())) m.wired
  | none, _ => m

inductive Act where
  /-- An act of the end by itself: a call of its user, what the sending activity takes, or the end of a
  linger. -/
  | own (act : Party.Act)
  | receive
  | apply
  | pass (fault : Bool)
  /-- What happens to the chain or on its links besides. -/
  | chain (act : Chain.Wired.Act)

/-- One act of a run. One that cannot happen changes nothing. -/
def step (m : Mounted) : Act → Mounted
  | .own act => if act.told then m else m.turn act m.wired
  | .receive => m.receive
  | .apply => m.apply
  | .pass fault => m.pass fault
  | .chain act => { m with wired := m.wired.step act }

/-- A new stream on a chain without links. -/
def start (side : Link.Side) (id : Chain.Id) (depth : Nat) (config : Config) : Mounted where
  party := .start 0 id config
  wired := .start side id depth

def run (m : Mounted) (acts : List Act) : Mounted :=
  acts.foldl step m

/-- What one act keeps holds after every run. -/
theorem run_induction {P : Mounted → Prop} {m : Mounted} (start : P m)
    (step : ∀ m act, P m → P (m.step act)) (acts : List Act) : P (m.run acts) :=
  List.foldlRecOn acts Mounted.step start fun m held act _ => step m act held

@[simp]
theorem run_append (m : Mounted) (earlier later : List Act) :
    m.run (earlier ++ later) = (m.run earlier).run later :=
  List.foldl_append

/-! ## What an act can do -/

/-- What an act comes to: the end does something by it or nothing, and the chain stays dead, or is dead if
the stream was failed. What the end does about something from the chain it does about what is in hand, and
a delivery gets in hand only from a chain that lives. -/
inductive Does (m : Mounted) : Mounted → Prop where
  | rests {wired : Chain.Wired} {held : Option (Except Chain.Error Chain.Delivery)}
    (dead : m.wired.chain.killed = true → wired.chain.killed = true)
    (kept : held = m.held ∨ m.held = none)
    (alive : ∀ d, held = some (.ok d) → m.held = some (.ok d) ∨ m.wired.chain.killed = false) :
    Does m { m with wired, held }
  | acts (act : Party.Act) {wired : Chain.Wired}
    {held : Option (Except Chain.Error Chain.Delivery)}
    (dead : m.wired.chain.killed = true ∨ (m.party.failure? act).isSome → wired.chain.killed = true)
    (kept : held = m.held ∨ held = none ∧ ∃ r, m.held = some r ∧ act = .ofRead r)
    (told : ∀ d, act = .deliver d → m.held = some (.ok d) ∧ held = none) :
    Does m ({ m with held }.after act wired)

variable {m m' : Mounted}

theorem does_turn (act : Party.Act) {wired : Chain.Wired}
    {held : Option (Except Chain.Error Chain.Delivery)}
    (still : m.wired.chain.killed = true → wired.chain.killed = true)
    (kept : held = m.held ∨ held = none ∧ ∃ r, m.held = some r ∧ act = .ofRead r)
    (told : ∀ d, act = .deliver d → m.held = some (.ok d) ∧ held = none) :
    m.Does ({ m with held }.turn act wired) := by
  refine .acts act (fun dead => ?_) kept told
  split
  · exact wired.chain.killed_kill none
  · next going => exact still (dead.resolve_right going)

/-- A dead chain stays dead as it is let go of. -/
theorem Does.release (h : m.Does m') : m.Does m'.release := by
  unfold Mounted.release
  split
  · exact h
  · cases h with
    | rests dead kept alive =>
      exact .rests (fun killed => Chain.Wired.killed_step (dead killed) .close) kept alive
    | acts act dead kept told =>
      exact .acts act (fun killed => Chain.Wired.killed_step (dead killed) .close) kept told

theorem Does.stopped (h : m.Does m') (stopped : m.party.stream.reading = false) :
    m'.party.stream.reading = false := by
  cases h with
  | rests => exact stopped
  | acts act => exact Party.reading_step_of_false stopped act

theorem Does.killed (h : m.Does m') (dead : m.wired.chain.killed = true) :
    m'.wired.chain.killed = true := by
  cases h with
  | rests still => exact still dead
  | acts act still => exact still (.inl dead)

theorem does_receive (m : Mounted) : m.Does m.receive := by
  unfold receive
  split
  · next free =>
    refine .rests m.wired.chain.works_read.moves.killed (.inr free.2) fun d given => .inr ?_
    cases dead : m.wired.chain.killed with
    | false => rfl
    | true =>
      rw [Chain.Endpoint.read, if_pos dead] at given
      cases given
  · exact .rests id (.inl rfl) fun _ => .inl

theorem does_apply (m : Mounted) : m.Does m.apply := by
  unfold apply
  split
  · exact .rests id (.inl rfl) fun _ => .inl
  · next r held =>
    refine (does_turn (.ofRead r) id (.inr ⟨rfl, r, held, rfl⟩) fun d same => ⟨?_, rfl⟩).release
    cases r with
    | ok d' =>
      cases same
      exact held
    | error e => cases same

theorem does_step (m : Mounted) (act : Act) : m.Does (m.step act) := by
  cases act with
  | own act =>
    simp only [step]
    split
    · exact .rests id (.inl rfl) fun _ => .inl
    · next own =>
      refine does_turn act id (.inl rfl) fun d same => ?_
      subst same
      exact absurd rfl own
  | receive => exact m.does_receive
  | apply => exact m.does_apply
  | pass fault =>
    simp only [step, pass]
    split
    · next data k held writer =>
      exact does_turn (.pass _) (fun dead => Chain.Wired.killed_step dead (.write k fault data))
        (.inl rfl) nofun
    · exact does_turn (.pass _) id (.inl rfl) nofun
    · exact .rests id (.inl rfl) fun _ => .inl
  | chain act =>
    exact .rests (fun dead => Chain.Wired.killed_step dead act) (.inl rfl) fun _ => .inl

/-! ## The end of reading -/

/-- The chain is dead, and the reading activity has no delivery of it left. -/
structure Spent (m : Mounted) : Prop where
  dead : m.wired.chain.killed = true
  spent : m.party.stream.reading = false ∨ ∀ d, m.held ≠ some (.ok d)

/-- The chain is dead, and the reading activity knows it. -/
structure Warned (m : Mounted) : Prop where
  dead : m.wired.chain.killed = true
  warned : m.party.stream.reading = false ∨ ∃ e, m.held = some (.error e)

theorem spent_apply (dead : m.wired.chain.killed = true) : m.apply.Spent := by
  refine ⟨m.does_apply.killed dead, .inr fun d => ?_⟩
  unfold apply
  split
  · next none' =>
    rw [none']
    nofun
  · unfold release
    split <;> nofun

theorem Spent.does (h : m.Spent) (does : m.Does m') : m'.Spent := by
  refine ⟨does.killed h.dead, h.spent.imp does.stopped fun spent d => ?_⟩
  cases does with
  | rests still kept alive =>
    intro given
    obtain held | alive := alive d given
    · exact spent d held
    · cases h.dead.symm.trans alive
  | acts act still kept =>
    intro given
    obtain same | ⟨none', -⟩ := kept
    · exact spent d (same.symm.trans given)
    · cases none'.symm.trans given

theorem Spent.receive (h : m.Spent) : m.receive.Warned := by
  refine ⟨m.does_receive.killed h.dead, ?_⟩
  obtain stopped | spent := h.spent
  · exact .inl (m.does_receive.stopped stopped)
  unfold Mounted.receive
  split
  · refine .inr ⟨m.wired.chain.terminalError, ?_⟩
    rw [Chain.Endpoint.read, if_pos h.dead]
  · next busy =>
    cases reading : m.party.stream.reading with
    | false => exact .inl rfl
    | true =>
      match held : m.held with
      | none => exact absurd ⟨reading, held⟩ busy
      | some (.ok d) => exact absurd held (spent d)
      | some (.error e) => exact .inr ⟨e, rfl⟩

/-- The reading activity stops as it learns of the end of its chain. -/
theorem reading_lose (p : Party) (e : Chain.Error) : (p.step (.lose e)).stream.reading = false := by
  simp only [Party.step]
  split
  · rfl
  · next stopped => simpa using stopped

theorem Warned.does (h : m.Warned) (does : m.Does m') : m'.Warned := by
  refine ⟨does.killed h.dead, ?_⟩
  obtain stopped | ⟨e, held⟩ := h.warned
  · exact .inl (does.stopped stopped)
  cases does with
  | rests still kept alive =>
    obtain same | none' := kept
    · exact .inr ⟨e, same.trans held⟩
    · cases held.symm.trans none'
  | acts act still kept =>
    obtain same | ⟨-, r, known, rfl⟩ := kept
    · exact .inr ⟨e, same.trans held⟩
    · cases held.symm.trans known
      exact .inl (reading_lose m.party e)

theorem Warned.apply (h : m.Warned) : m.apply.party.stream.reading = false := by
  obtain stopped | ⟨e, held⟩ := h.warned
  · exact m.does_apply.stopped stopped
  have stopped := reading_lose m.party e
  simp only [Mounted.apply, held]
  unfold release
  split <;> exact stopped

/-- A reading activity that does something about what it has, reads on and does something about that
stops, once its chain is dead. -/
theorem reading_run (dead : m.wired.chain.killed = true) {acts : List Act}
    (goesOn : [.apply, .receive, .apply].Sublist acts) :
    (m.run acts).party.stream.reading = false := by
  have passes {P Q : Mounted → Prop} {act : Act} (before : ∀ m m', P m → m.Does m' → P m')
      (now : ∀ m, P m → Q (m.step act)) (after : ∀ m m', Q m → m.Does m' → Q m')
      {part : List Act} (mem : act ∈ part) {m : Mounted} (h : P m) : Q (m.run part) := by
    obtain ⟨earlier, later, rfl⟩ := List.append_of_mem mem
    have there : P (m.run earlier) :=
      run_induction h (fun n act h => before n _ h (n.does_step act)) earlier
    rw [run_append]
    exact run_induction (now _ there) (fun n act h => after n _ h (n.does_step act)) later
  obtain ⟨first, rest, rfl, applies, goesOn⟩ := List.cons_sublist_iff.mp goesOn
  obtain ⟨second, third, rfl, reads, goesOn⟩ := List.cons_sublist_iff.mp goesOn
  have again : .apply ∈ third := List.singleton_sublist.mp goesOn
  have spent : (m.run first).Spent := passes (P := fun m => m.wired.chain.killed = true)
    (fun _ _ dead does => does.killed dead) (fun _ => spent_apply) (fun _ _ => .does) applies dead
  have warned : ((m.run first).run second).Warned := passes
    (fun _ _ => Spent.does) (fun _ => Spent.receive) (fun _ _ => .does) reads spent
  rw [run_append, run_append]
  exact passes (fun _ _ => Warned.does) (fun _ => Warned.apply) (fun _ _ stopped does => does.stopped stopped)
    again warned

end Mounted

end Stream

end Tether
