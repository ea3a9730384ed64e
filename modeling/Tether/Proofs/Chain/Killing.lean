import Tether.Proofs.Chain.Passage

/-!
# A killed chain stays dead

The runs that the law of kills is about. Any number of kills, installations, writes and reads go on at
one end of a chain, each a task of its own that takes its steps in its own time. A kill names its
reason, raises the latch, and takes the current link away. An installation attaches its link in one
section under the lock, and then queues the stitch. A write is let through or turned away, and what
was let through is sent later. Between these steps anything may happen on the links.

No lock is common to kills and installations. An installation that comes before the latch leaves its
link as the current one, where the kill finds it; one that comes later finds the latch. So all that has
to be shown is that only the current link can be in use, and that it is gone once a kill has returned.
-/

namespace Tether.Chain

/-- How far a kill has come. -/
inductive Kill.Stage where
  | named
  | raised
  | returned
  deriving DecidableEq, Repr

/-- A kill that has named its reason. -/
structure Kill where
  reason : Option Error
  stage : Kill.Stage := .named
  deriving DecidableEq, Repr

/-- What a kill is for. Without a reason it is a kill at this end. -/
def Kill.cause (x : Kill) : Error :=
  x.reason.getD .killed

/-- How far an installation of a link has come. -/
inductive Install where
  /-- The link was attached, and its stitch is to be queued. -/
  | attached (link : LinkId)
  | refused
  | stitched (link : LinkId)
  deriving DecidableEq, Repr

/-- How far a write has come. -/
inductive Write where
  /-- It was let through, and is to be sent. -/
  | sending (link : LinkId) (data : Bytes)
  | answered (answer : Except Error Unit)

/-- One end of a chain, with all that goes on at it: kills in the order in which they named their
reasons, installations and writes in the order in which they began, and what the reads have
answered. -/
structure Race where
  wired : Wired
  kills : List Kill := []
  installs : List Install := []
  writes : List Write := []
  reads : List (Except Error Delivery) := []

namespace Race

def chain (r : Race) : Endpoint :=
  r.wired.chain

/-! ## Steps -/

def name (r : Race) (reason : Option Error) : Race :=
  { r with wired := r.wired.step (.nameReason reason), kills := r.kills ++ [{ reason }] }

def raise (r : Race) (i : Nat) : Race :=
  match r.kills[i]? with
  | some ⟨reason, .named⟩ =>
    { r with wired := r.wired.step .raise, kills := r.kills.set i ⟨reason, .raised⟩ }
  | _ => r

def takeLink (r : Race) (i : Nat) : Race :=
  match r.kills[i]? with
  | some ⟨reason, .raised⟩ =>
    { r with wired := r.wired.step .retireCurrent, kills := r.kills.set i ⟨reason, .returned⟩ }
  | _ => r

/-- The user lets go of the reader, whose kill has returned. -/
def drop (r : Race) (i : Nat) : Race :=
  match r.kills[i]? with
  | some ⟨_, .returned⟩ => { r with wired := r.wired.step .close }
  | _ => r

def install (r : Race) (seq : Nat) (link : Link.End) (pipe : Link.Pipe) : Race :=
  match (r.chain.attach seq link).2 with
  | none => { r with installs := r.installs ++ [.refused] }
  | some k =>
    { r with wired := r.wired.attach seq link pipe, installs := r.installs ++ [.attached k] }

/-- The stitch of an attached link is queued, or the link is given up. -/
def stitch (r : Race) (i : Nat) : Race :=
  match r.installs[i]? with
  | some (.attached k) =>
    match r.chain.stitch? k with
    | none => r
    | some chain =>
      { r with
        wired := r.wired.stitch k
        installs := r.installs.set i
          (if chain.stage k = .refused then .refused else .stitched k) }
  | _ => r

def write (r : Race) (k : LinkId) (data : Bytes) : Race :=
  match r.chain.mayWrite k with
  | .ok () => { r with writes := r.writes ++ [.sending k data] }
  | .error e => { r with writes := r.writes ++ [.answered (.error e)] }

/-- What was let through is sent, unless its link was retired meanwhile. `fault` says whether the
medium fails. -/
def send (r : Race) (i : Nat) (fault : Bool) : Race :=
  match r.writes[i]? with
  | some (.sending k data) =>
    if r.chain.retired k then
      { r with writes := r.writes.set i (.answered (.error .superseded)) }
    else
      match r.wired.strands[k]? with
      | none => r
      | some s =>
        let (pipe, sent) := s.pipe.send r.wired.side fault data
        let (chain, answer) := r.chain.written k sent
        { r with
          wired := { r.wired.modifyPipe k fun _ => pipe with chain }
          writes := r.writes.set i (.answered answer) }
  | _ => r

def read (r : Race) : Race :=
  { r with wired := r.wired.read, reads := r.reads ++ r.chain.read.2.toList }

/-! ## Runs -/

inductive Event where
  /-- A kill names its reason. -/
  | name (reason : Option Error)
  | raise (kill : Nat)
  /-- A kill takes the current link away, and returns. -/
  | takeLink (kill : Nat)
  | drop (kill : Nat)
  | install (seq : Nat) (link : Link.End) (pipe : Link.Pipe)
  | stitch (install : Nat)
  | write (link : LinkId) (data : Bytes)
  | send (write : Nat) (fault : Bool)
  | read
  | pump (link : LinkId)
  /-- A writer is let go. -/
  | dropWriter (link : LinkId)
  /-- The peer sends. -/
  | arrive (link : LinkId) (fault : Bool) (data : Bytes)
  /-- The peer lets go of its sending half of a link. -/
  | dropSender (link : LinkId)
  /-- The peer lets go of its receiving half of a link. -/
  | dropReceiver (link : LinkId)
  | cut (link : LinkId)

/-- One event of a run. -/
def step (r : Race) : Event → Race
  | .name reason => r.name reason
  | .raise i => r.raise i
  | .takeLink i => r.takeLink i
  | .drop i => r.drop i
  | .install seq link pipe => r.install seq link pipe
  | .stitch i => r.stitch i
  | .write k data => r.write k data
  | .send i fault => r.send i fault
  | .read => r.read
  | .pump k => { r with wired := r.wired.step (.pump k) }
  | .dropWriter k => { r with wired := r.wired.step (.dropWriter k) }
  | .arrive k fault data => { r with wired := r.wired.step (.arrive k fault data) }
  | .dropSender k => { r with wired := r.wired.step (.dropSender k) }
  | .dropReceiver k => { r with wired := r.wired.step (.dropReceiver k) }
  | .cut k => { r with wired := r.wired.step (.cut k) }

/-- An end without links, before any kill. -/
def start (side : Link.Side) (id : Id) (depth : Nat) : Race :=
  { wired := .start side id depth }

def run (r : Race) (events : List Event) : Race :=
  events.foldl step r

/-- What one event keeps holds after every run. -/
theorem run_induction {P : Race → Prop} {r : Race} (start : P r)
    (step : ∀ r event, P r → P (r.step event)) (events : List Event) : P (r.run events) :=
  List.foldlRecOn events Race.step start fun r held event _ => step r event held

end Race

/-! ## The link in use -/

namespace Endpoint

variable {e e' : Endpoint}

/-- The links of a chain are in order, and none but the current one can be in use. -/
structure Solo (e : Endpoint) : Prop extends Ranked e where
  whole : ∀ {k}, e.retired k = false → e.current = some k

theorem solo_new (id : Id) (depth : Nat) : (new id depth).Solo where
  toRanked := ranked_new id depth
  whole whole := by simp [retired, new] at whole

theorem Moves.whole (h : e.Moves e') {k : LinkId} (whole : e'.retired k = false) :
    e.retired k = false := by
  cases gone : e.retired k with
  | false => rfl
  | true =>
    rw [h.retired gone] at whole
    cases whole

theorem Solo.keeps (h : e.Solo) (moved : e.Moves e') (current : e'.current = e.current) :
    e'.Solo where
  toRanked := h.toRanked.moves moved
  whole whole := current.trans (h.whole (moved.whole whole))

theorem nameReason_terminal (e : Endpoint) (reason : Option Error) :
    (e.nameReason reason).terminal = some (e.terminal.getD (reason.getD .killed)) := by
  unfold nameReason
  cases named : e.terminal with
  | some first => exact named
  | none => rfl

theorem nameReason_keeps {x : Error} (named : e.terminal = some x) (reason : Option Error) :
    e.nameReason reason = e := by
  simp only [nameReason, named]

theorem current_retireCurrent (e : Endpoint) : e.retireCurrent.current = none := by
  unfold retireCurrent
  split
  · rfl
  · assumption

theorem terminal_retireCurrent (e : Endpoint) : e.retireCurrent.terminal = e.terminal := by
  unfold retireCurrent
  split <;> rfl

/-- The link in use is retired as it is taken away. -/
theorem Solo.retireCurrent (h : e.Solo) (dead : e.killed = true) : e.retireCurrent.Solo where
  toRanked := h.toRanked.moves (fades_retireCurrent dead).toMoves
  whole {k} whole := by
    have current : e.current = some k := h.whole ((fades_retireCurrent dead).toMoves.whole whole)
    have gone : e.retireCurrent.retired k = true := by
      unfold Endpoint.retireCurrent
      rw [current]
      exact retired_retire e k
    rw [gone] at whole
    cases whole

theorem Solo.attach (h : e.Solo) (seq : Nat) (link : Link.End) : (e.attach seq link).1.Solo := by
  obtain ⟨refused, -⟩ | ⟨-, lower, before, faded, gone, attached⟩ := h.toRanked.attach_cases seq link
  · rw [refused]
    exact h
  · rw [attached]
    have below : ∀ i n, before.seq? i = some n → n < seq := fun i n found =>
      lower i n (faded.seq i ▸ found)
    refine ⟨(h.toRanked.moves faded.toMoves).withLink below gone link, fun {k} whole => ?_⟩
    rw [retired_withLink] at whole
    split at whole
    · next last =>
      rw [last]
      rfl
    · rw [gone] at whole
      cases whole

theorem terminal_attach (e : Endpoint) (seq : Nat) (link : Link.End) :
    (e.attach seq link).1.terminal = e.terminal ∧ (e.attach seq link).1.killed = e.killed := by
  unfold attach
  split
  · exact ⟨rfl, rfl⟩
  · cases e.current with
    | none => exact ⟨rfl, rfl⟩
    | some old =>
      simp only
      split <;> exact ⟨rfl, rfl⟩

theorem attach_killed (dead : e.killed = true) (seq : Nat) (link : Link.End) :
    e.attach seq link = (e, none) :=
  if_pos dead

theorem Works.current (work : e.Works e') : e'.current = e.current := by
  cases work <;> rfl

theorem Works.killed (work : e.Works e') : e'.killed = e.killed := by
  cases work <;> rfl

theorem Works.terminal (work : e.Works e') : e'.terminal = e.terminal := by
  cases work <;> rfl

end Endpoint

namespace Wired

variable {w : Wired}

theorem chain_attach (w : Wired) (seq : Nat) (link : Link.End) (pipe : Link.Pipe) :
    (w.attach seq link pipe).chain = w.chain ∧ (w.chain.attach seq link).2 = none ∨
      (w.attach seq link pipe).chain = (w.chain.attach seq link).1.announce := by
  unfold attach
  split
  · next attached => exact .inl ⟨rfl, by rw [attached]⟩
  · next attached => exact .inr (by rw [attached])

/-- The first reason stays. -/
theorem terminal_step {e : Error} (named : w.chain.terminal = some e) (act : Act) :
    (w.step act).chain.terminal = some e := by
  cases act with
  | attach seq link pipe =>
    obtain ⟨same, -⟩ | same := chain_attach w seq link pipe
    · exact (congrArg Endpoint.terminal same).trans named
    · exact (congrArg Endpoint.terminal same).trans
        ((Endpoint.terminal_attach _ seq link).1.trans named)
  | nameReason reason =>
    exact (congrArg Endpoint.terminal (Endpoint.nameReason_keeps named reason)).trans named
  | raise => exact named
  | retireCurrent =>
    simp only [step]
    split
    · exact (Endpoint.terminal_retireCurrent _).trans named
    · exact named
  | close =>
    refine (Endpoint.terminal_retireCurrent _).trans ?_
    exact (congrArg Endpoint.terminal (Endpoint.nameReason_keeps named none)).trans named
  | _ => exact (works_step w (by constructor)).terminal.trans named

/-- Only a raised latch ends a chain. -/
theorem killed_or_raises {act : Act} (dead : (w.step act).chain.killed = true) :
    w.chain.killed = true ∨ act = .raise ∨ act = .close := by
  cases act with
  | attach seq link pipe =>
    obtain ⟨same, -⟩ | same := chain_attach w seq link pipe
    · exact .inl ((congrArg Endpoint.killed same).symm.trans dead)
    · exact .inl ((Endpoint.terminal_attach _ seq link).2.symm.trans
        ((congrArg Endpoint.killed same).symm.trans dead))
  | nameReason reason =>
    simp only [step, Endpoint.nameReason] at dead
    split at dead <;> exact .inl dead
  | raise => exact .inr (.inl rfl)
  | retireCurrent =>
    simp only [step] at dead
    split at dead
    · next killed => exact .inl killed
    · exact .inl dead
  | close => exact .inr (.inr rfl)
  | _ => exact .inl ((works_step w (by constructor)).killed.symm.trans dead)

end Wired

namespace Race

variable {r r' before : Race} {e : Error}

/-! ## What an event can do -/

/-- What one event can have done. Work on the links is done by many events; the others also change
what is kept of the kills, the installations, the writes or the reads. -/
inductive Did (r : Race) : Race → Prop where
  | works {wired : Wired} (work : r.chain.Works wired.chain) : Did r { r with wired }
  | names (reason : Option Error) : Did r (r.name reason)
  | raises {i : Nat} {reason : Option Error} (found : r.kills[i]? = some ⟨reason, .named⟩) :
    Did r { r with wired := r.wired.step .raise, kills := r.kills.set i ⟨reason, .raised⟩ }
  | takes {i : Nat} {reason : Option Error} (found : r.kills[i]? = some ⟨reason, .raised⟩) :
    Did r
      { r with wired := r.wired.step .retireCurrent, kills := r.kills.set i ⟨reason, .returned⟩ }
  | drops {i : Nat} {reason : Option Error} (found : r.kills[i]? = some ⟨reason, .returned⟩) :
    Did r { r with wired := r.wired.step .close }
  | refuses : Did r { r with installs := r.installs ++ [.refused] }
  | attaches {seq : Nat} {link : Link.End} {pipe : Link.Pipe} {k : LinkId}
    (attached : (r.chain.attach seq link).2 = some k) :
    Did r { r with wired := r.wired.attach seq link pipe, installs := r.installs ++ [.attached k] }
  | stitches {wired : Wired} {i : Nat} {k : LinkId} {install : Install}
    (found : r.installs[i]? = some (.attached k)) (work : r.chain.Works wired.chain) :
    Did r { r with wired, installs := r.installs.set i install }
  | begins {k : LinkId} {write : Write}
    (turned : ∀ e, r.chain.mayWrite k = .error e → write = .answered (.error e)) :
    Did r { r with writes := r.writes ++ [write] }
  /-- A write is answered. What was to go over a retired link is not sent. -/
  | answers {wired : Wired} {i : Nat} {k : LinkId} {data : Bytes} {answer : Except Error Unit}
    (found : r.writes[i]? = some (.sending k data)) (work : r.chain.Works wired.chain)
    (unsent : r.chain.retired k = true → answer = .error .superseded) :
    Did r { r with wired, writes := r.writes.set i (.answered answer) }
  | reads {wired : Wired} (work : r.chain.Works wired.chain) :
    Did r { r with wired, reads := r.reads ++ r.chain.read.2.toList }

theorem did_rest (r : Race) : r.Did r :=
  .works .rests

theorem did_plain (r : Race) {act : Wired.Act} (plain : act.Plain) :
    r.Did { r with wired := r.wired.step act } :=
  .works (Wired.works_step r.wired plain)

theorem did_write (r : Race) (k : LinkId) (data : Bytes) : r.Did (r.write k data) := by
  unfold Race.write
  split
  · next through =>
    refine .begins (k := k) fun e refused => ?_
    rw [through] at refused
    cases refused
  · next refusal turned =>
    refine .begins (k := k) fun e refused => ?_
    rw [turned] at refused
    cases refused
    rfl

theorem did_send (r : Race) (i : Nat) (fault : Bool) : r.Did (r.send i fault) := by
  unfold Race.send
  split
  · next k data found =>
    split
    · exact .answers found .rests fun _ => rfl
    · next whole =>
      split
      · exact r.did_rest
      · exact .answers found (Endpoint.works_written _ k _) fun gone => absurd gone whole
  · exact r.did_rest

theorem did_step (r : Race) (event : Event) : r.Did (r.step event) := by
  cases event with
  | name reason => exact .names reason
  | raise i =>
    simp only [step, Race.raise]
    split
    · next found => exact .raises found
    · exact r.did_rest
  | takeLink i =>
    simp only [step, Race.takeLink]
    split
    · next found => exact .takes found
    · exact r.did_rest
  | drop i =>
    simp only [step, Race.drop]
    split
    · next found => exact .drops found
    · exact r.did_rest
  | install seq link pipe =>
    simp only [step, Race.install]
    split
    · exact .refuses
    · next attached => exact .attaches attached
  | stitch i =>
    simp only [step, Race.stitch]
    split
    · next k found =>
      split
      · exact r.did_rest
      · exact .stitches found (Wired.works_step r.wired (.stitch k))
    · exact r.did_rest
  | write k data => exact r.did_write k data
  | send i fault => exact r.did_send i fault
  | read => exact .reads (Wired.works_step r.wired .read)
  | pump k => exact r.did_plain (.pump k)
  | dropWriter k => exact r.did_plain (.dropWriter k)
  | arrive k fault data => exact r.did_plain (.arrive k fault data)
  | dropSender k => exact r.did_plain (.dropSender k)
  | dropReceiver k => exact r.did_plain (.dropReceiver k)
  | cut k => exact r.did_plain (.cut k)

/-! ## What holds of every run -/

/-- How the kills have left the chain. -/
structure Sound (r : Race) : Prop where
  solo : r.chain.Solo
  /-- The chain ends for the cause of the kill that came first. -/
  first : r.chain.terminal = r.kills.head?.map Kill.cause
  latched : r.chain.killed = true → ∃ e, r.chain.terminal = some e
  raised : ∀ x ∈ r.kills, x.stage ≠ .named → r.chain.killed = true
  returned : ∀ x ∈ r.kills, x.stage = .returned → r.chain.current = none

theorem sound_start (side : Link.Side) (id : Id) (depth : Nat) : (start side id depth).Sound where
  solo := Endpoint.solo_new id depth
  first := rfl
  latched := nofun
  raised := nofun
  returned := nofun

/-- A kill has named a reason, be it its own or an earlier one. -/
theorem Sound.named (h : r.Sound) {x : Kill} (mem : x ∈ r.kills) :
    ∃ e, r.chain.terminal = some e := by
  rw [h.first]
  cases kills : r.kills with
  | nil =>
    rw [kills] at mem
    cases mem
  | cons y others => exact ⟨y.cause, rfl⟩

/-- Work on the links leaves the kills as they were. -/
theorem Sound.works (h : r.Sound) (kills : r'.kills = r.kills) (work : r.chain.Works r'.chain) :
    r'.Sound where
  solo := h.solo.keeps work.moves work.current
  first := by rw [work.terminal, kills, h.first]
  latched dead := by
    rw [work.terminal]
    exact h.latched (work.killed ▸ dead)
  raised x mem stage := by
    rw [kills] at mem
    rw [work.killed]
    exact h.raised x mem stage
  returned x mem stage := by
    rw [kills] at mem
    rw [work.current]
    exact h.returned x mem stage

theorem Sound.name (h : r.Sound) (reason : Option Error) : (r.name reason).Sound := by
  have faded := Endpoint.fades_nameReason r.chain reason
  have kept : (r.chain.nameReason reason).current = r.chain.current ∧
      (r.chain.nameReason reason).killed = r.chain.killed := by
    unfold Endpoint.nameReason
    split <;> exact ⟨rfl, rfl⟩
  constructor
  · exact h.solo.keeps faded.toMoves kept.1
  · have first : (r.name reason).chain.terminal = some (r.chain.terminal.getD (reason.getD .killed)) :=
      Endpoint.nameReason_terminal r.chain reason
    rw [first, h.first]
    show _ = (r.kills ++ [(⟨reason, .named⟩ : Kill)]).head?.map Kill.cause
    cases r.kills <;> rfl
  · exact fun _ => ⟨_, Endpoint.nameReason_terminal r.chain reason⟩
  · intro x mem stage
    show (r.chain.nameReason reason).killed = true
    rw [kept.2]
    obtain old | new := List.mem_append.mp mem
    · exact h.raised x old stage
    · cases List.mem_singleton.mp new
      exact absurd rfl stage
  · intro x mem stage
    show (r.chain.nameReason reason).current = none
    rw [kept.1]
    obtain old | new := List.mem_append.mp mem
    · exact h.returned x old stage
    · cases List.mem_singleton.mp new
      cases stage

/-- A kill that goes on is the same kill. -/
theorem head?_set {kills : List Kill} {i : Nat} {reason : Option Error} {stage stage' : Kill.Stage}
    (found : kills[i]? = some ⟨reason, stage⟩) :
    (kills.set i ⟨reason, stage'⟩).head?.map Kill.cause = kills.head?.map Kill.cause := by
  cases kills with
  | nil => rfl
  | cons x kills =>
    cases i with
    | zero =>
      cases found
      rfl
    | succ i => rfl

theorem Sound.raise (h : r.Sound) {i : Nat} {reason : Option Error}
    (found : r.kills[i]? = some ⟨reason, .named⟩) :
    Sound { r with wired := r.wired.step .raise, kills := r.kills.set i ⟨reason, .raised⟩ } := by
  refine ⟨h.solo.keeps (Endpoint.fades_raise _).toMoves rfl, ?_, fun _ => ?_, fun _ _ _ => rfl, ?_⟩
  · exact h.first.trans (head?_set found).symm
  · exact h.named (List.mem_of_getElem? found)
  · intro x mem stage
    obtain old | rfl := List.mem_or_eq_of_mem_set mem
    · exact h.returned x old stage
    · cases stage

theorem chain_retireCurrent (dead : r.chain.killed = true) :
    (r.wired.step .retireCurrent).chain = r.chain.retireCurrent := by
  have latched : r.wired.chain.killed = true := dead
  simp only [Wired.step, if_pos latched]
  rfl

/-- The link in use is gone once a kill has returned. -/
theorem Sound.takeLink (h : r.Sound) {i : Nat} {reason : Option Error}
    (found : r.kills[i]? = some ⟨reason, .raised⟩) :
    Sound { r with
      wired := r.wired.step .retireCurrent, kills := r.kills.set i ⟨reason, .returned⟩ } := by
  have known : (⟨reason, .raised⟩ : Kill) ∈ r.kills := List.mem_of_getElem? found
  have dead : r.chain.killed = true := h.raised _ known nofun
  have terminal := r.chain.terminal_retireCurrent
  have latched : r.chain.retireCurrent.killed = true :=
    (Endpoint.fades_retireCurrent dead).killed dead
  have after : Race.chain { r with
      wired := r.wired.step .retireCurrent, kills := r.kills.set i ⟨reason, .returned⟩ } =
        r.chain.retireCurrent := chain_retireCurrent dead
  constructor
  · rw [after]
    exact h.solo.retireCurrent dead
  · rw [after, terminal, h.first]
    exact (head?_set found).symm
  · rw [after, terminal]
    exact fun _ => h.named known
  · rw [after]
    exact fun _ _ _ => latched
  · rw [after]
    exact fun _ _ _ => Endpoint.current_retireCurrent _

/-- A kill that comes after one that has returned changes nothing but the queue. -/
theorem close_eq {e : Endpoint} {x : Error} (dead : e.killed = true) (named : e.terminal = some x)
    (gone : e.current = none) : e.close = { e with events := [] } := by
  obtain ⟨id, depth, killed, terminal, links, current, announced, events, stitched⟩ := e
  cases dead
  cases named
  cases gone
  rfl

/-- The kill as the reader is let go is work on the links, since another has returned before. -/
theorem Sound.works_close (h : r.Sound) {x : Kill} (known : x ∈ r.kills)
    (returned : x.stage = .returned) : r.chain.Works (r.wired.step .close).chain := by
  obtain ⟨e, named⟩ := h.named known
  have dead : r.chain.killed = true := h.raised x known (by rw [returned]; exact nofun)
  show r.chain.Works r.chain.close
  rw [close_eq dead named (h.returned x known returned)]
  exact .reads [] _

theorem Sound.install (h : r.Sound) {seq : Nat} {link : Link.End} {pipe : Link.Pipe} {k : LinkId}
    (attached : (r.chain.attach seq link).2 = some k) :
    Sound { r with
      wired := r.wired.attach seq link pipe, installs := r.installs ++ [.attached k] } := by
  have alive : r.chain.killed = false := by
    cases dead : r.chain.killed with
    | false => rfl
    | true =>
      rw [Endpoint.attach_killed dead] at attached
      cases attached
  have chain : (r.wired.attach seq link pipe).chain = (r.chain.attach seq link).1.announce := by
    have found : r.wired.chain.attach seq link = ((r.chain.attach seq link).1, some k) :=
      Prod.ext rfl attached
    simp only [Wired.attach, found]
  have after : Race.chain { r with
      wired := r.wired.attach seq link pipe, installs := r.installs ++ [.attached k] } =
        (r.chain.attach seq link).1.announce := chain
  obtain ⟨terminal, killed⟩ := r.chain.terminal_attach seq link
  have terminal : (r.chain.attach seq link).1.announce.terminal = r.chain.terminal := terminal
  have killed : (r.chain.attach seq link).1.announce.killed = r.chain.killed := killed
  constructor
  · rw [after]
    exact (h.solo.attach seq link).keeps (Endpoint.fades_announce _).toMoves rfl
  · rw [after, terminal]
    exact h.first
  · rw [after, terminal, killed]
    exact h.latched
  · rw [after, killed]
    exact h.raised
  · intro x mem stage
    have dead := h.raised x mem (by rw [stage]; exact nofun)
    rw [alive] at dead
    cases dead

theorem Sound.did (h : r.Sound) (did : r.Did r') : r'.Sound := by
  cases did with
  | works work => exact h.works rfl work
  | names reason => exact h.name reason
  | raises found => exact h.raise found
  | takes found => exact h.takeLink found
  | drops found => exact h.works rfl (h.works_close (List.mem_of_getElem? found) rfl)
  | refuses => exact h.works rfl .rests
  | attaches attached => exact h.install attached
  | stitches _ work => exact h.works rfl work
  | begins _ => exact h.works rfl .rests
  | answers _ work _ => exact h.works rfl work
  | reads work => exact h.works rfl work

theorem Sound.step (h : r.Sound) (event : Event) : (r.step event).Sound :=
  h.did (r.did_step event)

theorem sound_run (side : Link.Side) (id : Id) (depth : Nat) (events : List Event) :
    ((start side id depth).run events).Sound :=
  run_induction (sound_start side id depth) (fun _ event h => h.step event) events

/-- No link is in use where none is the current one. -/
theorem Sound.retired (h : r.Sound) (gone : r.chain.current = none) (k : LinkId) :
    r.chain.retired k = true := by
  cases whole : r.chain.retired k with
  | true => rfl
  | false =>
    have current := h.solo.whole whole
    rw [gone] at current
    cases current

/-! ## What comes after the latch -/

/-- What has happened since a moment at which the chain was dead for the cause `e`. -/
structure Dead (e : Error) (before r : Race) : Prop where
  killed : r.chain.killed = true
  terminal : r.chain.terminal = some e
  current : before.chain.current = none → r.chain.current = none
  installs : ∀ i x, before.installs.length ≤ i → r.installs[i]? = some x → x = .refused
  writes : ∀ i x, before.writes.length ≤ i → r.writes[i]? = some x → x = .answered (.error e)
  reads : ∀ i x, before.reads.length ≤ i → r.reads[i]? = some x → x = .error e

theorem dead_refl (killed : r.chain.killed = true) (terminal : r.chain.terminal = some e) :
    Dead e r r where
  killed := killed
  terminal := terminal
  current := id
  installs i x outside found := by
    rw [List.getElem?_eq_none outside] at found
    cases found
  writes i x outside found := by
    rw [List.getElem?_eq_none outside] at found
    cases found
  reads i x outside found := by
    rw [List.getElem?_eq_none outside] at found
    cases found

/-- What the chain answers to everyone. -/
theorem Dead.answers (h : Dead e before r) :
    r.chain.read = (r.chain, some (.error e)) ∧ ∀ k, r.chain.mayWrite k = .error e := by
  have cause : r.chain.terminalError = e := by
    rw [Endpoint.terminalError, h.terminal]
    rfl
  refine ⟨?_, fun k => ?_⟩
  · rw [Endpoint.read, if_pos h.killed, cause]
  · rw [Endpoint.mayWrite, if_pos h.killed, cause]

/-- A list that may grow by what is settled, and change where it is not. -/
theorem settled_append {α : Type} {xs : List α} {n : Nat} {y : α}
    (settled : ∀ i x, n ≤ i → xs[i]? = some x → x = y) :
    ∀ i x, n ≤ i → (xs ++ [y])[i]? = some x → x = y := by
  intro i x outside found
  obtain ⟨bound, same⟩ := List.getElem?_eq_some_iff.mp found
  by_cases old : i < xs.length
  · rw [List.getElem?_append_left old] at found
    exact settled i x outside found
  · rw [List.getElem_append_right (by omega)] at same
    simpa using same.symm

theorem settled_set {α : Type} {xs : List α} {n j : Nat} {y z z' : α}
    (settled : ∀ i x, n ≤ i → xs[i]? = some x → x = y) (busy : xs[j]? = some z) (other : z ≠ y) :
    ∀ i x, n ≤ i → (xs.set j z')[i]? = some x → x = y := by
  intro i x outside found
  have apart : j ≠ i := by
    rintro rfl
    exact other (settled j z outside busy)
  rw [List.getElem?_set_ne apart] at found
  exact settled i x outside found

/-- Work on the links leaves a dead chain dead. -/
theorem Dead.works (h : Dead e before r) (work : r.chain.Works r'.chain)
    (installs : ∀ i x, before.installs.length ≤ i → r'.installs[i]? = some x → x = .refused)
    (writes : ∀ i x, before.writes.length ≤ i → r'.writes[i]? = some x → x = .answered (.error e))
    (reads : ∀ i x, before.reads.length ≤ i → r'.reads[i]? = some x → x = .error e) :
    Dead e before r' where
  killed := work.killed.trans h.killed
  terminal := work.terminal.trans h.terminal
  current gone := work.current.trans (h.current gone)
  installs := installs
  writes := writes
  reads := reads

theorem Dead.name (h : Dead e before r) (reason : Option Error) : Dead e before (r.name reason) := by
  have same : r.chain.nameReason reason = r.chain := Endpoint.nameReason_keeps h.terminal reason
  refine h.works ?_ h.installs h.writes h.reads
  show r.chain.Works (r.chain.nameReason reason)
  rw [same]
  exact .rests

theorem Dead.takeLink (h : Dead e before r) (kills : List Kill) :
    Dead e before { r with wired := r.wired.step .retireCurrent, kills } := by
  have chain : Race.chain { r with wired := r.wired.step .retireCurrent, kills } =
      r.chain.retireCurrent := chain_retireCurrent h.killed
  refine ⟨?_, ?_, fun _ => ?_, h.installs, h.writes, h.reads⟩
  · rw [chain]
    exact (Endpoint.fades_retireCurrent h.killed).killed h.killed
  · rw [chain, Endpoint.terminal_retireCurrent, h.terminal]
  · rw [chain, Endpoint.current_retireCurrent]

theorem Dead.did (h : Dead e before r) (sound : r.Sound) (did : r.Did r') : Dead e before r' := by
  cases did with
  | works work => exact h.works work h.installs h.writes h.reads
  | names reason => exact h.name reason
  | raises _ => exact ⟨rfl, h.terminal, h.current, h.installs, h.writes, h.reads⟩
  | takes _ => exact h.takeLink _
  | drops found =>
    have work := sound.works_close (List.mem_of_getElem? found) rfl
    exact h.works work h.installs h.writes h.reads
  | refuses => exact h.works .rests (settled_append h.installs) h.writes h.reads
  | attaches attached =>
    rw [Endpoint.attach_killed h.killed] at attached
    cases attached
  | stitches found work => exact h.works work (settled_set h.installs found nofun) h.writes h.reads
  | begins turned =>
    cases turned e (h.answers.2 _)
    exact h.works .rests h.installs (settled_append h.writes) h.reads
  | answers found work _ => exact h.works work h.installs (settled_set h.writes found nofun) h.reads
  | reads work =>
    rw [h.answers.1]
    exact h.works work h.installs h.writes (settled_append h.reads)

theorem Dead.step (h : Dead e before r) (sound : r.Sound) (event : Event) :
    Dead e before (r.step event) :=
  h.did sound (r.did_step event)

theorem Sound.dead_run (h : r.Sound) (killed : r.chain.killed = true)
    (terminal : r.chain.terminal = some e) (events : List Event) : Dead e r (r.run events) := by
  have both := run_induction (P := fun r' => r'.Sound ∧ Dead e r r')
    ⟨h, dead_refl killed terminal⟩
    (fun r' event ⟨sound, dead⟩ => ⟨sound.step event, dead.step sound event⟩) events
  exact both.2

/-- The kill that came first stays the first. -/
theorem head?_kills_did (did : r.Did r') (named : r.kills.head?.map Kill.cause = some e) :
    r'.kills.head?.map Kill.cause = some e := by
  cases did with
  | names reason =>
    show (r.kills ++ [_]).head?.map Kill.cause = some e
    cases kills : r.kills with
    | nil =>
      rw [kills] at named
      cases named
    | cons x others =>
      rw [kills] at named
      exact named
  | raises found => exact (head?_set found).trans named
  | takes found => exact (head?_set found).trans named
  | works | drops | refuses | attaches | stitches | begins | answers | reads => exact named

theorem Sound.terminal_run (h : r.Sound) (terminal : r.chain.terminal = some e)
    (events : List Event) : (r.run events).chain.terminal = some e := by
  have both := run_induction (P := fun r' => r'.Sound ∧ r'.kills.head?.map Kill.cause = some e)
    ⟨h, h.first.symm.trans terminal⟩
    (fun r' event ⟨sound, named⟩ =>
      ⟨sound.step event, head?_kills_did (r'.did_step event) named⟩) events
  exact both.1.first.trans both.2

/-- A write that was let through is not sent, or was answered that its link was replaced. -/
def Unsent (r : Race) (i : Nat) (k : LinkId) (data : Bytes) : Prop :=
  r.writes[i]? = some (.sending k data) ∨ r.writes[i]? = some (.answered (.error .superseded))

/-- Once no link is in use, nothing is sent any more. -/
theorem Sound.unsent_did (h : r.Sound) (gone : r.chain.current = none) {i : Nat} {k : LinkId}
    {data : Bytes} (did : r.Did r') (unsent : r.Unsent i k data) : r'.Unsent i k data := by
  have bound : i < r.writes.length := by
    obtain found | found := unsent <;> exact (List.getElem?_eq_some_iff.mp found).1
  unfold Unsent
  cases did with
  | begins =>
    rw [List.getElem?_append_left bound]
    exact unsent
  | @answers _ j l _ _ _ _ refused =>
    rw [refused (h.retired gone l)]
    by_cases same : j = i
    · subst same
      exact .inr (List.getElem?_set_self bound)
    · rw [List.getElem?_set_ne same]
      exact unsent
  | works | names | raises | takes | drops | refuses | attaches | stitches | reads => exact unsent

/-- A killed chain stays dead. Whatever the order in which the steps of kills, installations, writes and
reads are taken, the chain ends for the cause of the kill that names its reason first, and that cause
never changes. Once the latch is raised, every link that comes to be attached is refused; every read
answers the cause, and so does every write that begins. Once a kill has returned, and so once all have,
no link is in use, and none ever is again; what was let through before and is not sent yet then fails
too, since its link was retired. -/
theorem killed_stays_dead (side : Link.Side) (id : Id) (depth : Nat) (before later : List Event) :
    let r := (start side id depth).run before
    let r' := r.run later
    r'.chain.terminal = r'.kills.head?.map Kill.cause ∧
      (∀ e, r.chain.terminal = some e → r'.chain.terminal = some e) ∧
      (r.chain.killed = true →
        (∀ i x, r.installs.length ≤ i → r'.installs[i]? = some x → x = .refused) ∧
          ∃ e, r.chain.terminal = some e ∧
            r'.chain.read.2 = some (.error e) ∧ (∀ k, r'.chain.mayWrite k = .error e) ∧
            (∀ i x, r.reads.length ≤ i → r'.reads[i]? = some x → x = .error e) ∧
            ∀ i x, r.writes.length ≤ i → r'.writes[i]? = some x → x = .answered (.error e)) ∧
      ((∃ x ∈ r.kills, x.stage = .returned) →
        r.chain.killed = true ∧ (∀ k, r'.chain.retired k = true) ∧
          ∀ i k data, r.writes[i]? = some (.sending k data) → r'.Unsent i k data) := by
  intro r r'
  have sound : r.Sound := sound_run side id depth before
  have sound' : r'.Sound :=
    run_induction sound (fun _ event held => held.step event) later
  refine ⟨sound'.first, fun e terminal => sound.terminal_run terminal later, fun killed => ?_, ?_⟩
  · obtain ⟨e, terminal⟩ := sound.latched killed
    have dead : Dead e r r' := sound.dead_run killed terminal later
    obtain ⟨reads, writes⟩ := dead.answers
    exact ⟨dead.installs, e, terminal, congrArg Prod.snd reads, writes, dead.reads, dead.writes⟩
  · rintro ⟨x, known, returned⟩
    have killed : r.chain.killed = true := sound.raised x known (by rw [returned]; exact nofun)
    have gone : r.chain.current = none := sound.returned x known returned
    obtain ⟨e, terminal⟩ := sound.latched killed
    have dead : Dead e r r' := sound.dead_run killed terminal later
    refine ⟨killed, sound'.retired (dead.current gone), fun i k data unsent => ?_⟩
    have held := run_induction (P := fun q => q.Sound ∧ Dead e r q ∧ q.Unsent i k data)
      ⟨sound, dead_refl killed terminal, .inl unsent⟩
      (fun q event ⟨sound, dead, unsent⟩ => ⟨sound.step event, dead.step sound event,
        sound.unsent_did (dead.current gone) (q.did_step event) unsent⟩) later
    exact held.2.2

/-- Two kills, and installations before, between and after their steps. -/
def contested : List Event :=
  [.install 1 ⟨0, .far⟩ {}, .stitch 0, .read, .write 0 [1], .name (some .orphaned),
    .install 2 ⟨1, .far⟩ {}, .raise 0, .install 3 ⟨2, .far⟩ {}, .name none, .raise 1, .takeLink 1,
    .stitch 1, .send 0 false, .takeLink 0]

theorem killed_stays_dead_contested :
    let r := (start .far ⟨7⟩ 4).run contested
    let r' := r.run [.install 4 ⟨3, .far⟩ {}, .write 1 [2], .read]
    (∃ x ∈ r.kills, x.stage = .returned) ∧ r.chain.killed = true ∧
      r.chain.terminal = some .orphaned ∧ r'.chain.read.2 = some (.error .orphaned) ∧
      (∀ k, r'.chain.mayWrite k = .error .orphaned) ∧ (∀ k, r'.chain.retired k = true) ∧
      r'.installs = [.stitched 0, .refused, .refused, .refused] := by
  intro r r'
  have returned : ∃ x ∈ ((start .far ⟨7⟩ 4).run contested).kills, x.stage = .returned := by
    decide +kernel
  have terminal : ((start .far ⟨7⟩ 4).run contested).chain.terminal = some .orphaned := by
    decide +kernel
  have installs : r'.installs = [.stitched 0, .refused, .refused, .refused] := by
    decide +kernel
  obtain ⟨-, -, afterLatch, afterReturn⟩ := killed_stays_dead .far ⟨7⟩ 4 contested
    [.install 4 ⟨3, .far⟩ {}, .write 1 [2], .read]
  obtain ⟨killed, retired, -⟩ := afterReturn returned
  obtain ⟨-, e, cause, reads, writes, -⟩ := afterLatch killed
  obtain rfl : e = .orphaned := Option.some.inj (cause.symm.trans terminal)
  exact ⟨returned, killed, terminal, reads, writes, retired, installs⟩

end Race

end Tether.Chain
