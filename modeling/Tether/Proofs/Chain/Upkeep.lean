import Tether.Chain.Redial
import Tether.Config
import Tether.Proofs.Chain.Redialing
import Tether.Proofs.Chain.Wired

/-!
# A dialer and its chain

The runs that the law of the dialer's persistence is about. The dialer of one chain makes an attempt
at a time. A dial finds no one, or the dial is sent and comes to nothing, or it is answered by any
message. What the dialer concludes from it is done at the chain: an admitted link is attached and its
stitch is queued, and a reason to end the chain is named before the latch is raised. The dialer also
stops when it sees that the chain is dead, which it may do late: an attempt that is under way may
still come to its end.

Before each attempt but the first, the dialer works out how long to pause, and pauses. It crashes,
and leaves its chain to itself, where the pause is no span of time. A build that checks its sums also
crashes it where the numbers of the attempts or the count of its failures come round to zero.

Between these steps anything may happen at the chain that others do: chunks are moved, links fail,
the user reads, writes, and kills the chain or lets it go. Only the dialer attaches links and queues
their stitches, the user writes only with the writers that it was given, and whoever raises the latch
has named a reason.
-/

namespace Tether.Chain

namespace Wired

/-- Whether the user was given the writer of a link. -/
def hasWriter (w : Wired) (k : LinkId) : Bool :=
  w.got.any fun
    | .stitch _ writer => writer == k
    | .chunk _ => false

/-- Whether others than the dialer may do this at the end. -/
def allows (w : Wired) : Act → Bool
  | .attach _ _ _ | .stitch _ => false
  | .write k _ _ => w.hasWriter k
  | .raise => w.chain.terminal.isSome
  | _ => true

end Wired

/-- How far the dialer of a chain has come. -/
inductive Upkeep.Stage where
  /-- It has no link, and works out how long to pause. -/
  | resting
  | pausing
  | dialing
  /-- It has sent its dial over a link, and waits for the answer. -/
  | greeting (link : Link.End)
  /-- It has attached a link, whose stitch is to be queued. -/
  | stitching (link : LinkId)
  | linked (link : LinkId)
  /-- It ends its chain, and has named why. -/
  | dying
  /-- It ends its chain, and has raised the latch. -/
  | parting
  | stopped
  /-- It ended with a panic. -/
  | crashed
  deriving DecidableEq, Repr

/-- A dialer and the end of the chain that it keeps a link under. -/
structure Upkeep where
  config : Config
  /-- Whether the build checks its sums. -/
  checks : Bool
  wired : Wired
  memory : Redial := {}
  /-- How often the numbering was started over. -/
  epoch : Nat := 0
  stage : Upkeep.Stage := .dialing
  /-- The attempts whose dials were handed to a link, in order. -/
  sent : List Number := []

namespace Upkeep

def chain (u : Upkeep) : Endpoint :=
  u.wired.chain

/-! ## The dialer -/

/-- How often the numbering was started over, after an attempt that is to be repeated. -/
def epochAfter (u : Upkeep) : Attempt → Nat
  | .fatal _ => u.epoch + 1
  | .admitted _ | .unreached | .failed => u.epoch

/-- The dialer draws its conclusion from an attempt. The pipe is that of an admitted link. -/
def conclude (u : Upkeep) (a : Attempt) (pipe : Link.Pipe) : Upkeep :=
  match u.memory.conclude a with
  | (memory, .attach seq link) =>
    let stage :=
      match (u.chain.attach seq.toNat link).2 with
      | some k => .stitching k
      | none => .stopped
    { u with wired := u.wired.step (.attach seq.toNat link pipe), memory, stage }
  | (memory, .retry failures) =>
    if u.checks ∧ failures = 0 then { u with stage := .crashed }
    else { u with memory, epoch := u.epochAfter a, stage := .resting }
  | (_, .giveUp e) => { u with wired := u.wired.step (.nameReason (some e)), stage := .dying }

/-- The dialer works out how long to pause; `draw` chooses what chance adds. -/
def pause (u : Upkeep) (draw : Nat) : Upkeep :=
  match u.stage with
  | .resting =>
    match u.config.redialPause? (u.memory.failures.getD 0) draw with
    | some _ => { u with stage := .pausing }
    | none => { u with stage := .crashed }
  | _ => u

/-- The pause is over, and the dialer takes the next number. -/
def resume (u : Upkeep) : Upkeep :=
  match u.stage with
  | .pausing =>
    if u.checks ∧ u.memory.attemptSeq = 0 then { u with stage := .crashed }
    else { u with stage := .dialing }
  | _ => u

/-- A dial makes no link. -/
def miss (u : Upkeep) (e : Link.Error) : Upkeep :=
  match u.stage with
  | .dialing => u.conclude (.ofDialError e) {}
  | _ => u

/-- A dial makes a link, over which the dialer sends. -/
def dial (u : Upkeep) (link : Link.End) : Upkeep :=
  match u.stage with
  | .dialing =>
    { u with stage := .greeting link, sent := u.sent ++ [⟨u.epoch, u.memory.attemptSeq.toNat⟩] }
  | _ => u

/-- The dial cannot be sent, or its link ends before the answer, or the time for it is over. -/
def fail (u : Upkeep) : Upkeep :=
  match u.stage with
  | .greeting _ => u.conclude .failed {}
  | _ => u

/-- The dial is answered. What the peer has sent since waits on the pipe. -/
def answer (u : Upkeep) (message : Bytes) (pipe : Link.Pipe) : Upkeep :=
  match u.stage with
  | .greeting link => u.conclude (.ofAnswer link message) pipe
  | _ => u

/-- The stitch of the link is queued, or the link is given up. -/
def stitch (u : Upkeep) : Upkeep :=
  match u.stage with
  | .stitching k =>
    match u.chain.stitch? k with
    | none => u
    | some chain =>
      { u with
        wired := u.wired.step (.stitch k)
        stage := if chain.stage k = .refused then .stopped else .linked k }
  | _ => u

/-- The dialer learns that its link was retired. -/
def lose (u : Upkeep) : Upkeep :=
  match u.stage with
  | .linked k => if u.chain.retired k then { u with stage := .resting } else u
  | _ => u

/-- The dialer learns that its chain is dead. -/
def halt (u : Upkeep) : Upkeep :=
  match u.stage with
  | .pausing | .dialing | .greeting _ | .linked _ =>
    if u.chain.killed then { u with stage := .stopped } else u
  | _ => u

/-- The next step of ending the chain. -/
def kill (u : Upkeep) : Upkeep :=
  match u.stage with
  | .dying => { u with wired := u.wired.step .raise, stage := .parting }
  | .parting => { u with wired := u.wired.step .retireCurrent, stage := .stopped }
  | _ => u

/-! ## Runs -/

inductive Event where
  | pause (draw : Nat)
  | resume
  | miss (e : Link.Error)
  | dial (link : Link.End)
  | fail
  | answer (message : Bytes) (pipe : Link.Pipe)
  | stitch
  | lose
  | halt
  | kill
  /-- Others do something at the chain. -/
  | elsewhere (act : Wired.Act)

/-- One event of a run. An event that cannot happen changes nothing. -/
def step (u : Upkeep) : Event → Upkeep
  | .pause draw => u.pause draw
  | .resume => u.resume
  | .miss e => u.miss e
  | .dial link => u.dial link
  | .fail => u.fail
  | .answer message pipe => u.answer message pipe
  | .stitch => u.stitch
  | .lose => u.lose
  | .halt => u.halt
  | .kill => u.kill
  | .elsewhere act => if u.wired.allows act then { u with wired := u.wired.step act } else u

/-- The dialer of a new chain. -/
def start (config : Config) (checks : Bool) (side : Link.Side) (id : Id) : Upkeep :=
  { config, checks, wired := .start side id config.eventQueue }

/-- The dialer and its chain after a run. -/
def run (u : Upkeep) (events : List Event) : Upkeep :=
  events.foldl step u

@[simp]
theorem run_append (u : Upkeep) (events later : List Event) :
    u.run (events ++ later) = (u.run events).run later :=
  List.foldl_append

/-- What one event keeps holds after every run. -/
theorem run_induction {P : Upkeep → Prop} {u : Upkeep} (start : P u)
    (step : ∀ u event, P u → P (u.step event)) (events : List Event) : P (u.run events) :=
  List.foldlRecOn events Upkeep.step start fun u held event _ => step u event held

/-! ## Sums that do not fit -/

/-- Whether one more failure is more than a build that checks its sums can count. -/
def FailsTooOften (u : Upkeep) : Prop :=
  u.checks = true ∧ ∃ n, u.memory.failures = some n ∧ n.toNat + 1 = UInt32.size

/-- Whether an event has the dialer compute a sum that does not fit: a pause, or, in a build that
checks for it, the next number or the next count of failures. -/
def Overflows (u : Upkeep) : Event → Prop
  | .pause draw => u.stage = .resting ∧ u.memory.failures.getD 0 ≠ 0 ∧
      u.config.redialJitter.nanos ≠ 0 ∧ Duration.bound ≤
        u.config.redialDelay.nanos + draw % (u.config.jitterMillis + 1) * 1000000
  | .resume => u.stage = .pausing ∧ u.checks = true ∧ u.memory.seq.toNat + 1 = UInt64.size
  | .miss e => u.stage = .dialing ∧ Attempt.ofDialError e = .unreached ∧ u.FailsTooOften
  | .fail => (∃ link, u.stage = .greeting link) ∧ u.FailsTooOften
  | .answer message _ => (∃ link, u.stage = .greeting link ∧
      Attempt.ofAnswer link message = .fatal (.rejected .closedChain)) ∧
      u.memory.admitted = false ∧ u.FailsTooOften
  | _ => False

/-- Whether the numbers of the attempts cannot have come round to zero. -/
def Whole (u : Upkeep) : Prop :=
  u.checks = true ∨ u.sent.length < UInt64.size

end Upkeep

end Tether.Chain
