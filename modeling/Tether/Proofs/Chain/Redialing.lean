import Tether.Chain.Redial
import Tether.Chain.Registry

/-!
# One dialer and one listener over links that fail

The runs that the law of redials is about. The dialer of one chain makes a link at a time, sends its
dial over it, and does with the answer what its memory tells it to. It may give a link up while the
dial still waits to be read. The listener hears, judges and answers the links in any order, each at
any time after it was made. Dials may fail, and links may be cut at any moment, but no one is gone
for good, and no chain is killed from elsewhere. What links carry once they are admitted is left
out, since neither end reads it as a part of a handshake.

For the law, an attempt is named by its number and by how often the numbering was started over
before it.
-/

namespace Tether.Chain

open Link (Side)

structure Number where
  /-- How often the numbering was started over before. -/
  epoch : Nat
  seq : Nat
  deriving DecidableEq, Repr

/-- Attempts in the order in which they are made. -/
def Number.Before (a b : Number) : Prop :=
  a.epoch < b.epoch ∨ a.epoch = b.epoch ∧ a.seq < b.seq

/-- How far the listener has come with a link. -/
inductive Hearing where
  | awaiting
  | answering (verdict : Verdict)
  | finished
  deriving DecidableEq, Repr

structure Line where
  /-- The attempt whose dial it is to carry. -/
  number : Number
  pipe : Link.Pipe := {}
  hearing : Hearing := .awaiting
  deriving DecidableEq, Repr

/-- An end lets go of a link. -/
def Line.letGo (l : Line) (side : Side) : Line :=
  { l with pipe := l.pipe.dropEnd side }

/-- How far the dialer has come with an attempt. -/
inductive Redialing.Stage where
  /-- It has none, and pauses or dials. -/
  | between
  /-- It has sent its dial over a link, and waits for the answer. -/
  | greeting (line : Nat)
  /-- It has a link. -/
  | linked (line : Nat)
  deriving DecidableEq, Repr

/-- A dialer and a listener, with all links made so far. -/
structure Redialing where
  id : Id
  memory : Redial := {}
  /-- How often the numbering was started over. -/
  epoch : Nat := 0
  stage : Redialing.Stage := .between
  /-- Why the dialer gave its chain up, if it has. -/
  gaveUp : Option Error := none
  lines : List Line := []
  registry : Registry := []
  /-- The attempts that were judged, latest first. -/
  judged : List (Number × Verdict) := []
  /-- The attempts whose answers the dialer has read. -/
  learned : List Number := []

namespace Redialing

def setLine (d : Redialing) (i : Nat) (l : Line) : Redialing :=
  { d with lines := d.lines.set i l }

/-! ## The dialer -/

/-- The dialer draws its conclusion from an attempt. -/
def conclude (d : Redialing) (a : Attempt) : Redialing :=
  match d.memory.conclude a with
  | (memory, .attach _ link) => { d with memory, stage := .linked link.pipe }
  | (memory, .retry _) =>
    let epoch :=
      match a with
      | .fatal _ => d.epoch + 1
      | .admitted _ | .unreached | .failed => d.epoch
    { d with memory, epoch, stage := .between }
  | (_, .giveUp e) => { d with gaveUp := some e }

/-- A dial makes no link. -/
def miss (d : Redialing) (e : Link.Error) : Redialing :=
  match d.stage, Attempt.ofDialError e with
  | .between, .unreached => d.conclude .unreached
  | _, _ => d

/-- A dial makes a link, and the dialer sends over it. -/
def dial (d : Redialing) (fault : Bool) : Redialing :=
  match d.stage with
  | .between =>
    let seq := d.memory.attemptSeq.toNat
    let r := Link.Pipe.send {} .near fault (Dial.encode ⟨d.id, seq⟩)
    let made (l : Line) : Redialing :=
      { d with lines := d.lines ++ [l], stage := .greeting d.lines.length }
    let l : Line := { number := ⟨d.epoch, seq⟩, pipe := r.1 }
    match r.2 with
    | .ok () => made l
    | .error _ => (made (l.letGo .near)).conclude .failed
  | _ => d

/-- The dialer takes the answer, or learns that none will come. -/
def learn (d : Redialing) : Redialing :=
  match d.stage with
  | .greeting i =>
    match d.lines[i]? with
    | none => d
    | some l =>
      match l.pipe.recv? .near with
      | none => d
      | some (pipe, .ok (some answer)) =>
        let d := { d with learned := l.number :: d.learned }
        match Attempt.ofAnswer ⟨i, .near⟩ answer with
        | .admitted link => (d.setLine i { l with pipe }).conclude (.admitted link)
        | other => (d.setLine i ({ l with pipe }.letGo .near)).conclude other
      | some (pipe, _) => (d.setLine i ({ l with pipe }.letGo .near)).conclude .failed
  | _ => d

/-- The dialer waits no longer for the answer. -/
def expire (d : Redialing) : Redialing :=
  match d.stage with
  | .greeting i =>
    match d.lines[i]? with
    | none => d
    | some l => (d.setLine i (l.letGo .near)).conclude .failed
  | _ => d

def lose (d : Redialing) : Redialing :=
  match d.stage with
  | .linked i =>
    match d.lines[i]? with
    | none => d
    | some l => { d.setLine i (l.letGo .near) with stage := .between }
  | _ => d

/-! ## The listener -/

/-- The listener takes the first message of a link and judges it, or learns that none will come.
`fresh` is the handle that a new chain will get. -/
def hear (d : Redialing) (i : Nat) (fresh : ChainId) : Redialing :=
  match d.lines[i]? with
  | none => d
  | some l =>
    match l.hearing, l.pipe.recv? .far with
    | .awaiting, some (pipe, .ok (some message)) =>
      let r := d.registry.judgeMessage (fun _ => false) fresh message
      { d.setLine i { l with pipe, hearing := .answering r.2 } with
        registry := r.1
        judged := (l.number, r.2) :: d.judged }
    | .awaiting, some (pipe, _) => d.setLine i ({ l with pipe, hearing := .finished }.letGo .far)
    | _, _ => d

/-- The listener waits no longer for the first message of a link. -/
def tire (d : Redialing) (i : Nat) : Redialing :=
  match d.lines[i]? with
  | none => d
  | some l =>
    match l.hearing with
    | .awaiting => d.setLine i ({ l with hearing := .finished }.letGo .far)
    | _ => d

/-- The listener tells its verdict on a link, and keeps the link if it is admitted and can be told
so. -/
def answer (d : Redialing) (i : Nat) (fault : Bool) : Redialing :=
  match d.lines[i]? with
  | none => d
  | some l =>
    match l.hearing with
    | .answering verdict =>
      let r := l.pipe.send .far fault verdict.answer.encode
      let l := { l with pipe := r.1, hearing := .finished }
      match r.2, verdict with
      | .ok (), .opens _ _ | .ok (), .joins _ _ => d.setLine i l
      | _, _ => d.setLine i (l.letGo .far)
    | _ => d

/-- The listener, or the chain that got the link, lets go of a link that was answered. -/
def discard (d : Redialing) (i : Nat) : Redialing :=
  match d.lines[i]? with
  | none => d
  | some l =>
    match l.hearing with
    | .finished => d.setLine i (l.letGo .far)
    | _ => d

def cut (d : Redialing) (i : Nat) : Redialing :=
  match d.lines[i]? with
  | none => d
  | some l => d.setLine i { l with pipe := { l.pipe with cut := true } }

/-! ## Runs -/

inductive Event where
  | miss (e : Link.Error)
  /-- `fault` says whether the medium fails as the dial is sent. -/
  | dial (fault : Bool)
  | learn
  | expire
  | lose
  | hear (line : Nat) (fresh : ChainId)
  | tire (line : Nat)
  /-- `fault` says whether the medium fails as the answer is sent. -/
  | answer (line : Nat) (fault : Bool)
  | discard (line : Nat)
  | cut (line : Nat)

/-- One event of a run. A dialer that gave up does nothing. -/
def step (d : Redialing) : Event → Redialing
  | .miss e => if d.gaveUp.isSome then d else d.miss e
  | .dial fault => if d.gaveUp.isSome then d else d.dial fault
  | .learn => if d.gaveUp.isSome then d else d.learn
  | .expire => if d.gaveUp.isSome then d else d.expire
  | .lose => if d.gaveUp.isSome then d else d.lose
  | .hear i fresh => d.hear i fresh
  | .tire i => d.tire i
  | .answer i fault => d.answer i fault
  | .discard i => d.discard i
  | .cut i => d.cut i

def start (id : Id) : Redialing :=
  { id }

/-- The dialer and the listener after a run. -/
def run (d : Redialing) (events : List Event) : Redialing :=
  events.foldl step d

/-- What one event keeps holds after every run. -/
theorem run_induction {P : Redialing → Prop} {d : Redialing} (start : P d)
    (step : ∀ d event, P d → P (d.step event)) (events : List Event) : P (d.run events) :=
  List.foldlRecOn events Redialing.step start fun d held event _ => step d event held

end Redialing

end Tether.Chain
