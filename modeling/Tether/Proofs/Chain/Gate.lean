import Tether.Chain.Listener
import Tether.Proofs.Chain.Wired

/-!
# A listener and the chains it opened

The runs that the law of admissions is about. Any number of inbound links come to one listener, each
with any first message. The listener judges the message, tells the verdict, and attaches an admitted
link to its chain; these are steps of their own, which the admissions of different links take in any
order. Between them anything may happen to the chains: their links are stitched, pumped, written to,
cut and replaced, their readers read, and they are killed, step by step. A dead chain is taken out of
the register at any time after its death.
-/

namespace Tether.Chain

/-- How far the admission of an inbound link has come. -/
inductive Outcome where
  /-- Its first message is to be judged. -/
  | hearing
  /-- The verdict is to be told. -/
  | answering (verdict : Verdict)
  /-- It was told that it is admitted, and is to be attached to its chain. -/
  | admitted (chain : ChainId) (seq : Nat)
  | attached (chain : ChainId) (link : LinkId)
  /-- It was turned away by the verdict or by its chain. -/
  | refused
  /-- It was admitted and could not be told so. -/
  | lost
  deriving DecidableEq, Repr

/-- An inbound link. -/
structure Inbound where
  /-- The first message of the peer. -/
  message : Bytes
  outcome : Outcome := .hearing
  deriving DecidableEq, Repr

/-- A listener, the inbound links it has taken, and every chain it has opened. -/
structure Gate where
  /-- How many deliveries the queue of a chain holds. -/
  depth : Nat
  registry : Registry := []
  chains : List Wired := []
  inbound : List Inbound := []
  /-- The attempts that were admitted, with their chains, in the order of the verdicts. -/
  admissions : List (ChainId × Nat) := []

namespace Gate

/-- Whether a chain was killed. -/
def dead (g : Gate) (c : ChainId) : Bool :=
  (g.chains[c]?.map (·.chain.killed)).getD true

/-- The numbers of the attempts that were admitted to a chain, in order. -/
def admitted (g : Gate) (c : ChainId) : List Nat :=
  (g.admissions.filter (·.1 = c)).map (·.2)

def outcome? (g : Gate) (i : Nat) : Option Outcome :=
  g.inbound[i]?.map (·.outcome)

def setOutcome (g : Gate) (i : Nat) (outcome : Outcome) : Gate :=
  { g with inbound := g.inbound.modify i fun x => { x with outcome } }

/-! ## Steps of an admission -/

/-- The first message of a link is judged. The first attempt for an unknown name opens a chain. -/
def judge (g : Gate) (i : Nat) : Gate :=
  match g.inbound[i]? with
  | some ⟨message, .hearing⟩ =>
    let (registry, verdict) := g.registry.judgeMessage g.dead g.chains.length message
    let g := { g.setOutcome i (.answering verdict) with registry }
    match verdict, Dial.decode? message with
    | .opens c seq, some d =>
      { g with
        chains := g.chains ++ [.start .far d.id g.depth]
        admissions := g.admissions ++ [(c, seq)] }
    | .joins c seq, _ => { g with admissions := g.admissions ++ [(c, seq)] }
    | _, _ => g
  | _ => g

/-- The verdict on a link is told, or cannot be told. -/
def answer (g : Gate) (i : Nat) (told : Bool) : Gate :=
  match g.outcome? i with
  | some (.answering (.opens c seq)) | some (.answering (.joins c seq)) =>
    g.setOutcome i (if told then .admitted c seq else .lost)
  | some (.answering (.refused _)) => g.setOutcome i .refused
  | _ => g

/-- An admitted link is attached to its chain, unless the chain refuses it. `pipe` is what is under
the link by then. -/
def install (g : Gate) (i : Nat) (pipe : Link.Pipe) : Gate :=
  match g.outcome? i with
  | some (.admitted c seq) =>
    match g.chains[c]? with
    | none => g
    | some w =>
      match (w.chain.attach seq ⟨i, .far⟩).2 with
      | none => g.setOutcome i .refused
      | some k =>
        { g.setOutcome i (.attached c k) with
          chains := g.chains.set c (w.attach seq ⟨i, .far⟩ pipe) }
  | _ => g

/-! ## Runs -/

inductive Event where
  | arrive (message : Bytes)
  | judge (link : Nat)
  | answer (link : Nat) (told : Bool)
  | install (link : Nat) (pipe : Link.Pipe)
  /-- Something happens on a chain. Only admissions attach links. -/
  | within (chain : ChainId) (act : Wired.Act)
  | unregister (chain : ChainId)

/-- One event of a run. -/
def step (g : Gate) : Event → Gate
  | .arrive message => { g with inbound := g.inbound ++ [{ message }] }
  | .judge i => g.judge i
  | .answer i told => g.answer i told
  | .install i pipe => g.install i pipe
  | .within c act =>
    match act with
    | .attach _ _ _ => g
    | act => { g with chains := g.chains.modify c (·.step act) }
  | .unregister c => if g.dead c then { g with registry := g.registry.unregister c } else g

/-- A listener before any link. -/
def start (depth : Nat) : Gate :=
  { depth }

/-- The listener and its chains after a run. -/
def run (g : Gate) (events : List Event) : Gate :=
  events.foldl step g

/-- What one event keeps holds after every run. -/
theorem run_induction {P : Gate → Prop} {g : Gate} (start : P g)
    (step : ∀ g event, P g → P (g.step event)) (events : List Event) : P (g.run events) :=
  List.foldlRecOn events Gate.step start fun g held event _ => step g event held

end Gate

end Tether.Chain
