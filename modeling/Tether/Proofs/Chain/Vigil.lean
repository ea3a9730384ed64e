import Tether.Chain.Watch
import Tether.Proofs.Chain.Wired

/-!
# A watcher and its chain

The runs that the law of orphans is about. An accepted chain is watched while links are installed under
any numbers, which the chain may refuse, and are retired, and while the chain may be killed. An
installation attaches its link and then announces it, and each look of the watcher is a step of its own,
so that anything may happen between them. Of the branches that are ready, the watcher takes any.

Time passes at any moment, whatever is ready by then. So the watcher may learn late that its time is over,
and late that a link has come; and it may be late to end the chain once it has found it an orphan.
-/

namespace Tether.Chain

/-- Whether others than the watcher may do this at the chain. Links are installed by acts of their
own, and only the watcher says that the chain is an orphan. -/
def Wired.Act.foreign : Wired.Act → Bool
  | .attach _ _ _ => false
  | .nameReason reason => reason ≠ some .orphaned
  | _ => true

/-- How far the watcher of a chain has come. -/
inductive Vigil.Stage where
  | watching (w : Watch)
  /-- It has found the chain an orphan, when it had noted that many announcements, and is to name the
  reason. -/
  | condemning (announced : Nat)
  /-- It ends the chain, and has named why. -/
  | dying
  /-- It ends the chain, and has raised the latch. -/
  | parting
  | finished
  deriving DecidableEq, Repr

/-- An accepted chain is given up as an orphan. -/
structure Vigil.Verdict where
  /-- When the reason was named. -/
  moment : Nat
  /-- How many announcements were noted before the look for a live link that came last. -/
  noted : Nat
  deriving DecidableEq, Repr

/-- A watcher and the end of the chain that it watches. -/
structure Vigil where
  wired : Wired
  /-- How long the chain may be without a link. -/
  timeout : Nat
  clock : Nat := 0
  stage : Vigil.Stage := .watching .looking
  /-- The moments at which links were attached, in order. -/
  installed : List Nat := []
  verdict : Option Vigil.Verdict := none

namespace Vigil

def chain (v : Vigil) : Endpoint :=
  v.wired.chain

/-! ## Installations -/

/-- A link is attached, unless the chain refuses it. -/
def install (v : Vigil) (seq : Nat) (link : Link.End) (pipe : Link.Pipe) : Vigil :=
  match v.chain.attach seq link with
  | (_, none) => v
  | (chain, some _) =>
    { v with
      wired := { v.wired.attach seq link pipe with chain }
      installed := v.installed ++ [v.clock] }

/-- A link that was attached is announced. -/
def announce (v : Vigil) : Vigil :=
  if v.chain.announced < v.installed.length then
    { v with wired := { v.wired with chain := v.chain.announce } }
  else v

/-! ## The watcher -/

/-- The announcements that a watcher had noted before it waited for another one. -/
def noted : Watch → Nat
  | .waiting announced _ | .noted announced => announced
  | .looking | .linked _ | .noting => 0

/-- The watcher takes a branch, if it is ready. -/
def watch (v : Vigil) (branch : Watch.Branch) : Vigil :=
  match v.stage with
  | .watching w =>
    match w.take? v.chain v.clock v.timeout branch with
    | none => v
    | some (.goOn next) => { v with stage := .watching next }
    | some .finished => { v with stage := .finished }
    | some .orphaned => { v with stage := .condemning (noted w) }
  | _ => v

/-- The next step of ending the chain. -/
def kill (v : Vigil) : Vigil :=
  match v.stage with
  | .condemning announced =>
    { v with
      wired := v.wired.step (.nameReason (some .orphaned))
      stage := .dying
      verdict := some ⟨v.clock, announced⟩ }
  | .dying => { v with wired := v.wired.step .raise, stage := .parting }
  | .parting => { v with wired := v.wired.step .retireCurrent, stage := .finished }
  | _ => v

/-! ## Runs -/

inductive Event where
  | install (seq : Nat) (link : Link.End) (pipe : Link.Pipe)
  | announce
  | watch (branch : Watch.Branch)
  | kill
  /-- Others do something at the chain. -/
  | elsewhere (act : Wired.Act)
  | tick

/-- One event of a run. An event that cannot happen changes nothing. -/
def step (v : Vigil) : Event → Vigil
  | .install seq link pipe => v.install seq link pipe
  | .announce => v.announce
  | .watch branch => v.watch branch
  | .kill => v.kill
  | .elsewhere act => if act.foreign then { v with wired := v.wired.step act } else v
  | .tick => { v with clock := v.clock + 1 }

/-- The watcher of a new chain. -/
def start (side : Link.Side) (id : Id) (depth timeout : Nat) : Vigil :=
  { wired := .start side id depth, timeout }

/-- The watcher and its chain after a run. -/
def run (v : Vigil) (events : List Event) : Vigil :=
  events.foldl step v

/-- What one event keeps holds after every run. -/
theorem run_induction {P : Vigil → Prop} {v : Vigil} (start : P v)
    (step : ∀ v event, P v → P (v.step event)) (events : List Event) : P (v.run events) :=
  List.foldlRecOn events Vigil.step start fun v held event _ => step v event held

end Vigil

end Tether.Chain
