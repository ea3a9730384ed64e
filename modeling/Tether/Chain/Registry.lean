import Tether.Chain.Endpoint

/-!
# The accepting side

A listener keeps a register of the chains it accepted, each with the highest attempt number it
admitted. An inbound link names its chain and its attempt. It opens a chain if it is the first
attempt for an unknown name; it joins a known chain if its number is higher than any before; all
else is refused. A chain that died stays in the register, refusing everything, until it is taken
out.
-/

namespace Tether.Chain

/-- A handle on a chain. -/
abbrev ChainId := Nat

/-- An accepted chain in the register. -/
structure Slot where
  id : Id
  chain : ChainId
  /-- The highest attempt number admitted. -/
  lastSeq : Nat
  deriving DecidableEq, Repr

/-- The accepted chains of a listener, at most one to a name. -/
abbrev Registry := List Slot

/-- What becomes of an inbound link. -/
inductive Verdict where
  /-- It is the first link of a new chain. -/
  | opens (chain : ChainId) (seq : Nat)
  /-- It is a further link of a known chain. -/
  | joins (chain : ChainId) (seq : Nat)
  | refused (answer : Welcome)
  deriving DecidableEq, Repr

/-- The answer that a verdict is told by. -/
def Verdict.answer : Verdict → Welcome
  | opens _ _ | joins _ _ => .ok
  | refused answer => answer

namespace Registry

/-- The slot of a name. -/
def slot? (r : Registry) (id : Id) : Option Slot :=
  r.find? (·.id = id)

/-- Judges an attempt. `dead` tells which chains were killed, and `fresh` is the handle that a new
chain will get. -/
def judge (r : Registry) (dead : ChainId → Bool) (fresh : ChainId) (d : Dial) :
    Registry × Verdict :=
  match r.slot? d.id with
  | some slot =>
    if dead slot.chain then (r, .refused .closedChain)
    else if d.seq ≤ slot.lastSeq then (r, .refused .duplicate)
    else
      (r.map fun s => if s.id = d.id then { s with lastSeq := d.seq } else s,
        .joins slot.chain d.seq)
  | none =>
    if d.seq = 1 then (⟨d.id, fresh, d.seq⟩ :: r, .opens fresh d.seq)
    else (r, .refused .closedChain)

/-- Judges the first message of an inbound link. -/
def judgeMessage (r : Registry) (dead : ChainId → Bool) (fresh : ChainId) (message : Bytes) :
    Registry × Verdict :=
  match Dial.decode? message with
  | none => (r, .refused .malformed)
  | some d => if d.seq = 0 then (r, .refused .zeroSeq) else r.judge dead fresh d

/-- Takes a chain out. A later chain of the same name stays. -/
def unregister (r : Registry) (chain : ChainId) : Registry :=
  r.filter (·.chain ≠ chain)

end Registry

end Tether.Chain
