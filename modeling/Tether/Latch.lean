import Tether.Desk

/-!
# Latches

A one-way flag: once fired it stays fired, and whoever waits for it goes on.
-/

namespace Tether

/-- A flag that can only be raised. -/
structure Latch where
  fired : Bool := false
  deriving DecidableEq, Repr

namespace Latch

/-- Raises the flag, telling whether this call was the one that did. -/
def fire (l : Latch) : Latch × Bool :=
  (⟨true⟩, !l.fired)

/-- A call on a latch. -/
inductive Call where
  | fire
  | wait
  deriving DecidableEq, Repr

/-- What a call answers: whether it raised the flag, or that the flag is raised. -/
inductive Answer where
  | raised (first : Bool)
  | released
  deriving DecidableEq, Repr

/-- Tries a waiting call, which goes on once the flag is raised. -/
def attempt (l : Latch) (_ : Unit) : Option (Latch × Answer) :=
  if l.fired then some (l, .released) else none

/-- What becomes of a call when it is made. -/
def arrive (l : Latch) : Call → Desk.Arrival Latch Unit Answer
  | .fire => .answers l.fire.1 (.raised l.fire.2)
  | .wait =>
    match l.attempt () with
    | some (l, answer) => .answers l answer
    | none => .waits ()

/-- Makes calls in turn on a new latch. -/
def run (calls : List Call) : List (Desk.Reply Latch Answer) :=
  Desk.run attempt arrive { state := {} } calls

end Latch

end Tether
