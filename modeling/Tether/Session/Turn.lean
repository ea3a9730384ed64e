/-!
# Turns

A right that one party has at a time. Those who wait for it get it first come, first served, and
anyone can give up the turn or the place in line.
-/

namespace Tether.Session

/-- The right to send: who has it, and who waits for it, each by a ticket. -/
structure Turn where
  holder : Option Nat := none
  waiting : List Nat := []
  deriving DecidableEq, Repr

namespace Turn

/-- Gets in line. -/
def enqueue (t : Turn) (ticket : Nat) : Turn :=
  { t with waiting := t.waiting ++ [ticket] }

/-- Takes the turn, if it is free and the ticket is the first in line. -/
def acquire? (t : Turn) (ticket : Nat) : Option Turn :=
  match t.holder, t.waiting with
  | none, first :: rest => if first = ticket then some ⟨some ticket, rest⟩ else none
  | _, _ => none

/-- Gives up the turn, or the place in line. -/
def leave (t : Turn) (ticket : Nat) : Turn :=
  { holder := if t.holder = some ticket then none else t.holder
    waiting := t.waiting.filter (· ≠ ticket) }

end Turn

end Tether.Session
