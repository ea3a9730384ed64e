/-!
# Durations

Spans of time, counted in nanoseconds and mostly given in milliseconds. The seconds of a span are a
number of 64 bits, so there is a longest one, and two spans may have no sum.
-/

namespace Tether

/-- The first number of nanoseconds that no span can have. -/
def Duration.bound : Nat := UInt64.size * 1000000000

/-- A span of time. -/
structure Duration where
  nanos : Nat
  inside : nanos < Duration.bound
  deriving DecidableEq, Repr

namespace Duration

/-- A span given in milliseconds. -/
def ofMillis (n : UInt64) : Duration where
  nanos := n.toNat * 1000000
  inside := by
    have := n.toNat_lt
    simp only [bound, UInt64.size]
    omega

/-- A span given in microseconds. -/
def ofMicros (n : UInt64) : Duration where
  nanos := n.toNat * 1000
  inside := by
    have := n.toNat_lt
    simp only [bound, UInt64.size]
    omega

/-- The longest span. -/
def longest : Duration where
  nanos := bound - 1
  inside := by decide

/-- The whole milliseconds of a span. -/
def toMillis (d : Duration) : Nat :=
  d.nanos / 1000000

/-- The whole microseconds of a span. -/
def toMicros (d : Duration) : Nat :=
  d.nanos / 1000

/-- The two spans after each other, if that is a span. -/
def add? (d e : Duration) : Option Duration :=
  if inside : d.nanos + e.nanos < bound then some ⟨d.nanos + e.nanos, inside⟩ else none

theorem add?_eq_none_iff {d e : Duration} : d.add? e = none ↔ bound ≤ d.nanos + e.nanos := by
  unfold add?
  split <;> simp <;> omega

end Duration

end Tether
