import Tether.Duration

/-!
# Configuration

Every setting of the transport, with its default, and the check that refuses settings the transport
cannot run with.
-/

namespace Tether

/-- The smallest limit on frames: a handshake and the header of a chunk have to fit. -/
def Config.minFrameLength : Nat := 64

/-- The largest limit on frames: a length has to fit four bytes. -/
def Config.maxFrameLength : Nat := 4294967295

/-- The settings of one end of a connection. -/
structure Config where
  /-- How many unacknowledged chunks a connection holds before writers wait. -/
  bufferCapacity : Nat := 64
  /-- How many chunks are accepted between two acknowledgments. -/
  ackFrequency : Nat := 16
  /-- The pause before a lost link is dialed again. -/
  redialDelay : Duration := .ofMillis 500
  /-- The most that chance adds to the pause before a repeated redial. -/
  redialJitter : Duration := .ofMillis 500
  /-- How long a connection with nothing left to do still answers its peer. -/
  linger : Duration := .ofMillis 5000
  /-- The limit on each half of the exchange that opens a link. -/
  handshakeTimeout : Duration := .ofMillis 10000
  /-- How long an accepted chain waits for its dialer; without a limit it waits forever. -/
  orphanTimeout : Option Duration := some (.ofMillis 60000)
  /-- How many deliveries a chain queues for its reader. -/
  eventQueue : Nat := 16
  /-- The longest frame that a link carries. -/
  maxFrameLen : Nat := 16 * 1024 * 1024
  deriving DecidableEq, Repr

/-- A setting that the transport cannot run with. -/
structure InvalidConfig where
  field : String
  reason : String
  deriving DecidableEq, Repr

/-- The text of a refused setting. -/
def InvalidConfig.message (e : InvalidConfig) : String :=
  s!"Invalid config field {e.field}: {e.reason}"

namespace Config

/-- The first setting that the transport cannot run with, if any. -/
def invalid? (c : Config) : Option InvalidConfig :=
  if c.bufferCapacity = 0 then
    some ⟨"buffer_capacity", "must be at least 1"⟩
  else if c.ackFrequency = 0 then
    some ⟨"ack_frequency", "must be at least 1"⟩
  else if c.bufferCapacity < c.ackFrequency then
    some ⟨"ack_frequency",
      "must not exceed buffer_capacity, or a full buffer is never acknowledged"⟩
  else if c.eventQueue = 0 then
    some ⟨"event_queue", "must be at least 1"⟩
  else if c.maxFrameLen < minFrameLength then
    some ⟨"max_frame_len", "must be at least 64"⟩
  else if maxFrameLength < c.maxFrameLen then
    some ⟨"max_frame_len", "must fit a 4 byte length prefix"⟩
  else none

/-- The settings that are valid leave room for a handshake. -/
theorem roomy_of_valid {c : Config} (valid : c.invalid? = none) : minFrameLength ≤ c.maxFrameLen := by
  unfold invalid? at valid
  repeat' split at valid
  all_goals first | omega | cases valid

/-- The most whole milliseconds that chance adds to a pause, in 64 bits. -/
def jitterMillis (c : Config) : Nat :=
  min c.redialJitter.toMillis (UInt64.size - 1)

/-- What chance adds to a pause, chosen by `draw`. -/
def extraPause (c : Config) (draw : Nat) : Duration :=
  .ofMillis (.ofNat (draw % (c.jitterMillis + 1)))

/-- The pause before the redial that follows `attempt` failures in a row.

The first redial after a link was lost waits exactly the delay. Later ones add whole milliseconds up
to the jitter, chosen by `draw`. There is no answer where the sum is too long for a span: the program
ends with a panic there. -/
def redialPause? (c : Config) (attempt : UInt32) (draw : Nat) : Option Duration :=
  if attempt = 0 ∨ c.redialJitter.nanos = 0 then some c.redialDelay
  else c.redialDelay.add? (c.extraPause draw)

theorem nanos_extraPause (c : Config) (draw : Nat) :
    (c.extraPause draw).nanos = draw % (c.jitterMillis + 1) * 1000000 := by
  have small : draw % (c.jitterMillis + 1) < UInt64.size := by
    have below : draw % (c.jitterMillis + 1) < c.jitterMillis + 1 := Nat.mod_lt draw (Nat.succ_pos _)
    have most : c.jitterMillis ≤ UInt64.size - 1 := Nat.min_le_right _ _
    simp only [UInt64.size] at most ⊢
    omega
  simp only [extraPause, Duration.ofMillis, UInt64.toNat_ofNat_of_lt' small]

theorem redialPause?_eq_none_iff {c : Config} {attempt : UInt32} {draw : Nat} :
    c.redialPause? attempt draw = none ↔ attempt ≠ 0 ∧ c.redialJitter.nanos ≠ 0 ∧
      Duration.bound ≤ c.redialDelay.nanos + draw % (c.jitterMillis + 1) * 1000000 := by
  unfold redialPause?
  split
  · next short =>
    refine ⟨nofun, fun overflow => ?_⟩
    rcases short with first | still
    · exact absurd first overflow.1
    · exact absurd still overflow.2.1
  · next long =>
    rw [not_or] at long
    rw [Duration.add?_eq_none_iff, nanos_extraPause]
    exact ⟨fun overflow => ⟨long.1, long.2, overflow⟩, fun overflow => overflow.2.2⟩

end Config

end Tether
