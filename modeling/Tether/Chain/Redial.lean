import Tether.Chain.Endpoint

/-!
# The dialing side

The dialer of a chain keeps a link under it until the chain dies. Each handshake that reached the
wire uses up an attempt number; a dial that never connected uses up none. Failures are repeated
after a pause. Refusals are final, with one exception: before the dialer was ever admitted, an
answer that the chain is closed means that its first attempt never arrived, and the numbering starts
over.

Attempts have numbers of 64 bits and failures are counted in 32. Both wrap around here; a build that
checks its sums ends the dialer with a panic instead.
-/

namespace Tether.Chain

/-- How an attempt to get a link ended. -/
inductive Attempt where
  /-- The peer admitted the link. -/
  | admitted (link : Link.End)
  /-- No connection was made. The attempt number was not used. -/
  | unreached
  /-- The handshake was sent and did not complete. -/
  | failed
  /-- The attempt must not be repeated. -/
  | fatal (e : Error)
  deriving DecidableEq, Repr

namespace Attempt

/-- How an attempt ends whose dial failed. -/
def ofDialError : Link.Error → Attempt
  | .gone addr => fatal (.gone addr)
  | _ => unreached

/-- The bytes of a message as a list of numbers. -/
def listing (bytes : Bytes) : String :=
  "[" ++ String.intercalate ", " (bytes.map fun b => toString b.toNat) ++ "]"

/-- How an attempt ends that was answered. -/
def ofAnswer (link : Link.End) (answer : Bytes) : Attempt :=
  match Welcome.decode? answer with
  | some .ok => admitted link
  | some refusal => fatal (.rejected refusal)
  | none => fatal (.protocol s!"bad welcome {listing answer}")

end Attempt

/-- What the dialer does after an attempt. -/
inductive Next where
  /-- Attach the link under the attempt's number. -/
  | attach (seq : UInt64) (link : Link.End)
  /-- Try again after the pause that so many failures in a row call for. -/
  | retry (failures : UInt32)
  /-- End the chain. -/
  | giveUp (e : Error)
  deriving DecidableEq, Repr

/-- What the dialer of a chain remembers. -/
structure Redial where
  /-- The last attempt number used. -/
  seq : UInt64 := 0
  /-- Whether the peer ever admitted a link. -/
  admitted : Bool := false
  /-- How many attempts failed since the last link, or `none` before the first attempt. -/
  failures : Option UInt32 := none
  deriving DecidableEq, Repr

namespace Redial

/-- The number of the next attempt. -/
def attemptSeq (r : Redial) : UInt64 :=
  r.seq + 1

theorem toNat_attemptSeq {r : Redial} (fits : r.seq.toNat + 1 < UInt64.size) :
    r.attemptSeq.toNat = r.seq.toNat + 1 := by
  rw [attemptSeq, UInt64.toNat_add, UInt64.toNat_one, Nat.mod_eq_of_lt fits]

/-- The failures in a row after one more. -/
def moreFailures (r : Redial) : UInt32 :=
  match r.failures with
  | none => 1
  | some n => n + 1

/-- Counts a failure and pauses. -/
def retrying (r : Redial) : Redial × Next :=
  ({ r with failures := some r.moreFailures }, .retry r.moreFailures)

/-- Decides what follows an attempt. -/
def conclude (r : Redial) : Attempt → Redial × Next
  | .admitted link =>
    ({ seq := r.attemptSeq, admitted := true, failures := some 0 }, .attach r.attemptSeq link)
  | .unreached => r.retrying
  | .failed => { r with seq := r.attemptSeq }.retrying
  | .fatal e =>
    if e = .rejected .closedChain ∧ !r.admitted then { r with seq := 0 }.retrying
    else (r, .giveUp e)

end Redial

end Tether.Chain
