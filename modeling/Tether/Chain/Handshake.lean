import Tether.Chain.Id
import Tether.Wire.Varint

/-!
# The handshake of a link

Each new link opens with one message each way. The dialer names its chain and numbers its attempt;
the accepter answers with one byte, which admits the link or says why not.
-/

namespace Tether.Chain

/-- The answer to a dial. -/
inductive Welcome where
  | ok
  | malformed
  | zeroSeq
  | duplicate
  | closedChain
  deriving DecidableEq, Repr

namespace Welcome

/-- Every answer, in the order of its code. -/
def all : List Welcome :=
  [ok, malformed, zeroSeq, duplicate, closedChain]

/-- The byte of an answer. -/
def code : Welcome → UInt8
  | ok => 0
  | malformed => 1
  | zeroSeq => 2
  | duplicate => 3
  | closedChain => 4

/-- The answer that a byte stands for. -/
def ofCode? (b : UInt8) : Option Welcome :=
  all.find? fun w => w.code == b

/-- Different answers have different codes. -/
@[simp]
theorem ofCode?_code (w : Welcome) : ofCode? w.code = some w := by
  cases w <;> rfl

/-- The text of an answer. -/
def message : Welcome → String
  | ok => "ok"
  | malformed => "malformed dial"
  | zeroSeq => "zero attempt number"
  | duplicate => "duplicate or stale attempt"
  | closedChain => "chain closed"

/-- The message that carries an answer. -/
def encode (w : Welcome) : Bytes :=
  [w.code]

/-- Reads an answer, which is exactly one byte. -/
def decode? : Bytes → Option Welcome
  | [b] => ofCode? b
  | _ => none

@[simp]
theorem decode?_encode (w : Welcome) : decode? w.encode = some w :=
  ofCode?_code w

end Welcome

/-- The opening message of the dialer: its chain and the number of its attempt. -/
structure Dial where
  id : Id
  seq : Nat
  deriving DecidableEq, Repr

namespace Dial

/-- The message that carries a dial: two varints. -/
def encode (d : Dial) : Bytes :=
  Wire.Varint.encode d.id.val.toNat ++ Wire.Varint.encode d.seq

/-- Reads a dial, which is exactly two varints. -/
def decode? (bytes : Bytes) : Option Dial :=
  match Wire.Varint.decode bytes with
  | .error _ => none
  | .ok (id, n) =>
    match Wire.Varint.decode (bytes.drop n) with
    | .error _ => none
    | .ok (seq, m) => if n + m = bytes.length then some ⟨⟨UInt64.ofNat id⟩, seq⟩ else none

end Dial

end Tether.Chain
