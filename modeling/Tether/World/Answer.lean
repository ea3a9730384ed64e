import Tether.Session.Error
import Tether.Wire.Typed

/-!
# Answers of a run

What the steps of a scenario show: values, ends and errors, each error with the layer that gave it.
-/

namespace Tether.World

/-- An error of any layer. -/
inductive Failure where
  | link (e : Link.Error)
  | chain (e : Chain.Error)
  | stream (e : Stream.Error)
  | codec (e : Codec.Error)
  | session (e : Session.Error)

/-- What a stream carries for its user. -/
inductive Content where
  | chunks
  | values
  deriving DecidableEq, Repr

/-- The error of a stream as its user sees it. -/
def Content.failure : Content → Stream.Error → Failure
  | chunks, e => .stream e
  | values, e => .codec (.stream e)

/-- Whether dialers and listeners make bare chains or streams on them. -/
inductive Layer where
  | chain
  | stream
  deriving DecidableEq, Repr

/-- The error of a chain as the user of a layer sees it. -/
def Layer.failure : Layer → Chain.Error → Failure
  | chain, e => .chain e
  | stream, e => .stream (.chain e)

/-- What a step shows. -/
inductive Answer where
  | ok
  | text (s : String)
  | number (n : Nat)
  | flag (b : Bool)
  /-- A connection was made; it is named by its identifier. -/
  | made (id : String)
  | chunk (data : Bytes)
  | value (ty : Wire.Ty) (v : ty.Val)
  | stitch (seq : Nat)
  /-- The end of a stream. -/
  | finished
  /-- Everything that reads gave, and what the read gave that gave no chunk. -/
  | chunks (data : List Bytes) (last : Answer)
  | failed (e : Failure)
  /-- A series of writes failed at the given one. -/
  | failedAt (index : Nat) (e : Failure)
  /-- Nothing could go on without the clock moving. -/
  | pending
  | timeout
  | started
  | noObject
  | noTask

namespace Answer

/-- The answer to a call without a value. -/
def ofDone {ε : Type} (wrap : ε → Failure) : Except ε Unit → Answer
  | .ok () => ok
  | .error e => failed (wrap e)

/-- The answer to a read of chunks. -/
def ofChunk {ε : Type} (wrap : ε → Failure) : Except ε (Option Bytes) → Answer
  | .ok (some data) => chunk data
  | .ok none => finished
  | .error e => failed (wrap e)

/-- The answer to a read of values. -/
def ofValue {ε : Type} (wrap : ε → Failure) (ty : Wire.Ty) :
    Except ε (Option ty.Val) → Answer
  | .ok (some v) => value ty v
  | .ok none => finished
  | .error e => failed (wrap e)

end Answer

end Tether.World
