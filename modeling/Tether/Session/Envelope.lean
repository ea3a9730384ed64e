import Tether.Session.Error
import Tether.Wire.Decoder
import Tether.Wire.Encoder

/-!
# Envelopes

Everything that a session sends is an envelope: a list of the connection's number and what is said
about it, which is a numbered payload or an abort with its reason.

* `Payload` holds a list of the payload's number and its bytes.
* `Abort` holds a variant named for the reason: `Closed`, `Gone` and `Off` hold a unit, `Protocol`
  holds its text.
-/

namespace Tether.Session

open Wire (Encode Decode)

/-- The number of a connection within its session. -/
structure ConnId where
  val : UInt64
  deriving DecidableEq, Repr

/-- The text of a connection's number. -/
def ConnId.text (id : ConnId) : String :=
  s!"conn-{id.val.toNat}"

/-- What an envelope says about its connection. -/
inductive Content where
  /-- A payload, numbered from zero within the connection. -/
  | payload (seq : UInt64) (data : Bytes)
  | abort (reason : Reason)
  deriving DecidableEq, Repr

/-- One message of a session. -/
structure Envelope where
  conn : ConnId
  content : Content
  deriving DecidableEq, Repr

/-- Writes a reason. -/
def Reason.pack : Reason → Encode Unit
  | .closed => bare "Closed"
  | .gone => bare "Gone"
  | .off => bare "Off"
  | .protocol detail => do
    Encode.variantBegin "Protocol"
    Encode.str detail
    Encode.variantEnd
where
  bare (name : String) : Encode Unit := do
    Encode.variantBegin name
    Encode.unit
    Encode.variantEnd

/-- Reads the content of a reason with the given name. -/
def Reason.unpackNamed (name : String) : Decode Reason :=
  match name with
  | "Closed" => do
    Decode.unit
    return .closed
  | "Gone" => do
    Decode.unit
    return .gone
  | "Off" => do
    Decode.unit
    return .off
  | "Protocol" => do
    let detail ← Decode.str
    return .protocol detail
  | other => throw (.unknownVariant other)

/-- Reads a reason. -/
def Reason.unpack : Decode Reason := do
  let (name, body) ← Decode.variant
  Decode.within body (unpackNamed name)

/-- Reads the next item of a list, which must be there and be one value. -/
def item {α : Type} (read : Decode α) : Decode α := do
  match ← Decode.nextItem with
  | none => throw .unexpectedEnd
  | some view => Decode.within view read

/-- Checks that a list has no further item. -/
def endOfList : Decode Unit := do
  match ← Decode.nextItem with
  | none => return ()
  | some extra => throw (.trailingBytes extra.length)

/-- Reads an inner view, whatever may be left of it, as a step of an outer read. -/
def inner {α : Type} (view : Bytes) (read : Decode α) : Decode α :=
  match read view with
  | .ok a _ => pure a
  | .error e _ => throw e

/-- Reads a pair written as a list of two items. -/
def pair {α β : Type} (first : Decode α) (second : Decode β) : Decode (α × β) := do
  let items ← Decode.list
  inner items do
    let a ← item first
    let b ← item second
    endOfList
    return (a, b)

/-- Writes what is said about a connection. -/
def Content.pack : Content → Encode Unit
  | .payload seq data => do
    Encode.variantBegin "Payload"
    Encode.listBegin
    Encode.uint seq
    Encode.bytes data
    Encode.listEnd
    Encode.variantEnd
  | .abort reason => do
    Encode.variantBegin "Abort"
    reason.pack
    Encode.variantEnd

/-- Reads what is said under the given name. -/
def Content.unpackNamed (name : String) : Decode Content :=
  match name with
  | "Payload" => do
    let (seq, data) ← pair Decode.uint Decode.bytes
    return .payload seq data
  | "Abort" => do
    let reason ← Reason.unpack
    return .abort reason
  | other => throw (.unknownVariant other)

/-- Reads what is said about a connection. -/
def Content.unpack : Decode Content := do
  let (name, body) ← Decode.variant
  Decode.within body (unpackNamed name)

/-- Writes an envelope. -/
def Envelope.pack (e : Envelope) : Encode Unit := do
  Encode.listBegin
  Encode.uint e.conn.val
  e.content.pack
  Encode.listEnd

/-- Reads an envelope. -/
def Envelope.unpack : Decode Envelope := do
  let (conn, content) ← pair Decode.uint Content.unpack
  return ⟨⟨conn⟩, content⟩

/-- The bytes of an envelope. -/
def Envelope.packed (e : Envelope) : Except Wire.Error Bytes :=
  Encode.run e.pack

/-- The envelope that the bytes are, all of them used. -/
def Envelope.unpacked (bytes : Bytes) : Except Wire.Error Envelope :=
  Decode.whole Envelope.unpack bytes

end Tether.Session
