import Tether.Wire.Encoder

/-!
# Calls on an encoder

The calls that an encoder takes, as data, so that whole lists of them can be run and reasoned about.
A call that fails does not stop the list.
-/

namespace Tether.Wire

/-- One call on an encoder. -/
inductive Call where
  | unit
  | bool (b : Bool)
  | uint (n : UInt64)
  | str (text : String)
  | bytes (data : Bytes)
  | optionNone
  | someBegin
  | someEnd
  | listBegin
  | listEnd
  | variantBegin (name : String)
  | variantEnd
  deriving DecidableEq, Repr

namespace Call

/-- What a call does. -/
def run : Call → Encode Unit
  | unit => Encode.unit
  | bool b => Encode.bool b
  | uint n => Encode.uint n
  | str text => Encode.str text
  | bytes data => Encode.bytes data
  | optionNone => Encode.optionNone
  | someBegin => Encode.someBegin
  | someEnd => Encode.someEnd
  | listBegin => Encode.listBegin
  | listEnd => Encode.listEnd
  | variantBegin name => Encode.variantBegin name
  | variantEnd => Encode.variantEnd

end Call

namespace Encoder

/-- Makes one call: the encoder after it, and its error if it failed. -/
def call (enc : Encoder) (c : Call) : Encoder × Option Error :=
  match c.run enc with
  | .ok _ enc => (enc, none)
  | .error e enc => (enc, some e)

/-- Makes calls in turn, failing or not. -/
def calls (enc : Encoder) : List Call → Encoder × List (Option Error)
  | [] => (enc, [])
  | c :: rest =>
    let (enc, e) := enc.call c
    let (enc, es) := enc.calls rest
    (enc, e :: es)

end Encoder

end Tether.Wire
