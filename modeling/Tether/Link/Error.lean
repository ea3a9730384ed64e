/-!
# Errors of links

The causes for which a link cannot be made or used. Only one of them says that trying again is
pointless.
-/

namespace Tether.Link

/-- Why an operation on a link, or the making of one, failed. -/
inductive Error where
  /-- A passing failure: refused, reset or cut. -/
  | io (detail : String)
  /-- The remote address will never answer again. -/
  | gone (addr : String)
  /-- The local end was closed. -/
  | closed
  /-- A frame is longer than the medium carries. -/
  | frameTooLarge (length : Nat)
  deriving DecidableEq, Repr

namespace Error

/-- Whether dialing again can never succeed. -/
def isPermanent : Error → Bool
  | gone _ => true
  | io _ | closed | frameTooLarge _ => false

/-- The text of an error. -/
def message : Error → String
  | io detail => s!"Carrier I/O error: {detail}"
  | gone addr => s!"Remote permanently gone: {addr}"
  | closed => "Carrier closed"
  | frameTooLarge length => s!"Frame of {length} bytes exceeds carrier limit"

end Error

end Tether.Link
