import Tether.Chain.Registry

/-!
# Listeners

A listener admits inbound links and queues the chains they open until its user takes them. Stopping
it ends the admission of further links; chains that it accepted live on.
-/

namespace Tether.Chain

/-- A listener for chains. -/
structure Listener where
  socket : Link.SocketId
  addr : String
  config : Config
  registry : Registry := []
  /-- Chains that wait to be taken. -/
  accepted : List ChainId := []
  /-- Whether the user stopped the listener. -/
  shutdown : Bool := false
  /-- Whether links are still taken from the socket. -/
  looping : Bool := true
  /-- How many links are being admitted. -/
  admitting : Nat := 0
  /-- Whether the user still holds the listener. -/
  held : Bool := true
  deriving Repr

namespace Listener

/-- Takes the next chain. No answer means that there is none yet and one may still come. -/
def accept? (l : Listener) : Option (Listener × Except Error ChainId) :=
  if l.shutdown then some (l, .error .closed)
  else
    match l.accepted with
    | c :: rest => some ({ l with accepted := rest }, .ok c)
    | [] => if l.looping || 0 < l.admitting then none else some (l, .error .closed)

/-- Stops the listener. -/
def close (l : Listener) : Listener :=
  { l with shutdown := true }

end Listener

end Tether.Chain
