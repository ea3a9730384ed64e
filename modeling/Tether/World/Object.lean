import Tether.World.Ends

/-!
# Objects

What users hold and act on: sockets, links, dialers, listeners, chains, streams and their halves,
sessions and connections. Some acts on an object answer at once; they are in this module. The others
are calls (`Tether.World.Calls`), and this module says which call an object takes.
-/

namespace Tether.World

/-- Which part of a stream an object stands for. -/
inductive Part where
  /-- Both halves. -/
  | whole
  | reader
  | writer
  deriving DecidableEq, Repr

/-- Something that a user can hold. -/
inductive Object where
  | socket (id : Link.SocketId)
  /-- A link, with which of its halves are still held. -/
  | link (e : Link.End) (sender receiver : Bool)
  /-- The shared state of a pipe. -/
  | pipe (id : Link.PipeId)
  | dialer (layer : Layer) (config : Config) (ids : Chain.SequentialIds)
  | listener (layer : Layer) (id : ListenerId)
  | chain (id : Chain.ChainId)
  /-- A handle on a chain, which does not keep it alive. -/
  | handle (id : Chain.ChainId)
  | chainWriter (id : Chain.ChainId) (link : Chain.LinkId)
  | stream (id : StreamId) (part : Part) (content : Content)
  | session (id : SessionId)
  | conn (session : SessionId) (key : Session.ConnKey)

/-! ## Asking -/

/-- The chain under an object. -/
def chainUnder? (w : World) : Object → Option Chain.ChainId
  | .chain c | .handle c => some c
  | .stream s _ _ => w.streams[s]?.map (·.chain)
  | _ => none

/-- What an object is called: the identifier of its chain or connection, and the number of its
attempt for the writer of a link. -/
def nameOf? (w : World) : Object → Option String
  | .conn m k => some (w.connName m k)
  | .chainWriter c k => w.chains[c]?.bind fun e => e.links[k]?.map (toString ·.seq)
  | o => (w.chainUnder? o).map w.chainName

/-- The address that an object listens on. -/
def addressOf? (w : World) : Object → Option String
  | .socket p => w.network.sockets[p]?.map (·.addr)
  | .listener _ l => w.listeners[l]?.map (·.addr)
  | _ => none

/-! ## Acting -/

/-- Closes an object. -/
def close? (w : World) : Object → Option (World × Answer)
  | .listener _ l => some (w.modifyListener l (·.close), .ok)
  | .stream _ .reader _ => none
  | .stream s _ content =>
    let (w, r) := w.closeStream s
    some (w, .ofDone content.failure r)
  | .session m => some (w.endSession m (.stream .closed), .ok)
  | .conn m k => some (w.closeConn m k, .ok)
  | _ => none

/-- Kills an object. -/
def kill? (w : World) : Object → Option World
  | .chain c | .handle c => some (w.killChain c none)
  | .stream _ .reader _ => none
  | .stream s _ _ => some (w.failStream s (.chain .killed))
  | _ => none

/-- Lets go of a half of a link, if it was still held. -/
def dropHalf (w : World) (held : Bool) (f : Link.Network → Link.Network) : World :=
  if held then { w with network := f w.network } else w

/-- Lets go of an object. -/
def letGo (w : World) : Object → World
  | .socket p => { w with network := w.network.dropSocket p }
  | .link e sender receiver =>
    (w.dropHalf sender (·.dropSender e)).dropHalf receiver (·.dropReceiver e)
  | .pipe _ | .dialer _ _ _ | .handle _ => w
  | .listener _ l => w.dropListener l
  | .chain c => w.closeChain c
  | .chainWriter c k => w.dropWriter c k
  | .stream s .whole _ => (w.dropUser s).dropUser s
  | .stream s _ _ => w.dropUser s
  | .session m => w.dropSession m
  | .conn m k => w.dropConnUser m k

/-- Takes one more hold of an object. -/
def copy? (w : World) : Object → Option World
  | .handle _ => some w
  | .stream s .writer _ => some (w.addUser s)
  | _ => none

/-! ## Calls on objects -/

/-- The call that accepts on an object. -/
def Object.acceptCall? : Object → Option Call
  | .socket p => some (.acceptLink p)
  | .listener layer l => some (.accept layer l)
  | .session m => some (.acceptConn m)
  | _ => none

/-- The call that reads from an object, as a value of a type if one is asked for. -/
def Object.readCall? (ty : Option Wire.Ty) : Object → Option Call
  | .link e _ true => some (.readLink e)
  | .chain c => some (.readChain c)
  | .stream _ .writer _ => none
  | .stream s _ .chunks => some (.readStream s)
  | .stream s _ .values => ty.map (.readValue s ·)
  | .conn m k => some (.readConn m k ty)
  | _ => none

/-- The call that waits for the end of an object. -/
def Object.endCall? : Object → Option Call
  | .handle c => some (.chainEnd c)
  | .stream s .whole .chunks => some (.streamEnd s .chunks)
  | .stream s .writer content => some (.streamEnd s content)
  | .session m => some (.sessionEnd m)
  | _ => none

/-- The call that writes bytes to an object, unless the object takes them at once. -/
def Object.writeCall? (data : Bytes) : Object → Option Call
  | .stream _ .reader _ => none
  | .stream s _ .chunks => some (.writeStream s data)
  | .conn m k => some (.writeConn m (.ok { message := .payload k data }))
  | _ => none

/-- The call that writes a value to an object. -/
def Object.writeValueCall? (ty : Wire.Ty) (v : ty.Val) : Object → Option Call
  | .stream _ .reader _ => none
  | .stream s _ .values => some (.writeValue s ty v)
  | .conn m k =>
    some (.writeConn m ((Wire.packed ty v).map fun data => { message := .payload k data }))
  | _ => none

/-- The call that writes numbered chunks to an object. -/
def Object.writeManyCall? (count : Nat) : Object → Option Call
  | .stream s .writer .chunks => some (.writeMany s 0 count)
  | _ => none

end Tether.World
