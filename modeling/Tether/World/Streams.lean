import Tether.World.Ends

/-!
# Activities of streams

One step each of receiving, sending and lingering, in the form that the steps on links have.
-/

namespace Tether.World

/-- Ends the receiving activity, which lets go of the chain. -/
def stopReceiving (w : World) (s : StreamId) (c : Chain.ChainId) (e : Stream.Error) : Move :=
  let w := (w.failStream s e).closeChain c
  (w.modifyStream s fun stream => { stream with reading := false }, none)

/-- One step of receiving. A read that passes over all that is queued counts as one, since it makes
room. -/
def receiveStep? (w : World) (s : StreamId) : Option Move :=
  match w.streams[s]? with
  | none => some (w, none)
  | some stream =>
    match w.chains[stream.chain]? with
    | none => some (w, none)
    | some e =>
      let (after, delivery) := e.read
      let read := w.setChain stream.chain after
      match delivery with
      | none =>
        if after.events.length < e.events.length then some (read, some (.receive s)) else none
      | some (.error e) => some (read.stopReceiving s stream.chain (.chain e))
      | some (.ok d) =>
        let (stream, effect) := stream.deliver d
        let delivered := read.setStream s stream
        match effect with
        | .goOn => some (delivered, some (.receive s))
        | .linger => some (delivered.lingerStream s, some (.receive s))
        | .fail e => some (delivered.stopReceiving s stream.chain e)

/-- Ends the sending activity, which lets go of its writers. -/
def stopSending (w : World) (s : StreamId) : Move :=
  match w.streams[s]? with
  | none => (w, none)
  | some stream =>
    let w := stream.writers.foldl (fun w k => w.dropWriter stream.chain k) w
    (w.setStream s { stream with sending := false, writer := none, control := [] }, none)

/-- Writes to a link of a chain. -/
def writeLink (w : World) (c : Chain.ChainId) (k : Chain.LinkId) (data : Bytes) :
    World × Except Chain.Error Unit :=
  match w.chains[c]?, w.linkEnd? c k with
  | some e, some link =>
    match e.mayWrite k with
    | .error e => (w, .error e)
    | .ok () =>
      let (network, r) := w.network.send link data
      let (e, r) := e.written k r
      ({ w with network }.setChain c e, r)
  | _, _ => (w, .error .superseded)

/-- One step of sending. -/
def sendStep? (w : World) (s : StreamId) : Option Move :=
  match w.streams[s]? with
  | none => some (w, none)
  | some stream =>
    stream.nextAction?.map fun
      | .stop => w.stopSending s
      | .change stream old =>
        let w := w.setStream s stream
        (match old with
          | some k => w.dropWriter stream.chain k
          | none => w, some (.send s))
      | .send stream bytes =>
        let w := w.setStream s stream
        match stream.writer with
        | none => (w, some (.send s))
        | some k =>
          let (w, r) := w.writeLink stream.chain k bytes
          match Stream.Endpoint.Sent.ofResult r with
          | .goOn => (w, some (.send s))
          | .letGo =>
            ((w.dropWriter stream.chain k).modifyStream s fun x => { x with writer := none },
              some (.send s))
          | .fail e => (w.failStream s e).stopSending s

/-- One step of lingering. -/
def lingerStep? (w : World) (s : StreamId) (deadline : Nat) : Option Move :=
  match w.streams[s]? with
  | none => some (w, none)
  | some stream =>
    if stream.dead then some (w, none)
    else if deadline ≤ w.clock then some (w.failStream s .closed, none)
    else none

end Tether.World
