import Tether.World.Ends

/-!
# Activities on links

Dialing, accepting and pumping. Each function whose name ends in `Step?` is one step of an activity:
it gives the world after the step and the activity as it goes on, or no activity if it has ended. No
answer means that the activity has to wait.
-/

namespace Tether.World

/-- Queues the stitch of a link. Once it is queued, the link is pumped; a link that was given up is
let go. The answer says whether it was stitched; no answer means that the queue is full. -/
def stitchLink? (w : World) (c : Chain.ChainId) (k : Chain.LinkId) : Option (World × Bool) :=
  (w.chains[c]?.bind (·.stitch? k)).map fun e =>
    let w := w.setChain c e
    if e.stage k = .refused then
      match w.linkEnd? c k with
      | some link => (w.dropLink link, false)
      | none => (w, false)
    else (w.spawn (.pump c k), true)

/-- Attaches a link to a chain and announces it. A link that the chain does not take is let go. -/
def attachLink (w : World) (c : Chain.ChainId) (seq : Nat) (link : Link.End) :
    World × Option Chain.LinkId :=
  match w.chains[c]? with
  | none => (w.dropLink link, none)
  | some e =>
    match e.attach seq link with
    | (_, none) => (w.dropLink link, none)
    | (e, some k) => (w.setChain c e.announce, some k)

/-! ## Pumping -/

/-- One step of moving chunks from a link into its chain. -/
def pumpStep? (w : World) (c : Chain.ChainId) (k : Chain.LinkId) : Option Move :=
  match w.chains[c]?, w.linkEnd? c k with
  | some e, some link =>
    if e.wantsChunk k then
      (w.network.recv? link).map fun (network, r) =>
        settle { w with network } (e.received k r)
    else (e.deliver? k).map (settle w)
  | _, _ => some (w, none)
where
  settle (w : World) (e : Chain.Endpoint) : Move :=
    let w := w.setChain c e
    if e.stage k = .ended then (w.dropReader c k, none) else (w, some (.pump c k))

/-! ## Dialing -/

/-- Pauses before the next attempt. The dialer ends where the pause is too long for a span. -/
def pause (w : World) (d : Chain.Dialing) (failures : UInt32) : Move :=
  let task := (d.config.redialPause? failures w.draws).map fun span =>
    Task.dial { d with stage := .pausing (w.after span) }
  ({ w with draws := w.draws + 1 }, task)

/-- Goes on after an attempt. -/
def concludeAttempt (w : World) (d : Chain.Dialing) (a : Chain.Attempt) : Move :=
  match d.memory.conclude a with
  | (memory, .attach seq link) =>
    match w.attachLink d.chain seq.toNat link with
    | (w, some k) => (w, some (.dial { d with memory, stage := .stitching k }))
    | (w, none) => (w, none)
  | (memory, .retry failures) => w.pause { d with memory } failures
  | (_, .giveUp e) => (w.killChain d.chain (some e), none)

/-- Dials, and sends the dial if a link was made. -/
def dialNow (w : World) (d : Chain.Dialing) (id : Chain.Id) : Move :=
  match w.network.dial d.addr with
  | (network, .error e) => { w with network }.concludeAttempt d (.ofDialError e)
  | (network, .ok pipe) =>
    let link : Link.End := ⟨pipe, .near⟩
    match network.send link (Chain.Dial.encode ⟨id, d.memory.attemptSeq.toNat⟩) with
    | (network, .ok ()) =>
      let w := { w with network }
      (w, some (.dial { d with stage := .greeting link (w.after d.config.handshakeTimeout) }))
    | (network, .error _) => ({ w with network }.dropLink link).concludeAttempt d .failed

/-- Takes the answer to a dial, if it has come or its time is over. -/
def hearAnswer? (w : World) (d : Chain.Dialing) (link : Link.End) (deadline : Nat) : Option Move :=
  match w.network.recv? link with
  | some (network, .ok (some answer)) =>
    let w := { w with network }
    match Chain.Attempt.ofAnswer link answer with
    | .admitted link => some (w.concludeAttempt d (.admitted link))
    | other => some ((w.dropLink link).concludeAttempt d other)
  | some (network, _) => some (({ w with network }.dropLink link).concludeAttempt d .failed)
  | none => if deadline ≤ w.clock then some ((w.dropLink link).concludeAttempt d .failed) else none

/-- One step of keeping a link under a chain. -/
def dialStep? (w : World) (d : Chain.Dialing) : Option Move :=
  match w.chains[d.chain]? with
  | none => some (w, none)
  | some e =>
    match d.stage with
    | .dialing => if e.killed then some (w, none) else some (w.dialNow d e.id)
    | .pausing deadline =>
      if e.killed then some (w, none)
      else if deadline ≤ w.clock then some (w, some (.dial { d with stage := .dialing }))
      else none
    | .greeting link deadline =>
      if e.killed then some (w.dropLink link, none) else w.hearAnswer? d link deadline
    | .stitching k =>
      (w.stitchLink? d.chain k).map fun
        | (w, true) => (w, some (.dial { d with stage := .linked k }))
        | (w, false) => (w, none)
    | .linked k =>
      if e.killed then some (w, none)
      else if e.retired k then some (w.pause d (d.memory.failures.getD 0))
      else none

/-! ## Accepting -/

/-- One step of taking links from a socket. -/
def listenStep? (w : World) (l : ListenerId) : Option Move :=
  match w.listeners[l]? with
  | none => some (w, none)
  | some x =>
    let stopped (w : World) : Move :=
      let w := w.modifyListener l fun x => { x with looping := false }
      ({ w with network := w.network.dropSocket x.socket }, none)
    if x.shutdown then some (stopped w)
    else
      (w.network.accept? x.socket).map fun
        | (network, .error _) => stopped { w with network }
        | (network, .ok pipe) =>
          let w := { w with network }
          let w := w.modifyListener l fun x => { x with admitting := x.admitting + 1 }
          let stage := .hearing (w.after x.config.handshakeTimeout)
          (w.spawn (.greet ⟨l, ⟨pipe, .far⟩, stage⟩), some (.listen l))

/-- Ends the admission of a link. -/
def admitted (w : World) (l : ListenerId) : Move :=
  (w.modifyListener l fun x => { x with admitting := x.admitting - 1 }, none)

/-- Offers a new chain to the user of the listener, and ends the admission of its first link. -/
def offerChain (w : World) (l : ListenerId) (c : Chain.ChainId) : Move :=
  if (w.listeners[l]?.map (·.held)).getD false then
    (w.modifyListener l fun x => { x with accepted := x.accepted ++ [c] }).admitted l
  else (w.closeChain c).admitted l

/-- Judges the first message of a link. A new chain is made and watched from then on. -/
def judgeLink (w : World) (a : Chain.Admission) (x : Chain.Listener) (message : Bytes) : Move :=
  let (registry, verdict) := x.registry.judgeMessage w.chainDead w.chains.size message
  let w := w.modifyListener a.listener fun x => { x with registry }
  let w :=
    match verdict, Chain.Dial.decode? message with
    | .opens c _, some d =>
      { w with chains := w.chains.push (.new d.id x.config.eventQueue) }.spawn
        (.watch a.listener c .looking)
    | _, _ => w
  (w, some (.greet { a with stage := .answering verdict }))

/-- Attaches an admitted link. -/
def attachAdmitted (w : World) (a : Chain.Admission) (c : Chain.ChainId) (seq : Nat)
    (opens : Bool) : Move :=
  match w.attachLink c seq a.link with
  | (w, some k) => (w, some (.greet { a with stage := .stitching c k opens }))
  | (w, none) => if opens then w.offerChain a.listener c else w.admitted a.listener

/-- Tells the verdict, and acts on it. -/
def answerLink (w : World) (a : Chain.Admission) (verdict : Chain.Verdict) : Move :=
  let (network, told) := w.network.send a.link verdict.answer.encode
  let w := { w with network }
  match verdict, told with
  | .opens c seq, .ok () => w.attachAdmitted a c seq true
  | .joins c seq, .ok () => w.attachAdmitted a c seq false
  | .opens c _, .error _ => (w.dropLink a.link).offerChain a.listener c
  | _, _ => (w.dropLink a.link).admitted a.listener

/-- One step of admitting a link. -/
def admitStep? (w : World) (a : Chain.Admission) : Option Move :=
  match w.listeners[a.listener]? with
  | none => some (w.dropLink a.link, none)
  | some x =>
    match a.stage with
    | .hearing deadline =>
      match w.network.recv? a.link with
      | some (network, .ok (some message)) => some ({ w with network }.judgeLink a x message)
      | some (network, _) => some (({ w with network }.dropLink a.link).admitted a.listener)
      | none =>
        if deadline ≤ w.clock then some ((w.dropLink a.link).admitted a.listener) else none
    | .answering verdict => some (w.answerLink a verdict)
    | .stitching c k opens =>
      (w.stitchLink? c k).map fun (w, _) =>
        if opens then w.offerChain a.listener c else w.admitted a.listener

/-- One step of watching an accepted chain. A dead chain is taken out of the register. -/
def watchStep? (w : World) (l : ListenerId) (c : Chain.ChainId) (watch : Chain.Watch) :
    Option Move :=
  match w.chains[c]?, w.listeners[l]? with
  | some e, some x =>
    let unregistered (w : World) : Move :=
      (w.modifyListener l fun x => { x with registry := x.registry.unregister c }, none)
    match x.config.orphanTimeout with
    | none => if e.killed then some (unregistered w) else none
    | some timeout =>
      (watch.step? e w.clock timeout.toMicros).map fun
        | .goOn next => (w, some (.watch l c next))
        | .finished => unregistered w
        | .orphaned => unregistered (w.killChain c (some .orphaned))
  | _, _ => some (w, none)

end Tether.World
