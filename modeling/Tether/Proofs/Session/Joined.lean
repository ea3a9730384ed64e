import Tether.Session.Dispatch
import Tether.Session.Outgoing

/-!
# Two sessions over one stream

The runs that the laws of sessions are about. A session that dials and a session that accepts share
a stream, of which only this is taken for granted: the chunks that it took from one side come to the
other once and in order. Its state at either side may change in any way between two steps, so it may
have no room for as long as it likes; but once it takes no more chunks it never takes one again.

A run is a list of events, each an act at one of the sides: a call of its user, a step of a message
on its way, or what its reading activity is given next. Messages move in any order. A close is three
acts: it ends the connection, takes it out of the table and sets its abort on the way, and anything
may come in between. An act that cannot happen changes nothing.
-/

namespace Tether.Session

/-- One side, with what surrounds it: the messages on their way from it, and the history of its
stream and of its user's calls. -/
structure Party where
  state : State
  stream : Stream.Endpoint
  /-- Every message that ever set out, or `none` once it was settled or given up. -/
  jobs : List (Option Outgoing) := []
  /-- The chunks that the stream took. -/
  sent : List Bytes := []
  /-- How many chunks of the peer were read. -/
  heard : Nat := 0
  /-- The payloads that were written, in the order in which their writes answered. -/
  wrote : List (ConnKey × Bytes) := []
  /-- What the reads of connections answered. -/
  reads : List (ConnKey × Except Error (Option Bytes)) := []
  /-- The connections that the accepter handed out. -/
  handed : List ConnKey := []
  /-- The connections that the user closed before they had ended. -/
  closes : List ConnKey := []
  /-- The numbers of connections that a close has ended and is yet to take out of the table. -/
  leaving : List ConnId := []
  /-- The numbers that a close took out of the table, whose abort is yet to set out. -/
  owing : List ConnId := []
  /-- Every message that asked for the turn, in the order in which they did. -/
  asked : List Message := []

/-- Both sides. -/
structure Joined where
  dialing : Party
  accepting : Party

/-- The other side. -/
def Role.peer : Role → Role
  | .dial => .accept
  | .accept => .dial

@[simp]
theorem Role.peer_peer (side : Role) : side.peer.peer = side := by
  cases side <;> rfl

/-- The payload that a message writes, with its connection. -/
def Message.payload? : Message → Option (ConnKey × Bytes)
  | .payload k data => some (k, data)
  | .abort _ _ => none

/-- The chunk that a message waits to hand to the stream. -/
def Outgoing.chunk? (o : Outgoing) : Option Bytes :=
  match o.stage with
  | .sending _ (.ok bytes) => some bytes
  | _ => none

/-- The message that asks for the turn by its next step, if it has not asked yet. -/
def Outgoing.asking? (o : Outgoing) : Option Message :=
  match o.stage with
  | .fresh => some o.message
  | _ => none

namespace Party

/-! ## Messages on their way -/

/-- A message that is still on its way. -/
def job? (p : Party) (i : Nat) : Option Outgoing :=
  p.jobs[i]?.join

def setJob (p : Party) (i : Nat) (o : Option Outgoing) : Party :=
  { p with jobs := p.jobs.set i o }

/-- A message sets out. -/
def send (p : Party) (m : Message) : Party :=
  { p with jobs := p.jobs ++ [some ⟨m, .fresh⟩] }

/-- The stream has taken a message. -/
def carried (p : Party) (o : Outgoing) : Party :=
  { p with
    sent := p.sent ++ o.chunk?.toList
    wrote := p.wrote ++ o.message.payload?.toList }

/-- What a step of a message leads to. -/
def settle (p : Party) (i : Nat) (o : Outgoing) : Outgoing.Outcome → Party
  | (state, stream, .goOn o') =>
    { p with state, stream, asked := p.asked ++ o.asking?.toList }.setJob i (some o')
  | (state, stream, .settled (.ok ())) => ({ p with state, stream }.setJob i none).carried o
  | (state, stream, .settled (.error _)) => { p with state, stream }.setJob i none

/-- A message takes its next step, if it can. -/
def move (p : Party) (i : Nat) : Party :=
  match p.job? i with
  | none => p
  | some o => (o.step? p.state p.stream).elim p (p.settle i o)

/-- A message is given up wherever it is. -/
def giveUp (p : Party) (i : Nat) (o : Outgoing) : Party :=
  { p with state := o.cancel p.state }.setJob i none

/-- A write is cancelled. An abort that has set out cannot be. -/
def cancel (p : Party) (i : Nat) : Party :=
  match p.job? i with
  | some ⟨.payload k data, stage⟩ => p.giveUp i ⟨.payload k data, stage⟩
  | _ => p

/-! ## The user -/

def dial (p : Party) : Party :=
  match p.state.role with
  | .dial => { p with state := p.state.dial.1 }
  | .accept => p

def accept (p : Party) : Party :=
  match p.state.accept? with
  | some (state, .ok k) => { p with state, handed := p.handed ++ [k] }
  | some (state, .error _) => { p with state }
  | none => p

def read (p : Party) (k : ConnKey) : Party :=
  match p.state.read? k with
  | some (state, r) => { p with state, reads := p.reads ++ [(k, r)] }
  | none => p

/-- A connection is closed, or its last user lets go: it ends, if it has not ended before. -/
def finish (p : Party) (k : ConnKey) : Party :=
  match p.state.finish? k with
  | none => p
  | some (state, id) =>
    { p with state, closes := p.closes ++ [k], leaving := p.leaving ++ [id] }

/-- A close takes its connection out of the table, if it is still there. -/
def forget (p : Party) (id : ConnId) : Party :=
  if id ∈ p.leaving then
    match p.state.forget? id with
    | none => { p with leaving := p.leaving.erase id }
    | some state => { p with state, leaving := p.leaving.erase id, owing := p.owing ++ [id] }
  else p

/-- The abort of a close sets out. -/
def announce (p : Party) (id : ConnId) : Party :=
  if id ∈ p.owing then { p with owing := p.owing.erase id }.send (.abort id .closed) else p

/-- A connection is closed with nothing between the three acts of a close. -/
def close (p : Party) (k : ConnKey) : Party :=
  match p.state.close k with
  | (state, none) => { p with state }
  | (state, some id) => { p with state, closes := p.closes ++ [k] }.send (.abort id .closed)

def shut (p : Party) : Party :=
  { p with state := (p.state.teardown (.stream .closed)).1 }

/-! ## The reading activity -/

/-- The reading activity takes what a read of the stream gave. -/
def take (p : Party) (r : Except Stream.Error (Option Bytes)) : Party :=
  match p.state.intake r with
  | .goOn state none => { p with state }
  | .goOn state (some (id, reason)) => { p with state }.send (.abort id reason)
  | .finish cause => { p with state := (p.state.teardown cause).1 }

/-! ## The stream -/

/-- Whether a stream takes no more chunks. -/
def down (s : Stream.Endpoint) : Bool :=
  s.buffer.closed || s.buffer.aborted.isSome

/-- Whether a stream may come to stand as another one does. -/
def mayBecome (s s' : Stream.Endpoint) : Bool :=
  s'.config = s.config && (!down s || down s')

def flow (p : Party) (stream : Stream.Endpoint) : Party :=
  if mayBecome p.stream stream then { p with stream } else p

end Party

namespace Joined

def party (w : Joined) : Role → Party
  | .dial => w.dialing
  | .accept => w.accepting

def setParty (w : Joined) (side : Role) (p : Party) : Joined :=
  match side with
  | .dial => { w with dialing := p }
  | .accept => { w with accepting := p }

inductive Act where
  | dial
  | accept
  | write (conn : ConnKey) (data : Bytes)
  | read (conn : ConnKey)
  /-- A connection is closed, or its last user lets go. -/
  | close (conn : ConnKey)
  /-- A close takes its connection out of the table. -/
  | forget (id : ConnId)
  /-- The abort of a close sets out. -/
  | announce (id : ConnId)
  /-- The session is closed, or its last user lets go. -/
  | shut
  /-- The user lets go of the accepter. -/
  | unlisten
  /-- A message takes its next step. -/
  | move (job : Nat)
  | cancel (job : Nat)
  /-- The next chunk of the peer is read. -/
  | hear
  /-- A read of the stream gives its end or a failure. -/
  | lose (cause : Option Stream.Error)
  /-- The stream comes to stand in another way. -/
  | flow (stream : Stream.Endpoint)

abbrev Event := Role × Act

/-- The next chunk of the peer is read, if there is one. -/
def hear (w : Joined) (side : Role) : Joined :=
  let p := w.party side
  match (w.party side.peer).sent[p.heard]? with
  | some chunk => w.setParty side ({ p with heard := p.heard + 1 }.take (.ok (some chunk)))
  | none => w

/-- One event of a run. -/
def step (w : Joined) : Event → Joined
  | (side, act) =>
    let p := w.party side
    match act with
    | .dial => w.setParty side p.dial
    | .accept => w.setParty side p.accept
    | .write k data => w.setParty side (p.send (.payload k data))
    | .read k => w.setParty side (p.read k)
    | .close k => w.setParty side (p.finish k)
    | .forget id => w.setParty side (p.forget id)
    | .announce id => w.setParty side (p.announce id)
    | .shut => w.setParty side p.shut
    | .unlisten => w.setParty side { p with state := { p.state with listening := false } }
    | .move i => w.setParty side (p.move i)
    | .cancel i => w.setParty side (p.cancel i)
    | .hear => w.hear side
    | .lose none => w.setParty side (p.take (.ok none))
    | .lose (some e) => w.setParty side (p.take (.error e))
    | .flow stream => w.setParty side (p.flow stream)

/-- Two sessions at their start. -/
def start (near far : Stream.Endpoint) : Joined :=
  { dialing := { state := .new .dial, stream := near }
    accepting := { state := .new .accept, stream := far } }

/-- The sessions after a run. -/
def run (w : Joined) (events : List Event) : Joined :=
  events.foldl step w

/-- What one event keeps holds after every run. -/
theorem run_induction {P : Joined → Prop} {w : Joined} (start : P w)
    (step : ∀ w event, P w → P (w.step event)) (events : List Event) : P (w.run events) :=
  List.foldlRecOn events Joined.step start fun w held event _ => step w event held

@[simp]
theorem party_setParty (w : Joined) (side : Role) (p : Party) :
    (w.setParty side p).party side = p := by
  cases side <;> rfl

/-- What is so of a side that stays and of the one that acts is so of either. -/
theorem rel_setParty {R : Party → Party → Prop} (refl : ∀ p, R p p) {w : Joined} {side : Role}
    {p : Party} (acts : R (w.party side) p) (s : Role) :
    R (w.party s) ((w.setParty side p).party s) := by
  cases side <;> cases s
  · exact acts
  · exact refl _
  · exact refl _
  · exact acts

end Joined

end Tether.Session
