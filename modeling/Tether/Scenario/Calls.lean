import Tether.Scenario.State
import Tether.Scenario.Step
import Tether.World.Schedule

/-!
# Steps that may wait

A step's call runs together with the activities of the world. One that has not answered by the time
none can go on is given up as pending, or, if it was given time, once its time is over. A write can
be left to run in the background under a name, by which it can be waited for or given up.
-/

namespace Tether.Scenario.State

open World (Object Answer Call)

/-- Runs a call. -/
def await (s : State) (c : Call) (wait : Wait) : State × World.Reply :=
  let (w, r, late) : World × Except Call World.Reply × Answer :=
    match wait with
    | none =>
      let (w, r) := s.world.attend c World.maxRounds
      (w, r, .pending)
    | some span =>
      let (w, r) := s.world.attendUntil c s.world.clock (s.world.after span)
      (w, r, .timeout)
  match r with
  | .ok reply => ({ s with world := w }, reply)
  | .error c => ({ s with world := w.giveUp c }, { answer := late })

/-- Runs a call whose answer may bring an object, which gets a name. -/
def awaitMade (s : State) (c : Call) (name : String) (wait : Wait) : State × Answer :=
  match s.await c wait with
  | (s, ⟨a, some o⟩) => (s.bind name o, a)
  | (s, ⟨a, none⟩) => (s, a)

/-- Runs a call in the background. -/
def background (s : State) (c : Call) (job : String) : State × Answer :=
  let (w, id) := s.world.start c
  ({ s.forgetJob job with world := w, jobs := (job, id) :: (s.forgetJob job).jobs }, .started)

/-- Runs a call now or in the background. -/
def runCall (s : State) (c : Call) (wait : Wait) (job : Option String) : State × Answer :=
  match job with
  | some job => s.background c job
  | none =>
    let (s, r) := s.await c wait
    (s, r.answer)

/-- Accepts on an object. -/
def accept (s : State) (on name : String) (wait : Wait) : State × Answer :=
  match (s.object? on).bind (·.acceptCall?) with
  | some c => s.awaitMade c name wait
  | none => (s, .noObject)

/-- Writes bytes to an object that takes them at once: a link, or the writer of one. -/
def writeNow (s : State) (bytes : Bytes) : Object → State × Answer
  | .link e true _ =>
    let (network, r) := s.world.network.send e bytes
    (s.modify ({ · with network }), .ofDone .link r)
  | .chainWriter c k =>
    let (w, r) := s.world.writeLink c k bytes
    ({ s with world := w }, .ofDone .chain r)
  | _ => (s, .noObject)

/-- Writes to an object. -/
def write (s : State) (on : String) (data : Data) (wait : Wait) (job : Option String) :
    State × Answer :=
  match s.object? on, data with
  | none, _ => (s, .noObject)
  | some o, .raw bytes =>
    match o.writeCall? bytes with
    | some c => s.runCall c wait job
    | none => s.writeNow bytes o
  | some o, .typed ty v =>
    match o.writeValueCall? ty v with
    | some c => s.runCall c wait job
    | none => (s, .noObject)

/-- Writes numbered chunks to an object. -/
def writeMany (s : State) (on : String) (count : Nat) (wait : Wait) (job : Option String) :
    State × Answer :=
  match (s.object? on).bind (·.writeManyCall? count) with
  | some c => s.runCall c wait job
  | none => (s, .noObject)

/-- Reads once. The writer that comes with a stitch gets a name, by default one made from the name
of the chain. -/
def read (s : State) (on : String) (name : Option String) (ty : Option Wire.Ty) (wait : Wait) :
    State × Answer :=
  match (s.object? on).bind (·.readCall? ty) with
  | some c => s.awaitMade c (name.getD (on ++ ".w")) wait
  | none => (s, .noObject)

/-- Reads until a read gives no chunk, at most so many times. `got` is what was read, latest
first. -/
def readAll (s : State) (on : String) (name : Option String) (ty : Option Wire.Ty) (wait : Wait)
    (got : List Bytes) : Nat → State × Answer
  | 0 => (s, .chunks got.reverse .pending)
  | reads + 1 =>
    match s.read on name ty wait with
    | (s, .chunk data) => s.readAll on name ty wait (data :: got) reads
    | (s, .noObject) => (s, if got = [] then .noObject else .chunks got.reverse .noObject)
    | (s, a) => (s, .chunks got.reverse a)

/-- Waits for the end of an object. -/
def closed (s : State) (on : String) (wait : Wait) : State × Answer :=
  match (s.object? on).bind (·.endCall?) with
  | some c => s.runCall c wait none
  | none => (s, .noObject)

/-- Waits for a background call, which is then forgotten. -/
def join (s : State) (job : String) (wait : Wait) : State × Answer :=
  match s.jobs.lookup job with
  | none => (s, .noTask)
  | some id =>
    match s.await (.join id) wait with
    | (s, ⟨.pending, _⟩) => (s, .pending)
    | (s, ⟨.timeout, _⟩) => (s, .timeout)
    | (s, ⟨a, _⟩) => (s.forgetJob job, a)

/-- Gives a background call up and forgets it. -/
def cancel (s : State) (job : String) : State × Answer :=
  match s.jobs.lookup job with
  | none => (s, .noTask)
  | some id => ((s.forgetJob job).modify (·.abandon id), .ok)

end Tether.Scenario.State
