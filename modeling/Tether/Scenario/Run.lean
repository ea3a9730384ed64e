import Tether.Scenario.Calls
import Tether.Scenario.Making

/-!
# Running a scenario

Each step is taken together with the activities of the world, and afterwards they run until none can
go on. The answers of the steps are all that a scenario shows.
-/

namespace Tether.Scenario

open World (Object Answer)

namespace State

/-- Takes a step on the network. -/
def network (s : State) (step : NetworkStep) : State × Answer :=
  let n := s.world.network
  match step with
  | .cutAll => (s.modify ({ · with network := n.cutAll.1 }), .number n.cutAll.2)
  | .setDown addr down => (s.modify ({ · with network := n.setDown addr down }), .ok)
  | .kill addr => (s.modify ({ · with network := n.kill addr }), .ok)
  | .dials => (s, .number n.dials)
  | .failLinks seed odds => (s.modify ({ · with network := n.failLinks s.chance seed odds }), .ok)
  | .heal => (s.modify ({ · with network := n.heal }), .ok)

/-- What a step on an object shows and does to the world, if the object takes such a step. -/
def objectStep? (w : World) (o : Object) : ObjectStep → Option (World × Answer)
  | .addr => (w.addressOf? o).map fun addr => (w, .text addr)
  | .id => (w.nameOf? o).map fun name => (w, .text name)
  | .close => w.close? o
  | .kill => (w.kill? o).map fun w => (w, .ok)
  | .isKilled =>
    match o with
    | .handle c => some (w, .flag (w.chainDead c))
    | _ => none
  | .cut =>
    match o with
    | .pipe p => some ({ w with network := w.network.cut p }, .ok)
    | _ => none
  | .isCut =>
    match o with
    | .pipe p => some (w, .flag ((w.network.pipe? p).any (·.cut)))
    | _ => none

/-- Takes a step on an object. -/
def object (s : State) (on : String) (step : ObjectStep) : State × Answer :=
  match (s.object? on).bind fun o => objectStep? s.world o step with
  | some (w, a) => ({ s with world := w }, a)
  | none => (s, .noObject)

/-- Takes a step. -/
def take (s : State) : Step → State × Answer
  | .network step => s.network step
  | .object on step => s.object on step
  | .linkListen addr name => s.linkListen addr name
  | .linkDial addr name => s.linkDial addr name
  | .pipe near far name => s.pipe near far name
  | .dialer layer name start config => s.dialer layer name start config
  | .bind layer addr name config => s.listen layer addr name config
  | .stream on name config => s.stream on name config
  | .values on name => s.values on name
  | .session on name role => s.session on name role
  | .split on reader writer => s.split on reader writer
  | .handle on name => s.handle on name
  | .clone on name => s.clone on name
  | .drop on => s.drop on
  | .dropSender on => s.dropSender on
  | .dropReceiver on => s.dropReceiver on
  | .dial on addr name => s.dial on addr name
  | .accept on name wait => s.accept on name wait
  | .write on data wait job => s.write on data wait job
  | .writeMany on count wait job => s.writeMany on count wait job
  | .read on name ty wait => s.read on name ty wait
  | .readAll on name ty wait => s.readAll on name ty wait [] World.maxRounds
  | .closed on wait => s.closed on wait
  | .join job wait => s.join job wait
  | .cancel job => s.cancel job
  | .sleep span => (s.modify (·.sleep span), .ok)

/-- Takes a step and lets the world come to rest. -/
def advance (s : State) (step : Step) : State × Answer :=
  let (s, a) := s.take step
  (s.modify (·.rest), a)

end State

/-- Takes steps in turn, starting in an empty world. -/
def run (chance : Link.Chance) (steps : List Step) : List Answer :=
  go { chance } steps
where
  go (s : State) : List Step → List Answer
    | [] => []
    | step :: rest =>
      let (s, a) := s.advance step
      a :: go s rest

end Tether.Scenario
