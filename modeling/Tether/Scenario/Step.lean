import Tether.World.Object

/-!
# Steps of a scenario

A scenario is a list of steps that a user takes in a world, on objects known by name. Steps make
objects, use them, let go of them, or let time pass. A step that may have to wait can be given time;
a write can be left to run in the background.
-/

namespace Tether.Scenario

open World (Layer)

/-- What is written. -/
inductive Data where
  | raw (bytes : Bytes)
  | typed (ty : Wire.Ty) (v : ty.Val)

/-- How long a step may take. Without a limit it may take no time at all. -/
abbrev Wait := Option Duration

/-- A step on the network as a whole. -/
inductive NetworkStep where
  | cutAll
  | setDown (addr : String) (down : Bool)
  | kill (addr : String)
  /-- Asks how many dials were tried. -/
  | dials
  | failLinks (seed : UInt64) (odds : Link.Odds)
  | heal

/-- A step on one object that answers at once and leaves its name as it is. -/
inductive ObjectStep where
  | addr
  | id
  | close
  | kill
  | isKilled
  | cut
  | isCut

/-- One step. `on` names the object used, `name` the object made. -/
inductive Step where
  | network (step : NetworkStep)
  | object (on : String) (step : ObjectStep)
  | linkListen (addr name : String)
  | linkDial (addr name : String)
  /-- Makes a pipe outside the network: two links and their shared state. -/
  | pipe (near far name : String)
  | dialer (layer : Layer) (name : String) (start : UInt64) (config : Config)
  | bind (layer : Layer) (addr name : String) (config : Config)
  /-- Makes a chain into a stream. -/
  | stream (on name : String) (config : Config)
  /-- Makes a stream of chunks into one of values. -/
  | values (on name : String)
  | session (on name : String) (role : Session.Role)
  | split (on reader writer : String)
  | handle (on name : String)
  | clone (on name : String)
  | drop (on : String)
  | dropSender (on : String)
  | dropReceiver (on : String)
  | dial (on addr name : String)
  | accept (on name : String) (wait : Wait)
  | write (on : String) (data : Data) (wait : Wait) (job : Option String)
  | writeMany (on : String) (count : Nat) (wait : Wait) (job : Option String)
  | read (on : String) (name : Option String) (ty : Option Wire.Ty) (wait : Wait)
  /-- Reads until a read gives no chunk. -/
  | readAll (on : String) (name : Option String) (ty : Option Wire.Ty) (wait : Wait)
  /-- Waits for the end of something and tells its reason. -/
  | closed (on : String) (wait : Wait)
  | join (job : String) (wait : Wait)
  | cancel (job : String)
  | sleep (span : Duration)

end Tether.Scenario
