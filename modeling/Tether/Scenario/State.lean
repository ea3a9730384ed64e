import Tether.World.Object

/-!
# The user's names

A user knows the objects of a world, and the calls left to run in the background, by name. An object
is known by one name at a time, and a name that is given anew lets go of what it named.
-/

namespace Tether.Scenario

open World (Object Answer)

/-- A world with the objects and the background calls that are known by name. -/
structure State where
  /-- Where the failures of links come from. -/
  chance : Link.Chance
  world : World := {}
  objects : List (String × Object) := []
  jobs : List (String × World.JobId) := []

namespace State

/-- The object of a name. -/
def object? (s : State) (name : String) : Option Object :=
  s.objects.lookup name

/-- Changes the world. -/
def modify (s : State) (f : World → World) : State :=
  { s with world := f s.world }

/-- Takes a name away. -/
def forget (s : State) (name : String) : State :=
  { s with objects := s.objects.filter (·.1 ≠ name) }

/-- Replaces the object of a name by another form of itself. -/
def update (s : State) (name : String) (o : Object) : State :=
  { s with objects := (name, o) :: (s.forget name).objects }

/-- Gives an object a name. The object that had the name is let go. -/
def bind (s : State) (name : String) (o : Object) : State :=
  let named := s.update name o
  match s.object? name with
  | some old => named.modify (·.letGo old)
  | none => named

/-- Uses an object up and gives what was made of it a name. -/
def consume (s : State) (on name : String) (w : World) (o : Object) : State :=
  ({ s.forget on with world := w }).bind name o

/-- Lets go of an object. -/
def drop (s : State) (on : String) : State × Answer :=
  match s.object? on with
  | some o => ((s.forget on).modify (·.letGo o), .ok)
  | none => (s, .noObject)

/-- Takes the name of a background call away. -/
def forgetJob (s : State) (job : String) : State :=
  { s with jobs := s.jobs.filter (·.1 ≠ job) }

end State

end Tether.Scenario
