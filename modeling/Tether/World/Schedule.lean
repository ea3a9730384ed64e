import Tether.World.Calls
import Tether.World.Links

/-!
# Running the world

Activities take steps in rounds, each at most one step to a round, until a round passes in which
none can go on. Then the clock may move, to the moment for which the first activity waits.
-/

namespace Tether.World

/-- One step of an activity, if it can take one. -/
def step? (w : World) : Task → Option Move
  | .dial d => w.dialStep? d
  | .pump c k => w.pumpStep? c k
  | .listen l => w.listenStep? l
  | .greet a => w.admitStep? a
  | .watch l c watch => w.watchStep? l c watch
  | .receive s => w.receiveStep? s
  | .send s => w.sendStep? s
  | .linger s deadline => w.lingerStep? s deadline
  | .dispatch m => w.dispatchStep? m
  | .tell m o => w.tellStep? m o
  | .release m => w.releaseStep? m
  | .call job c => w.callStep? job c

/-- Gives each of the tasks one step. The tasks that go on are kept in order; `moved` tells whether
any took a step. -/
def stepAll (w : World) (kept : List Task) (moved : Bool) : List Task → World × List Task × Bool
  | [] => (w, kept.reverse, moved)
  | t :: rest =>
    match w.step? t with
    | none => w.stepAll (t :: kept) moved rest
    | some (w, none) => w.stepAll kept true rest
    | some (w, some t) => w.stepAll (t :: kept) true rest

/-- One round over the activities. Those started during it come last. -/
def round (w : World) : World × Bool :=
  let (w, kept, moved) := { w with tasks := [] }.stepAll [] false w.tasks
  ({ w with tasks := kept ++ w.tasks }, moved)

/-- Runs rounds until no activity can go on, at most `rounds` of them. -/
def settle (w : World) : Nat → World
  | 0 => w
  | rounds + 1 =>
    let (w, moved) := w.round
    if moved then w.settle rounds else w

/-- More rounds than a system takes to come to rest. One that has not rested by then is taken never
to, as with a pause of no length between failing dials. -/
def maxRounds : Nat := 1000000

/-- Runs all activities until none can go on without the clock. -/
def rest (w : World) : World :=
  w.settle maxRounds

/-- Runs a call together with the activities, until it answers or nothing can go on. Without an
answer, it gives the call as far as it has come. -/
def attend (w : World) (c : Call) : Nat → World × Except Call Reply
  | 0 => (w, .error c)
  | rounds + 1 =>
    match w.poll c with
    | (w, .answered r) => (w, .ok r)
    | (w, .goesOn c) => w.round.1.attend c rounds
    | (w, .waits) =>
      match w.round with
      | (w, true) => w.attend c rounds
      | (w, false) => (w, .error c)

/-- The first moment after `now`, and not after `limit`, for which an activity waits. -/
def nextMoment? (w : World) (now limit : Nat) : Option Nat :=
  w.tasks.foldl (fun first t =>
    match t.deadline? with
    | none => first
    | some d => if now < d ∧ d ≤ limit then some (min d (first.getD d)) else first) none

/-- Lets time pass from `now` until `limit`, resting at every moment for which an activity waits. -/
def sleepUntil (w : World) (now limit : Nat) : World :=
  match w.nextMoment? now limit with
  | none => { w with clock := limit }.rest
  | some moment =>
    if now < moment ∧ moment ≤ limit then
      { w with clock := moment }.rest.sleepUntil moment limit
    else w
termination_by limit - now

/-- Lets a span of time pass. -/
def sleep (w : World) (d : Duration) : World :=
  w.sleepUntil w.clock (w.after d)

/-- Runs a call, letting time pass from `now` on if need be. What happens at `limit` itself comes
too late for the call. -/
def attendUntil (w : World) (c : Call) (now limit : Nat) : World × Except Call Reply :=
  match w.attend c maxRounds with
  | (w, .ok r) => (w, .ok r)
  | (w, .error c) =>
    match w.nextMoment? now limit with
    | none => ({ w with clock := limit }, .error c)
    | some moment =>
      if now < moment ∧ moment < limit then
        { w with clock := moment }.attendUntil c moment limit
      else ({ w with clock := limit }, .error c)
termination_by limit - now

end Tether.World
