import Tether.Bytes
import Tether.Link.Error

/-!
# Pipes

A pipe is one physical link: two ends, and in each direction a queue of chunks. Within a direction
chunks arrive in order and whole. Each end holds a sending and a receiving half, which can be let go
separately. A pipe can be cut at any moment; then both directions are dead and what was queued is
lost.
-/

namespace Tether.Link

/-- The two ends of a pipe: the dialing one and the accepting one. -/
inductive Side where
  | near
  | far
  deriving DecidableEq, Repr

/-- The other end. -/
def Side.opposite : Side → Side
  | near => far
  | far => near

@[simp]
theorem Side.opposite_opposite (side : Side) : side.opposite.opposite = side := by
  cases side <;> rfl

/-- One direction of a pipe. -/
structure Direction where
  /-- Chunks sent and not yet received, oldest first. -/
  queue : List Bytes := []
  /-- Whether the sending half is still held. -/
  sending : Bool := true
  /-- Whether the receiving half is still held. -/
  receiving : Bool := true
  deriving DecidableEq, Repr

/-- A physical link. -/
structure Pipe where
  cut : Bool := false
  /-- The direction in which the near end sends. -/
  forth : Direction := {}
  /-- The direction in which the far end sends. -/
  back : Direction := {}
  deriving DecidableEq, Repr

namespace Pipe

/-- The direction in which an end sends. -/
def outgoing (p : Pipe) : Side → Direction
  | .near => p.forth
  | .far => p.back

/-- The direction from which an end receives. -/
def incoming (p : Pipe) (side : Side) : Direction :=
  p.outgoing side.opposite

/-- Replaces the direction in which an end sends. -/
def setOutgoing (p : Pipe) (side : Side) (d : Direction) : Pipe :=
  match side with
  | .near => { p with forth := d }
  | .far => { p with back := d }

/-- Replaces the direction from which an end receives. -/
def setIncoming (p : Pipe) (side : Side) (d : Direction) : Pipe :=
  p.setOutgoing side.opposite d

@[simp]
theorem outgoing_setOutgoing (p : Pipe) (side : Side) (d : Direction) :
    (p.setOutgoing side d).outgoing side = d := by
  cases side <;> rfl

/-- The other direction is not touched. -/
@[simp]
theorem incoming_setOutgoing (p : Pipe) (side : Side) (d : Direction) :
    (p.setOutgoing side d).incoming side = p.incoming side := by
  cases side <;> rfl

@[simp]
theorem cut_setOutgoing (p : Pipe) (side : Side) (d : Direction) :
    (p.setOutgoing side d).cut = p.cut := by
  cases side <;> rfl

@[simp]
theorem incoming_setIncoming (p : Pipe) (side : Side) (d : Direction) :
    (p.setIncoming side d).incoming side = d :=
  p.outgoing_setOutgoing side.opposite d

/-- The other direction is not touched. -/
@[simp]
theorem outgoing_setIncoming (p : Pipe) (side : Side) (d : Direction) :
    (p.setIncoming side d).outgoing side = p.outgoing side := by
  cases side <;> rfl

@[simp]
theorem cut_setIncoming (p : Pipe) (side : Side) (d : Direction) :
    (p.setIncoming side d).cut = p.cut :=
  p.cut_setOutgoing side.opposite d

/-- Sends a chunk. `fault` says whether the medium fails at this moment, which cuts the pipe. -/
def send (p : Pipe) (side : Side) (fault : Bool) (chunk : Bytes) : Pipe × Except Error Unit :=
  if p.cut then (p, .error (.io "pipe cut"))
  else if fault then ({ p with cut := true }, .error (.io "pipe cut by fault injection"))
  else
    let d := p.outgoing side
    if d.receiving then (p.setOutgoing side { d with queue := d.queue ++ [chunk] }, .ok ())
    else (p, .error (.io "peer hung up"))

/-- Receives the next chunk, or learns that no more will come. No answer means that the end has to
wait. -/
def recv? (p : Pipe) (side : Side) : Option (Pipe × Except Error (Option Bytes)) :=
  if p.cut then some (p, .error (.io "pipe cut"))
  else
    let d := p.incoming side
    match d.queue with
    | chunk :: rest => some (p.setIncoming side { d with queue := rest }, .ok (some chunk))
    | [] => if d.sending then none else some (p, .ok none)

/-- Lets go of the sending half of an end. -/
def dropSender (p : Pipe) (side : Side) : Pipe :=
  p.setOutgoing side { p.outgoing side with sending := false }

/-- Lets go of the receiving half of an end, with what was queued for it. -/
def dropReceiver (p : Pipe) (side : Side) : Pipe :=
  p.setIncoming side { p.incoming side with receiving := false, queue := [] }

/-- Lets go of both halves of an end. -/
def dropEnd (p : Pipe) (side : Side) : Pipe :=
  (p.dropSender side).dropReceiver side

/-- Whether anyone still holds a half of the pipe. -/
def held (p : Pipe) : Bool :=
  p.forth.sending || p.forth.receiving || p.back.sending || p.back.receiving

/-- Whether a cut would be felt: the pipe is held and was not cut yet. -/
def live (p : Pipe) : Bool :=
  p.held && !p.cut

end Pipe

end Tether.Link
