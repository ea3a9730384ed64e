import Tether.Session.Dispatch
import Tether.World.Ends

/-!
# Activities of sessions

One step each of reading envelopes, telling the peer of an abort, and letting go of the stream, in
the form that the steps on links have.
-/

namespace Tether.World

/-- Ends the reading of a session. -/
def stopDispatch (w : World) (m : SessionId) (s : StreamId) : Move :=
  ((w.modifySession m fun x => { x with reading := false }).dropUser s, none)

/-- One step of reading envelopes. -/
def dispatchStep? (w : World) (m : SessionId) : Option Move :=
  match w.sessions[m]? with
  | none => some (w, none)
  | some x =>
    if x.state.ended.isSome then some (w.stopDispatch m x.stream)
    else
      (w.streams[x.stream]?.bind (·.read?)).map fun (stream, r) =>
        let w := w.setStream x.stream stream
        match x.state.intake r with
        | .finish cause => (w.endSession m cause).stopDispatch m x.stream
        | .goOn state none => (w.setSession m state, some (.dispatch m))
        | .goOn state (some (id, reason)) =>
          ((w.setSession m state).tellAbort m id reason, some (.dispatch m))

/-- Moves a message of a session on. -/
def sendMessage? (w : World) (m : SessionId) (o : Session.Outgoing) :
    Option (World × Session.Outgoing.Progress) :=
  match w.sessions[m]? with
  | none => none
  | some x =>
    match w.streams[x.stream]? with
    | none => none
    | some stream =>
      (o.step? x.state stream).map fun (state, stream, progress) =>
        ((w.setSession m state).setStream x.stream stream, progress)

/-- One step of telling the peer of an abort. Its outcome matters to the peer only. -/
def tellStep? (w : World) (m : SessionId) (o : Session.Outgoing) : Option Move :=
  (w.sendMessage? m o).map fun
    | (w, .goOn o) => (w, some (.tell m o))
    | (w, .settled _) => (w.modifySession m fun x => { x with aborts := x.aborts - 1 }, none)

/-- Whether anything still uses a session. -/
def Multiplex.used (x : Multiplex) : Bool :=
  x.held || x.reading || 0 < x.aborts || x.state.conns.any (0 < ·.users)

/-- Lets go of the stream of a session that nothing uses any more. -/
def releaseStep? (w : World) (m : SessionId) : Option Move :=
  match w.sessions[m]? with
  | none => some (w, none)
  | some x =>
    if x.used then none
    else some ((w.modifySession m fun x => { x with released := true }).dropUser x.stream, none)

end Tether.World
