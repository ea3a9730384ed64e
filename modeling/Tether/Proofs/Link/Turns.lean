import Tether.Proofs.Link.Network

/-!
# What an act can do

`Turns` says once what one act of a run makes of a network and of its accounts; every law of networks
follows from its cases. Most acts leave the books of the network alone and only pass over its pipes;
listening, dialing, killing, cutting all pipes and setting the failures write in the books. No act gives
a pipe another switch or takes a pipe away.
-/

namespace Tether.Link.Traffic

/-- Whether an act leaves the books of the network alone. -/
def Act.plain : Act → Bool
  | .accept _ | .dropSocket _ | .lay | .send _ _ | .receive _ | .dropSender _ | .dropReceiver _
  | .cut _ | .setDown _ _ => true
  | .listen _ | .dial _ | .cutAll | .kill _ | .failLinks _ _ | .heal => false

/-- What an act makes of a network and its accounts when it leaves the books alone. -/
inductive Passes (t : Traffic) : Act → Traffic → Prop where
  | fades {act : Act} {n : Network} (sockets : Array Socket) (plain : act.plain = true)
      (fades : t.network.Fades n) : Passes t act { t with network := { n with sockets } }
  | lays : Passes t .lay
      { t with network := { t.network with cables := t.network.cables.push ⟨{}, none⟩ } }
  | fails {e : End} {chunk : Bytes} {p q : Pipe} (known : t.network.pipe? e.pipe = some p)
      (kept : q = p ∨ q = { p with cut := true }) :
    Passes t (.send e chunk) { t with network := t.network.sentOver e.pipe q }
  | sends {e : End} {chunk : Bytes} {p : Pipe} (known : t.network.pipe? e.pipe = some p)
      (uncut : p.cut = false) (heard : (p.outgoing e.side).receiving = true) :
    Passes t (.send e chunk)
      { t with
        network := t.network.sentOver e.pipe (p.setOutgoing e.side
          { p.outgoing e.side with queue := (p.outgoing e.side).queue ++ [chunk] })
        sent := t.sent ++ [(e, chunk)] }
  | receives {e : End} {p : Pipe} {chunk : Bytes} {rest : List Bytes}
      (known : t.network.pipe? e.pipe = some p) (uncut : p.cut = false)
      (queue : (p.incoming e.side).queue = chunk :: rest) :
    Passes t (.receive e)
      { t with
        network := t.network.modifyPipe e.pipe fun _ =>
          p.setIncoming e.side { p.incoming e.side with queue := rest }
        received := t.received ++ [(e, chunk)] }
  | setsDown (addr : String) (down : Bool) :
    Passes t (.setDown addr down) { t with network := t.network.setDown addr down }

/-- What one act can make of a network and its accounts. -/
inductive Turns (t : Traffic) : Act → Traffic → Prop where
  | passes {act : Act} {t' : Traffic} (passes : t.Passes act t') : Turns t act t'
  | isInUse {addr : String} {socket : SocketId}
      (known : t.network.listeners.lookup addr = some socket) : Turns t (.listen addr) t
  | listens (addr : String) : Turns t (.listen addr) { t with network := t.network.opened addr }
  /-- A dial that fails may find that nobody listens any more. -/
  | isRefused {addr : String} {listeners : List (String × SocketId)}
      (known : ∀ a, t.network.listeners.lookup a = none → listeners.lookup a = none) :
    Turns t (.dial addr)
      { t with network := { t.network with dials := t.network.dials + 1, listeners } }
  | dials (addr : String) (sockets : Array Socket) :
    Turns t (.dial addr)
      { t with
        network := t.network.dialedTo addr sockets
        dialed := t.dialed ++ [(addr, t.network.cables.size)] }
  | cutsAll : Turns t .cutAll { t with network := t.network.cutAll.1 }
  | kills (addr : String) : Turns t (.kill addr) { t with network := t.network.kill addr }
  | failsLinks (seed : UInt64) (odds : Odds) :
    Turns t (.failLinks seed odds) { t with network := t.network.failLinks t.chance seed odds }
  | heals : Turns t .heal { t with network := t.network.heal }

variable {t t' : Traffic} {n : Network} {act : Act}

theorem passes_rests (plain : act.plain = true) : t.Passes act t :=
  .fades t.network.sockets plain (.refl _)

theorem passes_fades (plain : act.plain = true) (fades : t.network.Fades n) :
    t.Passes act { t with network := n } :=
  .fades n.sockets plain fades

theorem turns_listen (t : Traffic) (addr : String) :
    t.Turns (.listen addr) (t.step (.listen addr)) := by
  have listens := t.network.listens_listen addr
  simp only [step]
  generalize t.network.listen addr = outcome at listens ⊢
  cases listens with
  | inUse detail known => exact .isInUse known
  | opens => exact .listens addr

theorem turns_dial (t : Traffic) (addr : String) : t.Turns (.dial addr) (t.dial addr) := by
  have dials := t.network.dials_dial addr
  unfold dial
  generalize t.network.dial addr = outcome at dials ⊢
  cases dials with
  | gone => exact .isRefused fun _ => id
  | fails _ _ known => exact .isRefused known
  | lays sockets => exact .dials addr sockets

theorem passes_accept (t : Traffic) (socket : SocketId) :
    t.Passes (.accept socket) (t.accept socket) := by
  unfold accept
  split
  · next accepted =>
    rw [Network.accept?_others accepted]
    exact .fades _ rfl (.refl _)
  · exact passes_rests rfl

theorem passes_dropSocket (t : Traffic) (socket : SocketId) :
    t.Passes (.dropSocket socket) (t.step (.dropSocket socket)) := by
  obtain ⟨n, sockets, fades, eq⟩ := t.network.dropSocket_eq socket
  simp only [step, eq]
  exact .fades sockets rfl fades

theorem passes_send (t : Traffic) (e : End) (chunk : Bytes) :
    t.Passes (.send e chunk) (t.send e chunk) := by
  unfold send
  split
  · have sends := t.network.sends_send e chunk
    generalize t.network.send e chunk = outcome at sends ⊢
    cases sends with
    | missing => exact passes_rests rfl
    | fails _ known kept => exact .fails known kept
    | succeeds known uncut heard => exact .sends known uncut heard
  · exact passes_rests rfl

theorem passes_receive (t : Traffic) (e : End) : t.Passes (.receive e) (t.receive e) := by
  unfold receive
  split
  · cases taken : t.network.recv? e with
    | none => exact passes_rests rfl
    | some outcome =>
      cases Network.receives_recv? taken with
      | nothing none =>
        split
        · next same => exact absurd (congrArg Prod.snd (Option.some.inj same)) (none _)
        · next same => cases same; exact passes_rests rfl
        · next same => cases same
      | chunk known uncut queue => exact .receives known uncut queue
  · exact passes_rests rfl

theorem turns_step (t : Traffic) (act : Act) : t.Turns act (t.step act) := by
  cases act with
  | listen addr => exact t.turns_listen addr
  | dial addr => exact t.turns_dial addr
  | accept socket => exact .passes (t.passes_accept socket)
  | dropSocket socket => exact .passes (t.passes_dropSocket socket)
  | lay => exact .passes .lays
  | send e chunk => exact .passes (t.passes_send e chunk)
  | receive e => exact .passes (t.passes_receive e)
  | dropSender e => exact .passes (passes_fades rfl (.dropSender _ e))
  | dropReceiver e => exact .passes (passes_fades rfl (.dropReceiver _ e))
  | cut pipe => exact .passes (passes_fades rfl (.cut _ pipe))
  | cutAll => exact .cutsAll
  | setDown addr down => exact .passes (.setsDown addr down)
  | kill addr => exact .kills addr
  | failLinks seed odds => exact .failsLinks seed odds
  | heal => exact .heals

/-! ## What the acts keep -/

/-- A pipe keeps its switch. -/
theorem wire?_step {id : PipeId} {w : Option FaultsId} (known : t.network.wire? id = some w)
    (act : Act) : (t.step act).network.wire? id = some w := by
  have turns := t.turns_step act
  generalize t.step act = t' at turns ⊢
  cases turns with
  | passes passes =>
    cases passes with
    | fades _ _ fades => exact (fades.wire? id).trans known
    | lays => exact Network.wire?_push known _
    | fails | sends => exact (Network.wire?_sentOver _ _ _ _).trans known
    | receives => exact (Network.wire?_modifyPipe _ _ _ _).trans known
    | setsDown => exact known
  | dials => exact Network.wire?_push known _
  | cutsAll => exact (t.network.cutAll_fades.wire? id).trans known
  | kills addr => exact ((t.network.kill_fades addr).wire? id).trans known
  | heals => rw [t.network.heal_others]; exact known
  | isInUse | listens | isRefused | failsLinks => exact known

/-- A pipe is never taken away. -/
theorem isSome_pipe?_step {id : PipeId} (laid : (t.network.pipe? id).isSome) (act : Act) :
    ((t.step act).network.pipe? id).isSome := by
  rw [← Network.isSome_wire?] at laid ⊢
  obtain ⟨w, known⟩ := Option.isSome_iff_exists.mp laid
  rw [wire?_step known act]
  rfl

theorem Passes.plain (passes : t.Passes act t') : act.plain = true := by
  cases passes with
  | fades _ plain => exact plain
  | _ => rfl

theorem Passes.keeps (passes : t.Passes act t') :
    t.network.Keeps t'.network ∧ t'.dialed = t.dialed := by
  cases passes with
  | fades sockets _ fades => exact ⟨{ fades.keeps with }, rfl⟩
  | fails | sends => exact ⟨Network.keeps_sentOver _ _ _, rfl⟩
  | lays | receives | setsDown => exact ⟨⟨rfl, rfl, rfl, rfl, fun _ => rfl⟩, rfl⟩

end Tether.Link.Traffic
