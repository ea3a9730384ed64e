import Tether.Proofs.Link.Pipe
import Tether.Proofs.Link.Traffic

/-!
# What each operation of a network touches

Cuts and the dropping of halves let pipes fade and touch nothing else, however many pipes they reach.
A send touches the pipe that it is on, and draws from the generator of one switch; a reception touches
its pipe alone. No operation gives a pipe another switch, and no pipe is ever taken away.
-/

namespace Tether.Link.Network

variable {n n' n'' : Network}

/-- The switch of a pipe, if there is such a pipe. -/
def wire? (n : Network) (id : PipeId) : Option (Option FaultsId) :=
  n.cables[id]?.map (·.faults)

/-- A pipe by its handle. Where there is none yet, it is the pipe that will be laid. -/
def pipeAt (n : Network) (id : PipeId) : Pipe :=
  (n.pipe? id).getD {}

theorem pipeAt_eq {id : PipeId} {p : Pipe} (known : n.pipe? id = some p) : n.pipeAt id = p :=
  congrArg (·.getD {}) known

/-! ## Changing one pipe -/

theorem cables_modifyPipe (n : Network) (id : PipeId) (f : Pipe → Pipe) (i : PipeId) :
    (n.modifyPipe id f).cables[i]? =
      n.cables[i]?.map fun c => { c with pipe := if id = i then f c.pipe else c.pipe } := by
  simp only [modifyPipe, Array.getElem?_modify]
  split
  · rfl
  · exact Option.map_id'.symm

@[simp]
theorem pipe?_modifyPipe (n : Network) (id : PipeId) (f : Pipe → Pipe) (i : PipeId) :
    (n.modifyPipe id f).pipe? i = (n.pipe? i).map fun p => if id = i then f p else p := by
  simp only [pipe?, cables_modifyPipe, Option.map_map]
  rfl

@[simp]
theorem wire?_modifyPipe (n : Network) (id : PipeId) (f : Pipe → Pipe) (i : PipeId) :
    (n.modifyPipe id f).wire? i = n.wire? i := by
  simp only [wire?, cables_modifyPipe, Option.map_map]
  rfl

theorem isSome_wire? (n : Network) (id : PipeId) : (n.wire? id).isSome = (n.pipe? id).isSome := by
  rw [wire?, pipe?, Option.isSome_map, Option.isSome_map]

theorem pipeAt_put {id : PipeId} {p : Pipe} (known : n.pipe? id = some p) (q : Pipe) (i : PipeId) :
    (n.modifyPipe id fun _ => q).pipeAt i = if id = i then q else n.pipeAt i := by
  simp only [pipeAt, pipe?_modifyPipe]
  split
  · next same => rw [← same, known]; rfl
  · rw [Option.map_id']

theorem isCut_eq (n : Network) (id : PipeId) : n.isCut id = (n.pipeAt id).cut := by
  unfold isCut pipeAt
  cases n.pipe? id <;> rfl

theorem queue_eq (n : Network) (e : End) : n.queue e = ((n.pipeAt e.pipe).incoming e.side).queue := by
  unfold queue pipeAt
  cases n.pipe? e.pipe with
  | none => obtain ⟨pipe, _ | _⟩ := e <;> rfl
  | some p => rfl

theorem isCut_cut (n : Network) (id : PipeId) : (n.cut id).isCut id = (n.pipe? id).isSome := by
  rw [isCut, cut, pipe?_modifyPipe]
  cases n.pipe? id with
  | none => rfl
  | some p => rw [Option.map_some, if_pos rfl]; rfl

/-! ## Fading -/

/-- What becomes of a network while its pipes only fade. -/
structure Fades (n n' : Network) : Prop where
  others : n' = { n with cables := n'.cables }
  pipes : ∀ id : PipeId, ∃ f : Pipe → Pipe, (∀ p : Pipe, p.Fades (f p)) ∧
    n'.cables[id]? = n.cables[id]?.map fun c : Cable => { c with pipe := f c.pipe }

namespace Fades

theorem refl (n : Network) : n.Fades n :=
  ⟨rfl, fun _ => ⟨id, fun _ => .rests, Option.map_id'.symm⟩⟩

theorem trans (first : n.Fades n') (second : n'.Fades n'') : n.Fades n'' := by
  refine ⟨second.others.trans (by rw [first.others]), fun id => ?_⟩
  obtain ⟨f, fades, eq⟩ := first.pipes id
  obtain ⟨g, fades', eq'⟩ := second.pipes id
  refine ⟨g ∘ f, fun p => (fades p).trans (fades' _), ?_⟩
  rw [eq', eq, Option.map_map]
  rfl

theorem modifyPipe (n : Network) (id : PipeId) {f : Pipe → Pipe} (fades : ∀ p : Pipe, p.Fades (f p)) :
    n.Fades (n.modifyPipe id f) := by
  refine ⟨rfl, fun i => ⟨fun p => if id = i then f p else p, fun p => ?_, n.cables_modifyPipe id f i⟩⟩
  dsimp only
  split
  · exact fades p
  · exact .rests

theorem foldl {α : Type} {f : Network → α → Network}
    (step : ∀ (n : Network) (a : α), n.Fades (f n a)) (l : List α)
    (n : Network) : n.Fades (l.foldl f n) :=
  List.foldlRecOn l f (refl n) fun _ h a _ => h.trans (step _ a)

theorem cut (n : Network) (id : PipeId) : n.Fades (n.cut id) :=
  modifyPipe n id fun _ => .cuts .rests

theorem dropSender (n : Network) (e : End) : n.Fades (n.dropSender e) :=
  modifyPipe n e.pipe fun _ => .dropsSender e.side .rests

theorem dropReceiver (n : Network) (e : End) : n.Fades (n.dropReceiver e) :=
  modifyPipe n e.pipe fun _ => .dropsReceiver e.side .rests

theorem dropEnd (n : Network) (e : End) : n.Fades (n.dropEnd e) :=
  modifyPipe n e.pipe fun p => Pipe.Fades.dropEnd p e.side

variable {id : PipeId}

theorem wire? (h : n.Fades n') (id : PipeId) : n'.wire? id = n.wire? id := by
  obtain ⟨f, -, eq⟩ := h.pipes id
  simp only [Network.wire?, eq, Option.map_map]
  rfl

theorem pipe? (h : n.Fades n') (id : PipeId) :
    ∃ f : Pipe → Pipe, (∀ p : Pipe, p.Fades (f p)) ∧ n'.pipe? id = (n.pipe? id).map f := by
  obtain ⟨f, fades, eq⟩ := h.pipes id
  refine ⟨f, fades, ?_⟩
  simp only [Network.pipe?, eq, Option.map_map]
  rfl

theorem pipeAt (h : n.Fades n') (id : PipeId) : (n.pipeAt id).Fades (n'.pipeAt id) := by
  obtain ⟨f, fades, eq⟩ := h.pipe? id
  simp only [Network.pipeAt, eq]
  cases n.pipe? id with
  | none => exact .rests
  | some p => exact fades p

end Fades

/-! ## Sending and receiving -/

/-- What a switch lets sends fail by, if there is such a switch: the answers of its generator, and how
likely it makes them. -/
def rate? (n : Network) (k : FaultsId) : Option ((Rat → Nat → Bool) × Rat) :=
  n.switches[k]?.map fun f => (f.answers, f.probability)

/-- The network after chance was asked about a pipe. It is not asked about one that is cut. -/
def drawn (n : Network) (id : PipeId) : Network :=
  match n.cables[id]? with
  | some c => if c.pipe.cut then n else (n.roll c.faults).1
  | none => n

theorem roll_others (n : Network) (faults : Option FaultsId) :
    (n.roll faults).1 = { n with switches := (n.roll faults).1.switches } := by
  unfold roll
  split
  · rfl
  · split <;> rfl

theorem drawn_others (n : Network) (id : PipeId) :
    n.drawn id = { n with switches := (n.drawn id).switches } := by
  unfold drawn
  split
  · split
    · rfl
    · exact n.roll_others _
  · rfl

@[simp]
theorem pipe?_drawn (n : Network) (id i : PipeId) : (n.drawn id).pipe? i = n.pipe? i := by
  rw [drawn_others]
  rfl

@[simp]
theorem pipeAt_drawn (n : Network) (id i : PipeId) : (n.drawn id).pipeAt i = n.pipeAt i := by
  rw [drawn_others]
  rfl

/-- A roll changes no likelihood. -/
theorem fst_roll (f : Faults) : f.roll.1 = { f with asked := f.roll.1.asked } := by
  unfold Faults.roll
  split <;> rfl

theorem rate?_roll (n : Network) (faults : Option FaultsId) (k : FaultsId) :
    (n.roll faults).1.rate? k = n.rate? k := by
  unfold roll
  split
  · rfl
  · next id =>
    split
    · rfl
    · next f switch =>
      simp only [rate?, Array.set!_eq_setIfInBounds, Array.getElem?_setIfInBounds]
      split
      · next eq =>
        subst eq
        rw [switch]
        split
        · exact congrArg some (by rw [fst_roll])
        · next out => exact absurd (Array.getElem?_eq_some_iff.mp switch).1 out
      · rfl

theorem rate?_drawn (n : Network) (id : PipeId) (k : FaultsId) :
    (n.drawn id).rate? k = n.rate? k := by
  unfold drawn
  split
  · split
    · rfl
    · exact n.rate?_roll _ k
  · rfl

/-- A send is a send on its pipe, when chance has been asked. -/
theorem send_eq (n : Network) (e : End) (chunk : Bytes) :
    n.send e chunk =
      match n.pipe? e.pipe with
      | none => (n, .error .closed)
      | some p =>
        let r := p.send e.side (n.strikes e.pipe) chunk
        ((n.drawn e.pipe).modifyPipe e.pipe fun _ => r.1, r.2) := by
  unfold send pipe? strikes drawn
  cases n.cables[e.pipe]? with
  | none => rfl
  | some c =>
    simp only [Option.map_some, Option.any_some]
    by_cases cut : c.pipe.cut = true
    · simp only [cut, if_true, Pipe.send]
    · simp only [cut]
      rfl

/-- A send that succeeds is one on a pipe that is not cut, that chance spares, towards a receiver that
is held. -/
theorem send_eq_ok_iff (n : Network) (e : End) (chunk : Bytes) :
    (n.send e chunk).2 = .ok () ↔
      n.isCut e.pipe = false ∧ n.strikes e.pipe = false ∧ n.holdsReceiver e.opposite = true := by
  rw [send_eq, isCut, holdsReceiver, End.opposite]
  cases n.pipe? e.pipe with
  | none => exact ⟨nofun, fun ⟨_, _, held⟩ => nomatch held⟩
  | some p =>
    rw [Option.any_some, Option.any_some, Pipe.incoming_opposite]
    exact Pipe.send_eq_ok_iff

theorem send_fault_iff {e : End} {chunk : Bytes} :
    (n.send e chunk).2 = .error (.io "pipe cut by fault injection") ↔
      n.isCut e.pipe = false ∧ n.strikes e.pipe = true := by
  rw [send_eq, isCut]
  cases known : n.pipe? e.pipe with
  | none =>
    have silent : n.strikes e.pipe = false := by
      rw [strikes, Option.map_eq_none_iff.mp known, Option.any_none]
    exact ⟨nofun, fun ⟨_, struck⟩ => by cases silent.symm.trans struck⟩
  | some p =>
    rw [Option.any_some]
    exact Pipe.send_fault_iff

/-- The network with another pipe in the place of one, after chance was asked. -/
def sentOver (n : Network) (id : PipeId) (q : Pipe) : Network :=
  (n.drawn id).modifyPipe id fun _ => q

theorem pipeAt_sentOver {id : PipeId} {p : Pipe} (known : n.pipe? id = some p) (q : Pipe)
    (i : PipeId) : (n.sentOver id q).pipeAt i = if id = i then q else n.pipeAt i :=
  (pipeAt_put ((n.pipe?_drawn id id).trans known) q i).trans (by rw [pipeAt_drawn])

/-- What a send does, and what it answers. -/
inductive Sends (n : Network) (e : End) (chunk : Bytes) : Network × Except Error Unit → Prop where
  | missing (unknown : n.pipe? e.pipe = none) : Sends n e chunk (n, .error .closed)
  /-- A send that fails cuts the pipe at most. -/
  | fails {p q : Pipe} (cause : Error) (known : n.pipe? e.pipe = some p)
      (kept : q = p ∨ q = { p with cut := true }) :
    Sends n e chunk (n.sentOver e.pipe q, .error cause)
  | succeeds {p : Pipe} (known : n.pipe? e.pipe = some p) (uncut : p.cut = false)
      (heard : (p.outgoing e.side).receiving = true) :
    Sends n e chunk
      (n.sentOver e.pipe (p.setOutgoing e.side
        { p.outgoing e.side with queue := (p.outgoing e.side).queue ++ [chunk] }), .ok ())

theorem sends_send (n : Network) (e : End) (chunk : Bytes) : n.Sends e chunk (n.send e chunk) := by
  rw [send_eq]
  cases known : n.pipe? e.pipe with
  | none => exact .missing known
  | some p =>
    dsimp only
    generalize told : p.send e.side (n.strikes e.pipe) chunk = r
    obtain ⟨q, cause | ⟨⟩⟩ := r
    · exact .fails cause known ((Pipe.send_eq_error told).imp_right (·.2.2))
    · obtain ⟨uncut, -, heard, rfl⟩ := Pipe.send_eq_ok told
      exact .succeeds known uncut heard

/-- A send that chance lets fail cuts its pipe. -/
theorem isCut_of_fault {e : End} {chunk : Bytes}
    (struck : (n.send e chunk).2 = .error (.io "pipe cut by fault injection")) :
    (n.send e chunk).1.isCut e.pipe = true := by
  rw [isCut_eq]
  rw [send_eq] at struck ⊢
  cases known : n.pipe? e.pipe with
  | none => rw [known] at struck; cases struck
  | some p =>
    rw [known] at struck
    have put := pipeAt_sentOver known (p.send e.side (n.strikes e.pipe) chunk).1 e.pipe
    exact (congrArg Pipe.cut (put.trans (if_pos rfl))).trans (Pipe.cut_of_fault struck)

/-- A send that fails puts nothing into any queue. -/
theorem queue_of_send_error {e : End} {chunk : Bytes} {cause : Error}
    (failed : (n.send e chunk).2 = .error cause) (e' : End) :
    (n.send e chunk).1.queue e' = n.queue e' := by
  have sends := n.sends_send e chunk
  generalize n.send e chunk = outcome at sends failed ⊢
  cases sends with
  | missing => rfl
  | fails cause known kept =>
    rw [queue_eq, queue_eq, pipeAt_sentOver known]
    split
    · next same =>
      rw [← same, pipeAt_eq known]
      obtain rfl | rfl := kept
      · rfl
      · rw [Pipe.incoming_cut]
    · rfl
  | succeeds => cases failed

/-- A pipe put in its own place changes nothing. -/
theorem modifyPipe_self {id : PipeId} {p : Pipe} (known : n.pipe? id = some p) :
    (n.modifyPipe id fun _ => p) = n := by
  have same : (n.cables.modify id fun c => { c with pipe := p }) = n.cables := by
    refine Array.ext_getElem? fun i => ?_
    rw [Array.getElem?_modify]
    split
    · next eq =>
      obtain ⟨c, cable, rfl⟩ := Option.map_eq_some_iff.mp known
      rw [← eq, cable]
      rfl
    · rfl
  rw [modifyPipe, same]

/-- What a reception does, and what it answers. -/
inductive Receives (n : Network) (e : End) : Network × Except Error (Option Bytes) → Prop where
  /-- Without a chunk nothing changes. -/
  | nothing {r : Except Error (Option Bytes)} (none : ∀ chunk, r ≠ .ok (some chunk)) :
    Receives n e (n, r)
  | chunk {p : Pipe} {chunk : Bytes} {rest : List Bytes} (known : n.pipe? e.pipe = some p)
      (uncut : p.cut = false) (queue : (p.incoming e.side).queue = chunk :: rest) :
    Receives n e
      (n.modifyPipe e.pipe fun _ => p.setIncoming e.side { p.incoming e.side with queue := rest },
        .ok (some chunk))

theorem receives_recv? {e : End} {r : Network × Except Error (Option Bytes)}
    (taken : n.recv? e = some r) : n.Receives e r := by
  unfold recv? at taken
  split at taken
  · cases taken
  · next p known =>
    obtain ⟨⟨q, answer⟩, given, eq⟩ := Option.map_eq_some_iff.mp taken
    rw [← eq]
    have nothing (none : ∀ chunk, answer ≠ .ok (some chunk)) :
        n.Receives e (n.modifyPipe e.pipe fun _ => q, answer) := by
      rw [Pipe.recv?_eq_end given none, modifyPipe_self known]
      exact .nothing none
    rcases answer with cause | _ | chunk
    · exact nothing nofun
    · exact nothing nofun
    · obtain ⟨uncut, rest, queue, rfl⟩ := Pipe.recv?_eq_some_chunk given
      exact .chunk known uncut queue

theorem map_recv? {e : End} {p : Pipe} (known : n.pipe? e.pipe = some p) :
    (n.recv? e).map (·.2) = (p.recv? e.side).map (·.2) := by
  simp only [recv?, known, Option.map_map]
  rfl

/-- Whoever sends or receives at an end of a pipe that is cut is told so. -/
theorem told_of_isCut {e : End} (cut : n.isCut e.pipe = true) (chunk : Bytes) :
    (n.send e chunk).2 = .error (.io "pipe cut") ∧
      (n.recv? e).map (·.2) = some (.error (.io "pipe cut")) := by
  obtain ⟨p, known, cut⟩ := (Option.any_eq_true _ _).mp cut
  constructor
  · rw [send_eq, known]
    simp only [Pipe.send, cut, if_true]
  · rw [map_recv? known, Pipe.map_recv?, if_pos cut]

/-! ## Many pipes at once -/

/-- Cuts a pipe and counts it, if a cut would be felt. -/
def cutLive (state : Network × Nat) (entry : String × PipeId) : Network × Nat :=
  if state.1.live entry.2 then (state.1.cut entry.2, state.2 + 1) else state

theorem cutAll_eq (n : Network) :
    n.cutAll = n.dialed.foldl cutLive ({ n with dialed := [] }, 0) :=
  rfl

theorem foldl_cutLive_fades (entries : List (String × PipeId)) (state : Network × Nat) :
    state.1.Fades (entries.foldl cutLive state).1 := by
  induction entries generalizing state with
  | nil => exact .refl _
  | cons entry rest ih =>
    refine .trans ?_ (ih (cutLive state entry))
    unfold cutLive
    split
    · exact .cut _ _
    · exact .refl _

theorem cutAll_fades (n : Network) : { n with dialed := [] }.Fades n.cutAll.1 :=
  foldl_cutLive_fades n.dialed ({ n with dialed := [] }, 0)

/-- The network after a kill, but for the cuts. -/
def bury (n : Network) (addr : String) : Network :=
  { n with
    gone := addr :: n.gone
    listeners := n.listeners.filter fun entry => entry.1 ≠ addr
    dialed := n.dialed.filter fun entry => entry.1 ≠ addr }

theorem kill_fades (n : Network) (addr : String) : (n.bury addr).Fades (n.kill addr) :=
  .foldl (fun n (entry : String × PipeId) => .cut n entry.2) _ _

theorem dropSocket_eq (n : Network) (socket : SocketId) :
    ∃ n' sockets, n.Fades n' ∧ n.dropSocket socket = { n' with sockets } := by
  unfold dropSocket
  split
  · exact ⟨n, n.sockets, .refl n, rfl⟩
  · next s _ =>
    exact ⟨_, _, .foldl (fun n pipe => .dropEnd n ⟨pipe, .far⟩) s.waiting n, rfl⟩

/-! ## Dialing, listening and accepting -/

/-- The network after a dial that made a pipe. -/
def dialedTo (n : Network) (addr : String) (sockets : Array Socket) : Network :=
  { n with
    dials := n.dials + 1
    cables := n.cables.push ⟨{}, n.faults⟩
    sockets
    dialed := (n.dialed.filter fun entry => (n.lay n.faults).1.held entry.2) ++
      [(addr, n.cables.size)] }

/-- What a dial does, and what it answers. -/
inductive Dials (n : Network) (addr : String) : Network × Except Error PipeId → Prop where
  | gone (killed : addr ∈ n.gone) :
    Dials n addr ({ n with dials := n.dials + 1 }, .error (.gone addr))
  /-- A dial that fails for now may find that nobody listens any more. -/
  | fails {listeners : List (String × SocketId)} (detail : String) (alive : addr ∉ n.gone)
      (known : ∀ a, n.listeners.lookup a = none → listeners.lookup a = none) :
    Dials n addr ({ n with dials := n.dials + 1, listeners }, .error (.io detail))
  | lays (sockets : Array Socket) (alive : addr ∉ n.gone) :
    Dials n addr (n.dialedTo addr sockets, .ok n.cables.size)

theorem lookup_filter_eq_none {listeners : List (String × SocketId)} {a : String}
    (unknown : listeners.lookup a = none) (p : String × SocketId → Bool) :
    (listeners.filter p).lookup a = none := by
  rw [List.lookup_eq_none_iff] at unknown ⊢
  exact fun entry mem => unknown entry (List.mem_filter.mp mem).1

theorem lookup_filter_ne (listeners : List (String × SocketId)) (a : String) :
    (listeners.filter fun entry => entry.1 ≠ a).lookup a = none := by
  rw [List.lookup_eq_none_iff]
  intro entry mem
  exact bne_iff_ne.mpr (Ne.symm (of_decide_eq_true (List.mem_filter.mp mem).2))

theorem dials_dial (n : Network) (addr : String) : n.Dials addr (n.dial addr) := by
  unfold dial
  dsimp only
  split
  · next killed => exact .gone killed
  · next alive =>
    split
    · exact .fails _ alive fun _ => id
    · split
      · exact .fails _ alive fun _ => id
      · split
        · exact .lays _ alive
        · exact .fails _ alive fun a unknown => lookup_filter_eq_none unknown _

/-- The network after someone began to listen on an address. -/
def opened (n : Network) (addr : String) : Network :=
  { n with
    gone := n.gone.filter (· ≠ addr)
    sockets := n.sockets.push { addr }
    listeners := (addr, n.sockets.size) :: n.listeners.filter fun entry => entry.1 ≠ addr }

/-- What listening does, and what it answers. -/
inductive Listens (n : Network) (addr : String) : Network × Except Error SocketId → Prop where
  | inUse {socket : SocketId} (detail : String) (known : n.listeners.lookup addr = some socket) :
    Listens n addr (n, .error (.io detail))
  | opens : Listens n addr (n.opened addr, .ok n.sockets.size)

theorem listens_listen (n : Network) (addr : String) : n.Listens addr (n.listen addr) := by
  unfold listen
  split
  · next used =>
    obtain ⟨socket, known, -⟩ := (Option.any_eq_true _ _).mp used
    exact .inUse _ known
  · exact .opens

theorem accept?_others {socket : SocketId} {r : Except Error PipeId}
    (accepted : n.accept? socket = some (n', r)) : n' = { n with sockets := n'.sockets } := by
  unfold accept? at accepted
  split at accepted
  · cases accepted
    rfl
  · split at accepted
    · cases accepted
      rfl
    · split at accepted <;> cases accepted
      rfl

/-! ## Failures -/

theorem heal_others (n : Network) : n.heal = { n with switches := n.heal.switches } := by
  unfold heal
  split <;> rfl

/-! ## Switches of pipes -/

theorem wire?_push {id : PipeId} {w : Option FaultsId} (known : n.wire? id = some w) (c : Cable) :
    { n with cables := n.cables.push c }.wire? id = some w := by
  obtain ⟨cable, found, wired⟩ := Option.map_eq_some_iff.mp known
  obtain ⟨within, -⟩ := Array.getElem?_eq_some_iff.mp found
  rw [wire?, Array.getElem?_push, if_neg (Nat.ne_of_lt within), found, Option.map_some, wired]

theorem wire?_sentOver (n : Network) (id : PipeId) (q : Pipe) (i : PipeId) :
    (n.sentOver id q).wire? i = n.wire? i := by
  rw [sentOver, wire?_modifyPipe, n.drawn_others]
  rfl

/-! ## Books

Beside its pipes a network keeps books: which addresses are gone, who listens, which switch new pipes
get, how likely each switch lets a send fail, which pipes were dialed. -/

/-- Nothing is written in the books of a network. -/
structure Keeps (n n' : Network) : Prop where
  gone : n'.gone = n.gone
  listeners : n'.listeners = n.listeners
  faults : n'.faults = n.faults
  dialed : n'.dialed = n.dialed
  rates : ∀ k, n'.rate? k = n.rate? k

theorem Fades.keeps (fades : n.Fades n') : n.Keeps n' := by
  rw [fades.others]
  exact ⟨rfl, rfl, rfl, rfl, fun _ => rfl⟩

theorem keeps_sentOver (n : Network) (id : PipeId) (q : Pipe) : n.Keeps (n.sentOver id q) := by
  refine ⟨?_, ?_, ?_, ?_, fun k => n.rate?_drawn id k⟩ <;>
    (rw [sentOver, n.drawn_others]; rfl)

end Tether.Link.Network
