import Tether.Proofs.Link.Turns

/-!
# First in, first out

A pipe of a network, whatever is done in the network, only ever fades, takes in a chunk at the back of
a queue while it is not cut, or gives out the one at the front. So what an end has received and what
still waits for it are together what the other end has sent, in order, as long as the receiving half is
held; and a beginning of that ever after. On a pipe that is cut nothing moves any more.
-/

namespace Tether.Link

/-- A pipe, with what each end sent over it with success and what each end received. -/
structure Freight where
  pipe : Pipe
  sent : Side → List Bytes
  received : Side → List Bytes

namespace Freight

/-- One more chunk in the account of an end. -/
def extend (account : Side → List Bytes) (side : Side) (chunk : Bytes) (s : Side) : List Bytes :=
  if s = side then account s ++ [chunk] else account s

variable {account : Side → List Bytes} {side : Side} {chunk : Bytes}

@[simp]
theorem extend_same : extend account side chunk side = account side ++ [chunk] :=
  if_pos rfl

@[simp]
theorem extend_opposite : extend account side chunk side.opposite = account side.opposite :=
  if_neg (by cases side <;> nofun)

/-- What one act can make of a pipe and its accounts. -/
inductive Moves (f : Freight) : Freight → Prop where
  | fades {p : Pipe} (fades : f.pipe.Fades p) : Moves f { f with pipe := p }
  | sends (side : Side) (chunk : Bytes) (uncut : f.pipe.cut = false)
      (heard : (f.pipe.outgoing side).receiving = true) :
    Moves f
      { f with
        pipe := f.pipe.setOutgoing side
          { f.pipe.outgoing side with queue := (f.pipe.outgoing side).queue ++ [chunk] }
        sent := extend f.sent side chunk }
  | receives (side : Side) {chunk : Bytes} {rest : List Bytes} (uncut : f.pipe.cut = false)
      (queue : (f.pipe.incoming side).queue = chunk :: rest) :
    Moves f
      { f with
        pipe := f.pipe.setIncoming side { f.pipe.incoming side with queue := rest }
        received := extend f.received side chunk }

/-- What waits for an end carries on what it has received, in the order of the other end's sends. -/
structure InOrder (f : Freight) : Prop where
  carriesOn : ∀ side,
    f.received side ++ (f.pipe.incoming side).queue <+: f.sent side.opposite
  /-- Nothing is lost while the receiving half is held. -/
  whole : ∀ side, (f.pipe.incoming side).receiving = true →
    f.received side ++ (f.pipe.incoming side).queue = f.sent side.opposite

variable {f g : Freight}

/-- What one act makes of a pipe keeps the order. -/
theorem InOrder.moves (h : f.InOrder) (moves : f.Moves g) : g.InOrder := by
  cases moves with
  | fades fades =>
    refine ⟨fun side => ?_, fun side receiving => ?_⟩
    · obtain ⟨same, -⟩ | ⟨lost, -⟩ := fades.queue side
      · exact same ▸ h.carriesOn side
      · rw [lost, List.append_nil]
        exact (List.prefix_append _ _).trans (h.carriesOn side)
    · obtain ⟨same, held⟩ | ⟨-, dropped⟩ := fades.queue side
      · exact same ▸ h.whole side (held receiving)
      · cases dropped.symm.trans receiving
  | sends side chunk uncut heard =>
    -- The chunk stands last in the queue and last in the account.
    have whole := h.whole side.opposite
    rw [Pipe.incoming_opposite, Side.opposite_opposite] at whole
    have whole' : f.received side.opposite ++ ((f.pipe.outgoing side).queue ++ [chunk]) =
        f.sent side ++ [chunk] := by
      rw [← whole heard, List.append_assoc]
    refine ⟨fun s => ?_, fun s receiving => ?_⟩ <;> obtain rfl | rfl := side.eq_or_eq_opposite s
    · simpa using h.carriesOn s
    · simp [whole']
    · simpa using h.whole s (by simpa using receiving)
    · simp [whole']
  | @receives side chunk rest uncut queue =>
    -- The chunk leaves the queue for the account behind which the queue stands.
    have moved (s : Side) : extend f.received side chunk s ++
        ((f.pipe.setIncoming side { f.pipe.incoming side with queue := rest }).incoming s).queue =
          f.received s ++ (f.pipe.incoming s).queue := by
      obtain rfl | rfl := side.eq_or_eq_opposite s
      · simp [queue]
      · simp
    refine ⟨fun s => ?_, fun s receiving => ?_⟩
    · rw [moved]
      exact h.carriesOn s
    · rw [moved]
      refine h.whole s ?_
      obtain rfl | rfl := side.eq_or_eq_opposite s
      · simpa using receiving
      · simpa using receiving

theorem Moves.cut (moves : f.Moves g) (cut : f.pipe.cut = true) : g.pipe.cut = true := by
  cases moves with
  | fades fades => exact fades.cut cut
  | sends side chunk uncut heard => cases uncut.symm.trans cut
  | receives side uncut queue => cases uncut.symm.trans cut

/-- On a pipe that is cut nothing moves. -/
theorem Moves.still (moves : f.Moves g) (cut : f.pipe.cut = true) :
    g.sent = f.sent ∧ g.received = f.received := by
  cases moves with
  | fades fades => exact ⟨rfl, rfl⟩
  | sends side chunk uncut heard => cases uncut.symm.trans cut
  | receives side uncut queue => cases uncut.symm.trans cut

/-- Nobody comes to hold a pipe that nobody held. -/
theorem Moves.held (moves : f.Moves g) (held : g.pipe.held = true) : f.pipe.held = true := by
  cases moves with
  | fades fades => exact fades.held held
  | sends side chunk uncut heard =>
    refine Pipe.held_of_halves ?_ ?_ held <;> cases side <;> rintro (_ | _) <;> exact id
  | receives side uncut queue =>
    refine Pipe.held_of_halves ?_ ?_ held <;> cases side <;> rintro (_ | _) <;> exact id

end Freight

namespace Traffic

/-! ## The pipes of a network -/

/-- A pipe of a network with its accounts. -/
def freight (t : Traffic) (id : PipeId) : Freight where
  pipe := t.network.pipeAt id
  sent side := t.sentFrom ⟨id, side⟩
  received side := t.receivedAt ⟨id, side⟩

theorem chunksAt_append (account : List (End × Bytes)) (e : End) (chunk : Bytes) :
    (fun side => chunksAt (account ++ [(e, chunk)]) ⟨e.pipe, side⟩) =
      Freight.extend (fun side => chunksAt account ⟨e.pipe, side⟩) e.side chunk := by
  funext side
  obtain ⟨pipe, own⟩ := e
  unfold Freight.extend chunksAt
  by_cases same : side = own
  · simp [same]
  · simp [same, Ne.symm same]

theorem chunksAt_append_of_ne (account : List (End × Bytes)) {e : End} {id : PipeId}
    (other : e.pipe ≠ id) (chunk : Bytes) (side : Side) :
    chunksAt (account ++ [(e, chunk)]) ⟨id, side⟩ = chunksAt account ⟨id, side⟩ := by
  have ne : e ≠ ⟨id, side⟩ := fun same => other (congrArg End.pipe same)
  simp [chunksAt, ne]

variable {t : Traffic} {n : Network} {id : PipeId}

theorem moves_of_pipe (same : n.pipeAt id = t.network.pipeAt id) :
    (t.freight id).Moves ({ t with network := n }.freight id) :=
  .fades (same ▸ .rests)

/-- A pipe that is laid is what it was taken for before. -/
theorem pipeAt_push (n : Network) (faults : Option FaultsId) (id : PipeId) :
    { n with cables := n.cables.push ⟨{}, faults⟩ }.pipeAt id = n.pipeAt id := by
  simp only [Network.pipeAt, Network.pipe?, Array.getElem?_push]
  split
  · next new => simp [new]
  · rfl

theorem moves_fails {e : End} {p q : Pipe} (known : t.network.pipe? e.pipe = some p)
    (kept : q = p ∨ q = { p with cut := true }) (id : PipeId) :
    (t.freight id).Moves ({ t with network := t.network.sentOver e.pipe q }.freight id) := by
  refine .fades ?_
  rw [Network.pipeAt_sentOver known]
  split
  · next same =>
    rw [freight, ← same, Network.pipeAt_eq known]
    obtain rfl | rfl := kept
    · exact .rests
    · exact .cuts .rests
  · exact .rests

theorem moves_sends {e : End} {chunk : Bytes} {p : Pipe} (known : t.network.pipe? e.pipe = some p)
    (uncut : p.cut = false) (heard : (p.outgoing e.side).receiving = true) (id : PipeId) :
    (t.freight id).Moves
      ({ t with
          network := t.network.sentOver e.pipe (p.setOutgoing e.side
            { p.outgoing e.side with queue := (p.outgoing e.side).queue ++ [chunk] })
          sent := t.sent ++ [(e, chunk)] }.freight id) := by
  have put := Network.pipeAt_sentOver known
  obtain rfl := Network.pipeAt_eq known
  by_cases same : e.pipe = id
  · subst same
    have moves := Freight.Moves.sends (f := t.freight e.pipe) e.side chunk uncut heard
    simp only [freight, sentFrom, put, if_true, chunksAt_append] at moves ⊢
    exact moves
  · simp only [freight, sentFrom, put, if_neg same, chunksAt_append_of_ne t.sent same]
    exact .fades .rests

theorem moves_receives {e : End} {chunk : Bytes} {rest : List Bytes} {p : Pipe}
    (known : t.network.pipe? e.pipe = some p) (uncut : p.cut = false)
    (queue : (p.incoming e.side).queue = chunk :: rest) (id : PipeId) :
    (t.freight id).Moves
      ({ t with
          network := t.network.modifyPipe e.pipe fun _ =>
            p.setIncoming e.side { p.incoming e.side with queue := rest }
          received := t.received ++ [(e, chunk)] }.freight id) := by
  have put := Network.pipeAt_put known
  obtain rfl := Network.pipeAt_eq known
  by_cases same : e.pipe = id
  · subst same
    have moves := Freight.Moves.receives (f := t.freight e.pipe) e.side uncut queue
    simp only [freight, receivedAt, put, if_true, chunksAt_append] at moves ⊢
    exact moves
  · simp only [freight, receivedAt, put, if_neg same, chunksAt_append_of_ne t.received same]
    exact .fades .rests

theorem Passes.moves {t' : Traffic} {act : Act} (passes : t.Passes act t') (id : PipeId) :
    (t.freight id).Moves (t'.freight id) := by
  cases passes with
  | fades sockets _ fades => exact .fades (fades.pipeAt id)
  | lays => exact moves_of_pipe (pipeAt_push t.network none id)
  | fails known kept => exact moves_fails known kept id
  | sends known uncut heard => exact moves_sends known uncut heard id
  | receives known uncut queue => exact moves_receives known uncut queue id
  | setsDown => exact moves_of_pipe rfl

/-- Whatever is done in a network is one move of each of its pipes. -/
theorem moves_step (t : Traffic) (act : Act) (id : PipeId) :
    (t.freight id).Moves ((t.step act).freight id) := by
  have turns := t.turns_step act
  generalize t.step act = t' at turns ⊢
  cases turns with
  | passes passes => exact passes.moves id
  | dials => exact moves_of_pipe (pipeAt_push t.network t.network.faults id)
  | cutsAll => exact .fades (t.network.cutAll_fades.pipeAt id)
  | kills addr => exact .fades ((t.network.kill_fades addr).pipeAt id)
  | heals => exact moves_of_pipe (by rw [t.network.heal_others]; rfl)
  | isInUse | listens | isRefused | failsLinks => exact moves_of_pipe rfl

/-! ## Runs -/

theorem inOrder_run (chance : Chance) (acts : List Act) (id : PipeId) :
    (((start chance).run acts).freight id).InOrder := by
  refine run_induction (P := fun t => (t.freight id).InOrder) ⟨fun side => ?_, fun side _ => ?_⟩
    (fun t act h => h.moves (t.moves_step act id)) acts
  · cases side <;> exact List.nil_prefix
  · cases side <;> rfl

/-- A pipe that is cut stays cut, and nothing is sent or received on it any more. -/
theorem still_of_isCut (cut : t.network.isCut id = true) (more : List Act) :
    (t.run more).network.isCut id = true ∧ ((t.run more).freight id).sent = (t.freight id).sent ∧
      ((t.run more).freight id).received = (t.freight id).received := by
  simp only [Network.isCut_eq] at cut ⊢
  refine run_induction (P := fun u => (u.network.pipeAt id).cut = true ∧
    (u.freight id).sent = (t.freight id).sent ∧ (u.freight id).received = (t.freight id).received)
    ⟨cut, rfl, rfl⟩ (fun u act h => ?_) more
  have moves := u.moves_step act id
  obtain ⟨sent, received⟩ := moves.still h.1
  exact ⟨moves.cut h.1, sent.trans h.2.1, received.trans h.2.2⟩

/-! ## The law -/

/-- What a reception gives at an end whose receiving half is held, by what was sent to it. -/
theorem recv?_of_inOrder {e : End} (inOrder : (t.freight e.pipe).InOrder)
    (held : t.network.holdsReceiver e = true) (chunk : Bytes) :
    ((t.network.recv? e).map (·.2) = some (.ok (some chunk)) ↔
      t.network.isCut e.pipe = false ∧ t.receivedAt e ++ [chunk] <+: t.sentFrom e.opposite) ∧
    ((t.network.recv? e).map (·.2) = some (.ok none) ↔
      t.network.isCut e.pipe = false ∧ t.network.holdsSender e.opposite = false ∧
        t.receivedAt e = t.sentFrom e.opposite) := by
  obtain ⟨p, known, receiving⟩ := (Option.any_eq_true _ _).mp held
  obtain rfl := Network.pipeAt_eq known
  have whole : t.receivedAt e ++ ((t.network.pipeAt e.pipe).incoming e.side).queue =
      t.sentFrom e.opposite := inOrder.whole e.side receiving
  have sender : t.network.holdsSender e.opposite =
      ((t.network.pipeAt e.pipe).incoming e.side).sending := by
    unfold Network.holdsSender End.opposite
    rw [known, Option.any_some, Pipe.incoming]
  rw [Network.map_recv? known, Network.isCut_eq, sender, ← whole,
    List.prefix_append_right_inj, List.self_eq_append_right]
  exact ⟨Pipe.recv?_chunk_iff, Pipe.recv?_end_iff⟩

/-- Every pipe is first in, first out until it is cut. What an end received begins what the other end
sent with success, in order. A cut by hand or by chance is felt at both ends for ever: nothing can be
sent or received any more, so what waited is lost. At an end whose receiving half is held a reception
gives the chunk next in order, and it gives the end of the pipe when nobody can send any more and all
that was sent was received. A send that fails puts nothing into any queue. -/
theorem first_in_first_out_until_cut (chance : Chance) (acts : List Act) (e : End) (chunk : Bytes) :
    let t := (start chance).run acts
    let n := t.network
    t.receivedAt e <+: t.sentFrom e.opposite ∧
    (n.isCut e.pipe = true → ∀ more,
      let u := t.run more
      u.sentFrom e = t.sentFrom e ∧ u.receivedAt e = t.receivedAt e ∧
      (u.network.send e chunk).2 = .error (.io "pipe cut") ∧
      (u.network.recv? e).map (·.2) = some (.error (.io "pipe cut"))) ∧
    (n.cut e.pipe).isCut e.pipe = (n.pipe? e.pipe).isSome ∧
    ((n.send e chunk).2 = .error (.io "pipe cut by fault injection") →
      (n.send e chunk).1.isCut e.pipe = true) ∧
    (n.holdsReceiver e = true →
      ((n.recv? e).map (·.2) = some (.ok (some chunk)) ↔
        n.isCut e.pipe = false ∧ t.receivedAt e ++ [chunk] <+: t.sentFrom e.opposite) ∧
      ((n.recv? e).map (·.2) = some (.ok none) ↔
        n.isCut e.pipe = false ∧ n.holdsSender e.opposite = false ∧
          t.receivedAt e = t.sentFrom e.opposite)) ∧
    ((n.send e chunk).2 = .ok () ↔
      n.isCut e.pipe = false ∧ n.strikes e.pipe = false ∧ n.holdsReceiver e.opposite = true) ∧
    ∀ cause, (n.send e chunk).2 = .error cause → ∀ e', (n.send e chunk).1.queue e' = n.queue e' := by
  intro t n
  have inOrder := inOrder_run chance acts e.pipe
  refine ⟨?_, fun cut more => ?_, n.isCut_cut e.pipe, Network.isCut_of_fault,
    fun held => recv?_of_inOrder inOrder held chunk, n.send_eq_ok_iff e chunk,
    fun cause failed => Network.queue_of_send_error failed⟩
  · exact (List.prefix_append _ _).trans (inOrder.carriesOn e.side)
  · obtain ⟨still, sent, received⟩ := still_of_isCut cut more
    obtain ⟨told, told'⟩ := Network.told_of_isCut still chunk
    exact ⟨congrFun sent e.side, congrFun received e.side, told, told'⟩

end Traffic

end Tether.Link
