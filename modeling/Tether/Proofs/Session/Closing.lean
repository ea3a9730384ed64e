import Tether.Proofs.Session.Announcing
import Tether.Proofs.Session.Consent
import Tether.Proofs.Session.Lateness

/-!
# How a close surfaces

The law of closing: when the user of one side closes a connection and the peer's user does not, the
reads of the peer give all that was written to the connection and then its end. Which end that is the
order of the aborts decides: the close sets one on the way, and each payload of the peer that was in
flight may set out another. They surface as the end of the stream only if the abort of the close is
the first to ask for the turn; else the reads fail with the reason of the one that is.

The law is about runs in which neither session ends.
-/

namespace Tether.Session

/-- What the reads of the peer give behind the payloads, if the aborts of the connection asked for the
turn in this order. -/
def endings (asked : List Reason) (n : Nat) : List (Except Error (Option Bytes)) :=
  (asked.head?.map fun reason => List.replicate n reason.surface).getD []

theorem endings_zero (asked : List Reason) : endings asked 0 = [] := by
  unfold endings
  cases asked.head? <;> rfl

theorem Reason.surface_injective {reason reason' : Reason} (same : reason.surface = reason'.surface) :
    reason = reason' := by
  cases reason <;> cases reason' <;> simp_all [Reason.surface]

theorem Reason.surface_not_mem_gives (reason : Reason) (data : List Bytes) :
    reason.surface ∉ gives data := fun mem => by
  obtain ⟨payload, -, same⟩ := List.mem_map.mp mem
  cases reason <;> cases same

/-- Reads that came to the end tell which abort was the first to ask for the turn. -/
theorem surface_mem_iff {data : List Bytes} {asked : List Reason} {n : Nat}
    {answers : List (Except Error (Option Bytes))} (front : answers <+: gives data ++ endings asked n)
    (more : data.length < answers.length) (reason : Reason) :
    reason.surface ∈ answers ↔ asked.head? = some reason := by
  unfold endings at front
  constructor
  · intro mem
    have mem := (List.mem_append.mp (front.subset mem)).resolve_left (reason.surface_not_mem_gives data)
    cases first : asked.head? with
    | none =>
      rw [first] at mem
      cases mem
    | some reason' =>
      rw [first] at mem
      exact congrArg some (Reason.surface_injective (List.eq_of_mem_replicate mem)).symm
  · intro first
    rw [first, Option.map_some, Option.getD_some] at front
    have same := front.getElem more
    have beyond : (gives data).length ≤ data.length := Nat.le_of_eq (List.length_map _)
    rw [List.getElem_append_right beyond, List.getElem_replicate] at same
    exact same ▸ List.getElem_mem more

namespace Party

variable {p q : Party} {k l : ConnKey} {c : Conn} {id : ConnId} {reason : Reason}

/-- The first that the peer was told is the first that asked for the turn. -/
theorem Heads.head?_asks (h : p.Heads id) (first : (aborts id p.sent).head? = some reason) :
    (p.asks id).head? = some reason := by
  cases h with
  | silent _ sent _ => cases (sent ▸ first : ([] : List Reason).head? = _)
  | said asks sent => exact asks.trans (sent.symm.trans first)
  | leads _ sent _ => cases (sent ▸ first : ([] : List Reason).head? = _)
  | lost _ sent _ => cases (sent ▸ first : ([] : List Reason).head? = _)

/-- The first that was heard is the first that was told. -/
theorem head?_told (first : (q.told p id).head? = some reason) :
    (aborts id p.sent).head? = some reason := by
  obtain ⟨more, whole⟩ : q.told p id <+: aborts id p.sent := aborts_mono _ (List.take_prefix _ _)
  rw [← whole, List.head?_append, first]
  rfl

/-- The reads of the peer give what was written, and the end only behind all of it. -/
theorem Ends.answers_prefix (ends : q.Ends p l c) (held : l ∉ q.closes) (heads : p.Heads c.id)
    (parting : p.Parting q) (logged : p.Logged) (known : p.state.id? k = some c.id)
    (front : q.got l <+: p.written k) :
    ∃ n, q.answers l <+: gives (p.written k) ++ endings (p.asks c.id) n := by
  have payloads_only (answers : q.answers l = gives (q.got l)) :
      ∃ n, q.answers l <+: gives (p.written k) ++ endings (p.asks c.id) n :=
    ⟨0, by rw [endings_zero, List.append_nil, answers]; exact front.map _⟩
  cases said : (q.told p c.id).head? with
  | none => exact payloads_only (ends.live held (List.head?_eq_none_iff.mp said)).answers
  | some reason =>
    obtain ⟨whole, -, ⟨-, -, answers⟩ | ⟨inbox, -, n, answers⟩⟩ := ends.ended held said
    · exact payloads_only answers
    · have some' : q.told p c.id ≠ [] := fun none' => by
        rw [none'] at said
        cases said
      have got : q.got l = p.written k := by
        rw [Conn.waiting, inbox, List.filterMap_nil, List.append_nil, came, parting.order some',
          logged.said known, map_snd_numbered] at whole
        exact whole
      refine ⟨n, ?_⟩
      unfold endings
      rw [heads.head?_asks (head?_told said), answers, got]
      exact List.prefix_refl _

/-- A reader does not wait once anything of the end was heard. -/
theorem Ends.read?_ne_none (ends : q.Ends p l c) (known : q.state.conns[l]? = some c)
    (held : l ∉ q.closes) (listed : q.state.Listed) (gone : ¬q.state.Holds c.id)
    (said : q.told p c.id ≠ []) : q.state.read? l ≠ none := by
  obtain ⟨reason, rest, told⟩ := List.exists_cons_of_ne_nil said
  have first : (q.told p c.id).head? = some reason := told ▸ rfl
  obtain ⟨-, terminal, ends⟩ := ends.ended held first
  have dry : q.state.table.any (·.conn = l) = false := List.any_eq_false.mpr fun a mem here => gone
    ⟨a, mem, Option.some.inj ((of_decide_eq_true here ▸ listed.named mem).symm.trans
      (State.id?_of_getElem? known))⟩
  have answer : c.read? (q.state.table.any (·.conn = l)) ≠ none := by
    rw [dry]
    unfold Conn.read?
    obtain ⟨inbox, ended, -⟩ | ⟨inbox, -, -⟩ := ends
    · rw [ended, inbox]
      cases c.waiting with
      | nil => cases reason <;> exact Option.some_ne_none _
      | cons data more => exact Option.some_ne_none _
    · rw [inbox]
      cases c.ended <;> exact Option.some_ne_none _
  unfold State.read?
  rw [known]
  exact mt Option.map_eq_none_iff.mp answer

end Party

namespace Joined

/-- Neither session has ended, and no number has come round. -/
structure Calm (w : Joined) : Prop where
  fits : w.Fits
  alive : ∀ side, (w.party side).state.ended = none

/-- What holds all along a run in which no session ends. -/
structure Orderly (w : Joined) : Prop where
  kept : w.Kept
  parting : ∀ side, (w.party side).Parting (w.party side.peer)
  precedes : ∀ side, (w.party side).Precedes
  announces : ∀ side, (w.party side).Announces (w.party side.peer)
  ending : ∀ side, (w.party side).Ending (w.party side.peer)
  untold : ∀ side, (w.party side).Untold (w.party side.peer)

variable {w : Joined} {side : Role}

theorem Calm.of_step (event : Event) (h : (w.step event).Calm) : w.Calm :=
  ⟨h.fits.of_step, fun s => (w.lasts_step event s).state.alive (h.alive s)⟩

theorem Calm.of_run {events : List Event} (h : (w.run events).Calm) : w.Calm := by
  induction events generalizing w with
  | nil => exact h
  | cons event rest ih => exact (ih h).of_step

/-! ## What one event keeps -/

namespace Orderly

/-- One side acts. -/
theorem setParty (h : w.Orderly) {p : Party} (kept : (w.setParty side p).Kept)
    (parting : p.Parting (w.party side.peer)) (precedes : p.Precedes)
    (announces : p.Announces (w.party side.peer)) (ending : p.Ending (w.party side.peer))
    (untold : p.Untold (w.party side.peer)) (back : (w.party side.peer).Untold p)
    (sent : (w.party side).sent <+: p.sent) : (w.setParty side p).Orderly := by
  have hears := (h.kept.inOrder side.peer).hears
  have parting' := h.parting side.peer
  have announces' := h.announces side.peer
  have ending' := h.ending side.peer
  rw [Role.peer_peer] at hears parting' announces' ending'
  refine ⟨kept, fun s => ?_, fun s => ?_, fun s => ?_, fun s => ?_, fun s => ?_⟩
  · exact @forall_party_setParty w side (fun _ p q => p.Parting q) p parting
      (parting'.of_sent hears sent) s
  · exact @forall_party_setParty w side (fun _ p _ => p.Precedes) p precedes
      (h.precedes side.peer) s
  · exact @forall_party_setParty w side (fun _ p q => p.Announces q) p announces
      (announces'.of_sent hears sent) s
  · exact @forall_party_setParty w side (fun _ p q => p.Ending q) p ending
      (ending'.of_sent hears sent) s
  · exact @forall_party_setParty w side (fun _ p q => p.Untold q) p untold back s

/-- One side acts, without a new connection. -/
theorem stays (h : w.Orderly) {p : Party} (kept : (w.setParty side p).Kept)
    (grows : (w.party side).Grows p) (closes : (w.party side).closes <+: p.closes)
    (parting : p.Parting (w.party side.peer)) (precedes : p.Precedes)
    (announces : p.Announces (w.party side.peer)) (ending : p.Ending (w.party side.peer))
    (untold : p.Untold (w.party side.peer)) : (w.setParty side p).Orderly := by
  have hears := (h.kept.inOrder side.peer).hears
  have back := h.untold side.peer
  rw [Role.peer_peer] at hears back
  exact h.setParty kept parting precedes announces ending untold (back.of_peer hears grows closes)
    grows.sent

/-- Nothing that concerns messages, or the reading of connections, has changed. -/
theorem of_state (h : w.Orderly) {p : Party} (kept : (w.setParty side p).Kept)
    (grows : (w.party side).Grows p) (jobs : p.jobs = (w.party side).jobs)
    (sent : p.sent = (w.party side).sent) (asked : p.asked = (w.party side).asked)
    (stream : p.stream = (w.party side).stream) (owing : p.owing = (w.party side).owing)
    (leaving : p.leaving = (w.party side).leaving) (closes : p.closes = (w.party side).closes)
    (conns : p.state.conns = (w.party side).state.conns)
    (table : p.state.table = (w.party side).state.table) (heard : p.heard = (w.party side).heard)
    (reads : p.reads = (w.party side).reads) : (w.setParty side p).Orderly := by
  have conn (k : ConnKey) : p.state.conns[k]? = (w.party side).state.conns[k]? := by rw [conns]
  have same : (w.party side).state.SameConns p.state := fun k => congrArg _ (conn k)
  have holds (id : ConnId) : p.state.Holds id ↔ (w.party side).state.Holds id := by
    rw [State.Holds, table, State.Holds]
  have closes' : (w.party side).closes <+: p.closes := by simp only [closes, List.prefix_refl]
  have told (id : ConnId) :
      (w.party side).told (w.party side.peer) id = p.told (w.party side.peer) id := by
    rw [Party.told, Party.told, heard]
  refine h.stays kept grows closes'
    ((h.parting side).of_jobs jobs sent (by simp only [owing, List.Subset.refl]) same.ids
      (fun id => (holds id).mp) ?_)
    ((h.precedes side).of_jobs jobs sent asked stream)
    ((h.announces side).of_jobs jobs sent stream owing leaving closes
      (fun known => (same.ids _).trans known) (fun id held => .inl ((holds id).mpr held))
      fun id => told id ▸ List.prefix_refl _)
    ((h.ending side).congr same (fun id => (holds id).mp) reads closes (fun id => (told id).symm) ?_)
    ((h.untold side).of_grows grows closes' heard)
  · exact fun id some => by rwa [Party.came, heard]
  · exact fun id _ => by rw [Party.came, heard, Party.came]

theorem dial (h : w.Orderly) (fits : (w.setParty .dial w.dialing.dial).Fits) :
    (w.setParty .dial w.dialing.dial).Orderly := by
  have kept := h.kept.dial fits
  obtain same | ⟨-, same, new, unknown, silent⟩ := h.kept.dial_cases fits
  · rw [same]
    exact h
  · rw [same] at kept ⊢
    have parting : w.dialing.Parting w.accepting := h.parting .dial
    have announces : w.dialing.Announces w.accepting := h.announces .dial
    have ending : w.dialing.Ending w.accepting := h.ending .dial
    have untold : w.dialing.Untold w.accepting := h.untold .dial
    have back : w.accepting.Untold w.dialing := h.untold .accept
    exact @setParty w .dial h _ kept (parting.dials new silent) (h.precedes .dial).dials announces.dials
      (ending.dials (h.kept.inOrder .dial).sound (h.parting .accept) new unknown)
      (untold.dials unknown) (back.dials_peer unknown) (List.prefix_refl _)

theorem accept (h : w.Orderly) (kept : (w.setParty side (w.party side).accept).Kept) :
    (w.setParty side (w.party side).accept).Orderly := by
  have grows := (h.kept.inOrder side).accept.grows
  obtain same | ⟨k, rest, -, same⟩ := (w.party side).accept_cases <;> rw [same] at kept grows ⊢
  · exact h.of_state kept grows rfl rfl rfl rfl rfl rfl rfl rfl rfl rfl rfl
  · exact h.of_state kept grows rfl rfl rfl rfl rfl rfl rfl rfl rfl rfl rfl

theorem read (h : w.Orderly) (k : ConnKey) (kept : (w.setParty side ((w.party side).read k)).Kept) :
    (w.setParty side ((w.party side).read k)).Orderly := by
  have inOrder := h.kept.inOrder side
  have grows := (inOrder.read k).grows
  have lasts := Party.Lasts.read (w.party side) k
  exact h.stays kept grows lasts.closes ((h.parting side).read k) ((h.precedes side).read k)
    ((h.announces side).read k) ((h.ending side).read inOrder k)
    ((h.untold side).of_grows grows lasts.closes ((w.party side).heard_read k))

theorem close (h : w.Orderly) (k : ConnKey)
    (kept : (w.setParty side ((w.party side).finish k)).Kept) :
    (w.setParty side ((w.party side).finish k)).Orderly := by
  have inOrder := h.kept.inOrder side
  have grows := (inOrder.finish k).grows
  have lasts := Party.Lasts.finish (w.party side) k
  exact h.stays kept grows lasts.closes ((h.parting side).finish k) ((h.precedes side).finish k)
    ((h.announces side).finish inOrder.listed k) ((h.ending side).finish inOrder.sound.logged k)
    ((h.untold side).of_grows grows lasts.closes ((w.party side).heard_finish k))

theorem forget (h : w.Orderly) (id : ConnId)
    (kept : (w.setParty side ((w.party side).forget id)).Kept) :
    (w.setParty side ((w.party side).forget id)).Orderly := by
  have inOrder := h.kept.inOrder side
  have grows := (inOrder.forget id).grows
  have lasts := Party.Lasts.forget (w.party side) id
  exact h.stays kept grows lasts.closes ((h.parting side).forget inOrder id)
    ((h.precedes side).forget id) ((h.announces side).forget id) ((h.ending side).forget id)
    ((h.untold side).of_grows grows lasts.closes ((w.party side).heard_forget id))

theorem announce (h : w.Orderly) (id : ConnId)
    (kept : (w.setParty side ((w.party side).announce id)).Kept) :
    (w.setParty side ((w.party side).announce id)).Orderly := by
  have grows := ((h.kept.inOrder side).announce id).grows
  have lasts := Party.Lasts.announce (w.party side) id
  exact h.stays kept grows lasts.closes ((h.parting side).announce id)
    ((h.precedes side).announce id) ((h.announces side).announce id) ((h.ending side).announce id)
    ((h.untold side).of_grows grows lasts.closes ((w.party side).heard_announce id))

/-- Nothing that concerns the reading of connections has changed. -/
theorem of_sameReading (h : w.Orderly) {p : Party} (kept : (w.setParty side p).Kept)
    (grows : (w.party side).Grows p) (same : (w.party side).SameReading p)
    (parting : p.Parting (w.party side.peer)) (precedes : p.Precedes)
    (announces : p.Announces (w.party side.peer)) : (w.setParty side p).Orderly := by
  have closes : (w.party side).closes <+: p.closes := by simp only [same.closes, List.prefix_refl]
  exact h.stays kept grows closes parting precedes announces ((h.ending side).of_sameReading same)
    ((h.untold side).of_grows grows closes same.heard)

theorem write (h : w.Orderly) (k : ConnKey) (data : Bytes)
    (kept : (w.setParty side ((w.party side).send (.payload k data))).Kept) :
    (w.setParty side ((w.party side).send (.payload k data))).Orderly :=
  h.of_sameReading kept ((h.kept.inOrder side).send (m := .payload k data) nofun).grows
    ⟨.refl _, rfl, rfl, rfl, rfl, rfl, rfl⟩ ((h.parting side).write k data) ((h.precedes side).send _)
    ((h.announces side).send _)

theorem move (h : w.Orderly) (alive : (w.party side).state.ended = none) (i : Nat)
    (kept : (w.setParty side ((w.party side).move i)).Kept) :
    (w.setParty side ((w.party side).move i)).Orderly := by
  have inOrder := h.kept.inOrder side
  have precedes := h.precedes side
  exact h.of_sameReading kept (inOrder.move i).grows ((w.party side).sameReading_move i)
    ((h.parting side).move inOrder i) (precedes.move inOrder.sound inOrder.fair alive)
    ((h.announces side).move inOrder.sound alive precedes.roomy i)

theorem cancel (h : w.Orderly) (i : Nat) (kept : (w.setParty side ((w.party side).cancel i)).Kept) :
    (w.setParty side ((w.party side).cancel i)).Orderly :=
  h.of_sameReading kept ((h.kept.inOrder side).cancel i).grows ((w.party side).sameReading_cancel i)
    ((h.parting side).cancel i) ((h.precedes side).cancel i) ((h.announces side).cancel i)

theorem flow (h : w.Orderly) (stream : Stream.Endpoint)
    (kept : (w.setParty side ((w.party side).flow stream)).Kept) :
    (w.setParty side ((w.party side).flow stream)).Orderly := by
  have grows := ((h.kept.inOrder side).flow stream).grows
  have precedes := (h.precedes side).flow stream
  have announces := (h.announces side).flow stream
  obtain ⟨stream', same⟩ := (w.party side).flow_eq stream
  rw [same] at kept grows precedes announces ⊢
  exact h.of_sameReading kept grows ⟨.refl _, rfl, rfl, rfl, rfl, rfl, rfl⟩
    ((h.parting side).of_jobs rfl rfl (List.Subset.refl _) (fun _ => rfl) (fun _ held => held)
      fun _ some => some)
    precedes announces

/-- The next envelope of the peer is heard. -/
theorem heard (h : w.Orderly) (fits : w.Fits) {bytes : Bytes} {e : Envelope} {p : Party}
    (found : (w.party side.peer).sent[(w.party side).heard]? = some bytes)
    (read : Envelope.unpacked bytes = .ok e) (heard : (w.party side).Heard e p)
    (kept : (w.setParty side p).Kept) : (w.setParty side p).Orderly := by
  have inOrder := h.kept.inOrder side
  have first (data : Bytes) (content : e.content = .payload 0 data)
      (role : (w.party side).state.role = .accept) :
      (w.party side).came (w.party side.peer) e.conn = [] ∧
        ∀ k, (w.party side).state.id? k ≠ some e.conn := by
    cases (h.kept.role side).symm.trans role
    obtain ⟨silent, new, -⟩ := h.kept.first_of_zero fits found read content
    exact ⟨silent, new⟩
  have peer := h.parting side.peer
  have theirs := h.ending side.peer
  have back := h.untold side.peer
  rw [Role.peer_peer] at peer theirs back
  have parting := (h.parting side).hear found read heard first
  have precedes := (h.precedes side).hear heard
  have announces := (h.announces side).hear found read heard
  have ending := (h.ending side).hear inOrder peer found read heard
    fun data content role => (first data content role).2
  obtain stays | ⟨data, content, -, role, rfl⟩ :=
    inOrder.hear (h.kept.inOrder side.peer).fair found read heard
  · have closes := heard.closes
    exact h.stays kept stays.grows (by simp only [closes, List.prefix_refl]) parting precedes announces
      ending ((h.untold side).hear back (h.kept.inOrder side.peer).listed peer theirs found read
        heard.heard stays.grows.ids closes)
  · obtain ⟨silent, new⟩ := first data content role
    exact h.setParty kept parting precedes announces ending
      ((h.untold side).opens peer found read content) (back.opens_peer (h.parting side) silent new)
      (List.prefix_refl _)

theorem hear (h : w.Orderly) (fits : w.Fits) (kept : (w.hear side).Kept) : (w.hear side).Orderly := by
  unfold Joined.hear at kept ⊢
  dsimp only at kept ⊢
  split
  · next bytes found =>
    rw [found] at kept
    obtain ⟨e, read, heard⟩ := h.kept.heard found
    exact h.heard fits found read heard kept
  · exact h

/-- A session that goes on after an event was not torn down by it. -/
theorem not_teardown {cause : Codec.Error} {p : Party}
    (calm : (w.setParty side { p with state := (p.state.teardown cause).1 }).Calm) : False := by
  have alive := calm.alive side
  rw [party_setParty] at alive
  exact State.ended_teardown cause p.state alive

theorem step (h : w.Orderly) (event : Event) (calm : (w.step event).Calm) :
    (w.step event).Orderly := by
  have before := calm.of_step
  have kept := h.kept.step event before.fits calm.fits
  obtain ⟨side, act⟩ := event
  cases act with
  | dial =>
    cases side with
    | dial => exact h.dial calm.fits
    | accept =>
      rw [h.kept.step_dial_accept]
      exact h
  | accept => exact h.accept kept
  | write k data => exact h.write k data kept
  | read k => exact h.read k kept
  | close k => exact h.close k kept
  | forget id => exact h.forget id kept
  | announce id => exact h.announce id kept
  | shut => exact (not_teardown calm).elim
  | unlisten =>
    exact h.of_state kept (h.kept.inOrder side).unlisten.grows rfl rfl rfl rfl rfl rfl rfl rfl rfl rfl rfl
  | move i => exact h.move (before.alive side) i kept
  | cancel i => exact h.cancel i kept
  | hear => exact h.hear before.fits kept
  | lose cause =>
    cases cause with
    | none => exact (not_teardown calm).elim
    | some e => exact (not_teardown calm).elim
  | flow stream => exact h.flow stream kept

/-- What holds at first and is kept by every event of such a run. -/
theorem run_induction {P : Joined → Prop} (step : ∀ w event, w.Orderly → P w → P (w.step event))
    {w : Joined} {events : List Event} (h : w.Orderly) (first : P w) (calm : (w.run events).Calm) :
    (w.run events).Orderly ∧ P (w.run events) := by
  induction events generalizing w with
  | nil => exact ⟨h, first⟩
  | cons event rest ih => exact ih (h.step event (Calm.of_run calm)) (step w event h first) calm

theorem run (h : w.Orderly) {events : List Event} (calm : (w.run events).Calm) :
    (w.run events).Orderly :=
  (h.run_induction (P := fun _ => True) (fun _ _ _ _ => trivial) trivial calm).1

end Orderly

theorem orderly_start {near far : Stream.Endpoint}
    (nearRoom : Config.minFrameLength ≤ near.config.maxFrameLen)
    (farRoom : Config.minFrameLength ≤ far.config.maxFrameLen) : (start near far).Orderly := by
  have quiet (role : Role) (stream : Stream.Endpoint) (id : ConnId) :
      ¬Party.Parts { state := .new role, stream } id := fun parts => by
    obtain owes | ⟨_, _, _, known⟩ | said := parts
    · cases owes
    · cases known
    · exact said rfl
  have parting (role : Role) (stream : Stream.Endpoint) (q : Party) :
      Party.Parting { state := .new role, stream } q := by
    refine ⟨fun parts => absurd parts (quiet _ _ _), fun parts => absurd parts (quiet _ _ _), nofun,
      fun {id n} said => ?_⟩
    rw [List.take_nil] at said
    exact absurd rfl said
  have precedes (role : Role) {stream : Stream.Endpoint}
      (room : Config.minFrameLength ≤ stream.config.maxFrameLen) :
      Party.Precedes { state := .new role, stream } :=
    ⟨nofun, fun _ => .silent rfl rfl nofun, room⟩
  refine ⟨kept_start near far, fun side => ?_, fun side => ?_, fun side => ?_, fun side => ?_,
    fun side => ?_⟩
  · cases side
    · exact parting .dial near _
    · exact parting .accept far _
  · cases side
    · exact precedes .dial nearRoom
    · exact precedes .accept farRoom
  · cases side <;> exact ⟨nofun, nofun⟩
  · cases side <;> exact ⟨fun _ => rfl, fun said => absurd rfl said, nofun⟩
  · cases side <;> exact nofun

/-! ## The law -/

/-- Whether all that a side has to say of the end of a connection went out and was heard. -/
structure Settled (w : Joined) (side : Role) (id : ConnId) : Prop where
  heard : (w.party side.peer).heard = (w.party side).sent.length
  up : Party.down (w.party side).stream = false
  forgotten : id ∉ (w.party side).leaving
  announced : id ∉ (w.party side).owing
  carried : ∀ {i stage}, (w.party side).job? i ≠ some ⟨.abort id .closed, stage⟩

variable {k l : ConnKey} {id : ConnId}

/-- A connection that the peer holds and has not closed ends by a close. -/
theorem Orderly.closed_of_finished (h : w.Orderly) (finished : (w.party side).state.Finished k)
    (known : (w.party side).state.id? k = some id) (joined : (w.party side.peer).state.id? l = some id)
    (held : l ∉ (w.party side.peer).closes) : k ∈ (w.party side).closes :=
  Decidable.not_not.mp fun open' =>
    finished.not_open ((h.ending side).isOpen (h.untold side) known joined open' held)

/-- The peer was told of the end of a connection that was closed, once all went out. -/
theorem Orderly.told_of_closed (h : w.Orderly) (closed : k ∈ (w.party side).closes)
    (known : (w.party side).state.id? k = some id) (joined : (w.party side.peer).state.id? l = some id)
    (held : l ∉ (w.party side.peer).closes) (settled : w.Settled side id) :
    (w.party side.peer).told (w.party side) id ≠ [] := by
  have all : (w.party side.peer).told (w.party side) id = aborts id (w.party side).sent := by
    rw [Party.told, settled.heard, List.take_length]
  obtain ⟨leaving, -⟩ | said := (h.announces side).tells closed known
  · exact absurd leaving settled.forgotten
  cases said with
  | owing owes => exact absurd owes settled.announced
  | carried job => exact absurd job settled.carried
  | sent said => exact all ▸ said
  | lost isDown => cases settled.up.symm.trans isDown
  | told said =>
    -- The peer, which has not closed, speaks of an end only if it was told of one.
    have gone := (h.parting side.peer).shut (Party.parts_of_told said)
    have ending := h.ending side.peer
    rw [Role.peer_peer] at ending
    obtain ⟨c, conn, rfl⟩ := Option.map_eq_some_iff.mp joined
    obtain opened | closed' | told := (ending.conns conn).cause
    · exact absurd ((h.kept.inOrder side.peer).listed.holds joined ⟨c, conn, opened⟩) gone
    · exact absurd closed' held
    · exact told

/-- What the peer has of a connection that was closed. -/
theorem Orderly.surfaces (h : w.Orderly) (closed : k ∈ (w.party side).closes)
    (known : (w.party side).state.id? k = some id) (joined : (w.party side.peer).state.id? l = some id)
    (held : l ∉ (w.party side.peer).closes) :
    (∃ n, (w.party side.peer).answers l <+:
        gives ((w.party side).written k) ++ endings ((w.party side).asks id) n) ∧
      (w.Settled side id →
        (w.party side).asks id ≠ [] ∧ (w.party side.peer).state.read? l ≠ none) := by
  have front : (w.party side.peer).arrived l <+: (w.party side.peer.peer).written k :=
    h.kept.arrived_of_joins ⟨id, joined, by rwa [Role.peer_peer]⟩
  obtain ⟨c, conn, rfl⟩ := Option.map_eq_some_iff.mp joined
  have ending := h.ending side.peer
  rw [Role.peer_peer] at front ending
  have ends := ending.conns conn
  have heads := (h.precedes side).heads c.id
  have logged := (h.kept.inOrder side).sound.logged
  refine ⟨ends.answers_prefix held heads (h.parting side) logged known
    ((List.prefix_append _ _).trans front), fun settled => ?_⟩
  have told := h.told_of_closed closed known joined held settled
  obtain ⟨reason, rest, said⟩ := List.exists_cons_of_ne_nil told
  have first := heads.head?_asks (Party.head?_told (by rw [said]; rfl))
  refine ⟨fun none' => ?_,
    ends.read?_ne_none conn held (h.kept.inOrder side.peer).listed (ending.gone told) told⟩
  rw [none'] at first
  cases first

/-- What has become of a connection after a close and a run behind it. -/
theorem Orderly.close_run (h : w.Orderly) {later : List Event}
    (calm : (w.run ((side, .close k) :: later)).Calm)
    (holds : (w.party side).state.id? k ≠ none) :
    let after := w.run ((side, .close k) :: later)
    after.Orderly ∧ (after.party side).state.Finished k ∧ (w.party side).Late (after.party side) k := by
  obtain ⟨id, known⟩ := Option.ne_none_iff_exists'.mp holds
  have closed : (w.step (side, .close k)).party side = (w.party side).finish k := party_setParty _ _ _
  have finished : ((w.step (side, .close k)).party side).state.Finished k :=
    closed ▸ Party.finished_finish known
  have late : (w.party side).Late ((w.step (side, .close k)).party side) k :=
    closed ▸ (Party.Late.refl _ k).rests (.finish _ k)
  have goes := h.step _ (Calm.of_run calm)
  have kept (w' : Joined) (event : Event) (orderly : w'.Orderly)
      (so : (w'.party side).state.Finished k ∧ (w.party side).Late (w'.party side) k) :
      ((w'.step event).party side).state.Finished k ∧
        (w.party side).Late ((w'.step event).party side) k :=
    ⟨(w'.lasts_step event side).state.finished so.1,
      late_step so.2 (orderly.kept.inOrder side).sound.queued so.1 event⟩
  have ends := goes.run_induction kept ⟨finished, late⟩ calm
  exact ends

/-- The law of closing. A run in which neither session ends closes a connection at one side, and the
peer holds its other end and has not closed it. Then

* all that is written after the close is at most one payload, which had its number at the close;
* the aborts of the connection that ask for the turn are that of the close and answers to payloads of
  the peer that were in flight;
* the reads of the peer give the payloads written, and behind all of them the end that the first of
  these aborts brings, again and again;
* so, once the peer has read more often than there are payloads, its reads have answered the end of
  the stream if and only if the abort of the close was the first to ask for the turn, and the failure
  with a reason if and only if an abort for that reason was;
* they wait only as long as one of the acts of the close, its abort or what went out before it is
  outstanding, or the stream is down. -/
theorem first_abort_surfaces {near far : Stream.Endpoint} {earlier later : List Event}
    {before after : Joined} (nearRoom : Config.minFrameLength ≤ near.config.maxFrameLen)
    (farRoom : Config.minFrameLength ≤ far.config.maxFrameLen)
    (reached : (start near far).run earlier = before)
    (ran : before.run ((side, .close k) :: later) = after) (calm : after.Calm)
    (holds : (before.party side).state.id? k ≠ none)
    (known : (after.party side).state.id? k = some id)
    (joined : (after.party side.peer).state.id? l = some id)
    (held : l ∉ (after.party side.peer).closes) :
    (∃ late, (after.party side).written k = (before.party side).written k ++ late ∧
        (late = [] ∨ ∃ data, late = [data] ∧ (before.party side).Carries k data)) ∧
      (∀ reason ∈ (after.party side).asks id, reason = .closed ∨ reason = .gone ∨ reason = .off) ∧
      (∃ n, (after.party side.peer).answers l <+:
        gives ((after.party side).written k) ++ endings ((after.party side).asks id) n) ∧
      (((after.party side).written k).length < ((after.party side.peer).answers l).length →
        ∀ reason : Reason, reason.surface ∈ (after.party side.peer).answers l ↔
          ((after.party side).asks id).head? = some reason) ∧
      (after.Settled side id →
        (after.party side).asks id ≠ [] ∧ (after.party side.peer).state.read? l ≠ none) := by
  subst reached ran
  have orderly := (orderly_start nearRoom farRoom).run (Calm.of_run calm)
  obtain ⟨orderly, finished, late⟩ := orderly.close_run calm holds
  have closed := orderly.closed_of_finished finished known joined held
  obtain ⟨⟨n, front⟩, waits⟩ := orderly.surfaces closed known joined held
  refine ⟨?_, fun reason mem => Reason.bare_of_accuses ((orderly.precedes side).polite mem), ⟨n, front⟩,
    surface_mem_iff front, waits⟩
  cases late with
  | before written _ => exact ⟨[], by rw [written, List.append_nil], .inl rfl⟩
  | after carried written _ => exact ⟨_, written, .inr ⟨_, rfl, carried⟩⟩

/-- A run up to a close at the dialing side, over streams with default settings. The first payload of
that side was heard, the second has its number, and one of the peer is on its way. -/
def atClose : Joined :=
  let sending (side : Role) (job : Nat) : List Event := List.replicate 3 (side, .move job)
  (start (.new 0 ⟨7⟩ {}) (.new 0 ⟨7⟩ {})).run <|
    [(.dial, .dial), (.dial, .write 0 [1])] ++ sending .dial 0 ++
    [(.accept, .hear), (.accept, .accept), (.accept, .write 0 [9])] ++ sending .accept 0 ++
    [(.dial, .write 0 [2]), (.dial, .move 1), (.dial, .move 1)]

/-- The close. The payload of the peer is heard between its last two acts, so that the abort that
answers it sets out as the third message, before that of the close. Then the second payload goes out,
and the two aborts in the given order. -/
def closing (first second : Nat) : Joined :=
  let sending (job : Nat) : List Event := List.replicate 3 (.dial, .move job)
  atClose.run <| (.dial, .close 0) ::
    [(.dial, .forget ⟨0⟩), (.dial, .hear), (.dial, .announce ⟨0⟩), (.dial, .move 1)] ++
    sending first ++ sending second ++ List.replicate 3 (.accept, .hear) ++
    List.replicate 4 (.accept, .read 0)

theorem calm_closing : (closing 2 3).Calm ∧ (closing 3 2).Calm :=
  ⟨⟨.of_few (by decide +kernel) (by decide +kernel), fun side => by cases side <;> decide +kernel⟩,
    .of_few (by decide +kernel) (by decide +kernel), fun side => by cases side <;> decide +kernel⟩

theorem settled_closing : (closing 2 3).Settled .dial ⟨0⟩ := by
  have spent : (closing 2 3).dialing.jobs.all (·.isNone) = true := by decide +kernel
  refine ⟨by decide +kernel, by decide +kernel, by decide +kernel, by decide +kernel,
    fun {i stage} known => ?_⟩
  have none' := List.all_eq_true.mp spent _ (List.mem_of_getElem? (Option.join_eq_some_iff.mp known))
  cases none'

/-- The abort that answers the payload in flight asks for the turn first, and the reads of the peer
fail; or that of the close does, and they come to the end of the stream. -/
theorem first_abort_surfaces_closing :
    (closing 2 3).Calm ∧ (closing 2 3).Settled .dial ⟨0⟩ ∧
    (closing 2 3).dialing.asks ⟨0⟩ = [.off, .closed] ∧
    .error (.aborted .off) ∈ (closing 2 3).accepting.answers 0 ∧
    .ok none ∉ (closing 2 3).accepting.answers 0 ∧
    (closing 3 2).dialing.asks ⟨0⟩ = [.closed, .off] ∧ .ok none ∈ (closing 3 2).accepting.answers 0 := by
  have law {first second : Nat} (calm : (closing first second).Calm) := @first_abort_surfaces .dial 0 0
    ⟨0⟩ _ _ _ _ _ (closing first second) (by decide) (by decide) rfl rfl calm
  obtain ⟨-, -, -, overtaken, -⟩ :=
    law calm_closing.1 (by decide +kernel) (by decide +kernel) (by decide +kernel) (by decide +kernel)
  obtain ⟨-, -, -, ahead, -⟩ :=
    law calm_closing.2 (by decide +kernel) (by decide +kernel) (by decide +kernel) (by decide +kernel)
  have asked : (closing 2 3).dialing.asks ⟨0⟩ = [.off, .closed] := by decide +kernel
  have asked' : (closing 3 2).dialing.asks ⟨0⟩ = [.closed, .off] := by decide +kernel
  refine ⟨calm_closing.1, settled_closing, asked,
    (overtaken (by decide +kernel) .off).mpr (congrArg _ asked), fun mem => ?_, asked',
    (ahead (by decide +kernel) .closed).mpr (congrArg _ asked')⟩
  have first := (overtaken (by decide +kernel) .closed).mp mem
  cases (congrArg List.head? asked).symm.trans first

end Joined

end Tether.Session
