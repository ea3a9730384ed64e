import Tether.Proofs.Session.Outcome

/-!
# Numbers that are used again

An accepting session knows the numbers of the connections that are open, and no others. So a number
opens one connection at a time, and each connection hands over each of its payloads once; but the first
payload of a number, said again when its connection has ended, opens another connection under the same
number. The law is that this is the only way to accept a number twice: it says of a run when it does so,
by what came in and how the connections stood.
-/

namespace Tether.Session

/-- The payloads of a connection have different numbers, as long as the numbers do not come round. -/
theorem nodup_numbered_iff (data : List Bytes) :
    ((numbered data).map Prod.fst).Nodup ↔ data.length ≤ UInt64.size := by
  have numbers : (numbered data).map Prod.fst = (List.range data.length).map UInt64.ofNat := by
    refine List.ext_getElem? fun n => ?_
    rw [List.getElem?_map, getElem?_numbered, List.getElem?_map, Option.map_map]
    by_cases inside : n < data.length
    · simp [inside]
    · simp [Nat.not_lt.mp inside]
  rw [numbers, List.Nodup, List.pairwise_map]
  constructor
  · intro distinct
    refine Nat.not_lt.mp fun round => ?_
    have differ := List.pairwise_iff_getElem.mp distinct 0 UInt64.size
      (by simpa using Nat.zero_lt_of_lt round) (by simpa using round) (by decide)
    rw [List.getElem_range, List.getElem_range] at differ
    exact differ rfl
  · intro short
    refine List.nodup_range.imp_of_mem fun {m n} mem mem' other same => other ?_
    have same := congrArg UInt64.toNat same
    rwa [UInt64.toNat_ofNat_of_lt' (Nat.lt_of_lt_of_le (List.mem_range.mp mem) short),
      UInt64.toNat_ofNat_of_lt' (Nat.lt_of_lt_of_le (List.mem_range.mp mem') short)] at same

namespace Party

/-- The connections under a number that were put in the line to be accepted. -/
def admitted (p : Party) (id : ConnId) : List ConnKey :=
  (p.handed ++ p.state.accepted).filter fun k => p.state.id? k = some id

/-- The numbers of the payloads that were handed to the connections under a number. -/
def numbersHanded (p : Party) (id : ConnId) : List UInt64 :=
  (p.admitted id).flatMap fun k => (numbered (p.arrived k)).map Prod.fst

/-- In a run the first payload of a number comes while the session takes connections, when it has had
the number before and every connection under it has ended. -/
def Reopens (first : Party) (id : ConnId) (acts : List Act) : Prop :=
  ∃ earlier act later data, acts = earlier ++ act :: later ∧
    act.envelope? = some ⟨id, .payload 0 data⟩ ∧
    (∀ a ∈ earlier, a.ending? = none ∧ a ≠ .unlisten) ∧
    (∃ k, (first.run earlier).state.id? k = some id) ∧
    ∀ k, (first.run earlier).state.id? k = some id → ¬(first.run earlier).state.Open k

variable {p p' first : Party} {act : Act} {id : ConnId} {k l : ConnKey} {stream : Stream.Endpoint}
  {acts earlier later : List Act}

/-- A session that accepts opens a connection by its first payload only. -/
theorem Opened.by_first (h : p.Opened act id p') (role : p.state.role = .accept) :
    ∃ data, act.envelope? = some ⟨id, .payload 0 data⟩ ∧ p.state.ended = none ∧ p.state.Welcomes ∧
      ∀ a ∈ p.state.table, a.id ≠ id := by
  cases h with
  | dialed dials _ _ => cases role.symm.trans dials
  | @heard _ e data _ envelope content alive welcome unknown _ _ _ =>
    exact ⟨data, content ▸ envelope, alive, welcome, unknown⟩

/-- It is put last in the line to be accepted. -/
theorem Opened.queue (h : p.Opened act id p') (role : p.state.role = .accept) :
    p'.state.conns.size = p.state.conns.size + 1 ∧
      p'.handed ++ p'.state.accepted = p.handed ++ p.state.accepted ++ [p.state.conns.size] := by
  cases h with
  | dialed dials _ _ => cases role.symm.trans dials
  | heard _ _ _ _ _ state _ handed =>
    rw [state, handed, List.append_assoc]
    exact ⟨Array.size_push _, rfl⟩

/-- A number that is not open opens a connection with its first payload, as long as the session takes
connections. -/
theorem Stepped.opened (h : p.Stepped act p') {data : Bytes} (filed : p.state.Filed)
    (envelope : act.envelope? = some ⟨id, .payload 0 data⟩) (alive : p.state.ended = none)
    (welcome : p.state.Welcomes) (ended : ∀ k, p.state.id? k = some id → ¬p.state.Open k) :
    p.Opened act id p' := by
  have unknown {a : Entry} (mem : a ∈ p.state.table) (named : a.id = id) : False :=
    ended a.conn (named ▸ (filed.entry mem).1) (filed.entry mem).2
  cases h with
  | plain _ silent _ _ _ => cases silent.symm.trans envelope
  | dialed _ _ _ => cases envelope
  | read _ => cases envelope
  | closed _ _ _ _ => cases envelope
  | finished ending => cases (Act.envelope?_of_ending ending).symm.trans envelope
  | @heard _ e _ _ envelope' dispatched reads handed =>
    cases envelope'.symm.trans envelope
    generalize here : p'.state = state at dispatched
    cases dispatched with
    | ignored _ known =>
      obtain ⟨a, mem, named⟩ := known 0 data rfl alive
      exact (unknown mem named).elim
    | aborted _ _ content => cases content
    | delivered mem named _ => exact (unknown mem named).elim
    | faulted mem named _ _ => exact (unknown mem named).elim
    | refused _ _ content _ unwelcome _ =>
      cases content
      exact absurd welcome (unwelcome rfl)
    | opened _ _ unknown content => exact .heard envelope content alive welcome unknown here reads handed

theorem Stepped.listening (h : p.Stepped act p') :
    p'.state.listening = true ↔ p.state.listening = true ∧ act ≠ .unlisten := by
  have kept (same : p'.state.listening = p.state.listening) (other : act ≠ .unlisten) :
      p'.state.listening = true ↔ p.state.listening = true ∧ act ≠ .unlisten := by
    simp [same, other]
  cases h with
  | plain _ _ _ _ listens => exact listens
  | dialed _ _ _ => exact kept rfl nofun
  | read given =>
    obtain ⟨c, c', -, -, rfl⟩ := State.read?_eq_some given
    exact kept rfl nofun
  | closed _ state _ _ => exact kept (by rw [state]; rfl) nofun
  | @finished _ cause ending =>
    have rest := congrArg State.listening (p.state.teardown_rest cause)
    exact kept rest fun same => by rw [same] at ending; cases ending
  | heard envelope dispatched _ _ =>
    refine kept ?_ fun same => by rw [same] at envelope; cases envelope
    generalize p'.state = state at dispatched
    cases dispatched <;> rfl

/-! ## What holds after every run -/

/-- Nothing limits the runs of a session that accepts. -/
theorem accepting_induction {P : List Act → Party → Prop} (begins : P [] (start .accept stream))
    (concat : ∀ {acts act p}, p.state.Tidy .accept → p.Stepped act (p.step act) → P acts p →
      P (acts ++ [act]) (p.step act)) (acts : List Act) : P acts ((start .accept stream).run acts) :=
  (@run_induction .accept P _ (State.tidy_new .accept) begins (fun _ => concat) acts nofun).2

theorem tidy_accepting (stream : Stream.Endpoint) (acts : List Act) :
    ((start .accept stream).run acts).state.Tidy .accept :=
  tidy_run (State.tidy_new .accept) (fun dials => nomatch dials)

theorem stepped_accepting (stream : Stream.Endpoint) (acts : List Act) (act : Act) :
    ((start .accept stream).run acts).Stepped act (((start .accept stream).run acts).step act) :=
  stepped_of_fits (tidy_accepting stream acts) fun dials => nomatch dials

theorem listening_run (stream : Stream.Endpoint) (acts : List Act) :
    ((start .accept stream).run acts).state.listening = true ↔ ∀ a ∈ acts, a ≠ .unlisten := by
  induction acts using accepting_induction with
  | begins => simp [start, State.new]
  | concat _ stepped before =>
    rw [stepped.listening, before]
    simp [or_imp, forall_and]

/-- The connections that were put in the line are all that there are, each once. -/
theorem queue_run (stream : Stream.Endpoint) (acts : List Act) :
    ((start .accept stream).run acts).handed ++ ((start .accept stream).run acts).state.accepted =
      List.range ((start .accept stream).run acts).state.conns.size := by
  induction acts using accepting_induction with
  | begins => rfl
  | concat tidy stepped before =>
    obtain ⟨id, opened⟩ | ⟨ids, queue⟩ := stepped.opened_or
    · obtain ⟨size, queue⟩ := opened.queue tidy.role
      rw [queue, size, before, List.range_succ]
    · rw [queue, before, State.size_congr ids]

/-- An accepting session takes connections until it ends or its accepter is let go. -/
theorem welcomes_run (stream : Stream.Endpoint) (acts : List Act) :
    (((start .accept stream).run acts).state.ended = none ∧
      ((start .accept stream).run acts).state.Welcomes) ↔
      ∀ a ∈ acts, a.ending? = none ∧ a ≠ .unlisten := by
  have tidy := tidy_accepting stream acts
  have ended := @ended_run .accept stream acts fun dials => nomatch dials
  have alive : ((start .accept stream).run acts).state.ended = none ↔ ∀ a ∈ acts, a.ending? = none := by
    rw [ended, List.findSome?_eq_none_iff]
  have listens := listening_run stream acts
  constructor
  · rintro ⟨goesOn, welcome⟩ a mem
    exact ⟨alive.mp goesOn a mem, listens.mp welcome.listening a mem⟩
  · intro quiet
    have goesOn := alive.mpr fun a mem => (quiet a mem).1
    have listening := listens.mpr fun a mem => (quiet a mem).2
    exact ⟨goesOn, tidy.role, tidy.welcomes rfl goesOn listening, listening⟩

theorem mem_admitted : k ∈ ((start .accept stream).run acts).admitted id ↔
    ((start .accept stream).run acts).state.id? k = some id := by
  rw [admitted, queue_run, List.mem_filter, List.mem_range]
  constructor
  · rintro ⟨-, named⟩
    exact of_decide_eq_true named
  · intro named
    refine ⟨Nat.not_le.mp fun outside => ?_, decide_eq_true named⟩
    cases (State.id?_eq_none_iff.mpr outside).symm.trans named

/-- Of two connections that are admitted, one comes later. -/
theorem one_lt_length_admitted_iff (stream : Stream.Endpoint) (acts : List Act) (id : ConnId) :
    1 < (((start .accept stream).run acts).admitted id).length ↔
      ∃ k l, k < l ∧ ((start .accept stream).run acts).state.id? k = some id ∧
        ((start .accept stream).run acts).state.id? l = some id := by
  have sorted : (((start .accept stream).run acts).admitted id).Pairwise (· < ·) := by
    rw [admitted, queue_run]
    exact List.pairwise_lt_range.filter _
  simp only [← mem_admitted]
  generalize ((start .accept stream).run acts).admitted id = admitted at sorted
  cases admitted with
  | nil => simp
  | cons a rest =>
    cases rest with
    | nil =>
      refine iff_of_false (Nat.lt_irrefl 1) fun ⟨k, l, less, mem, mem'⟩ => ?_
      rw [List.mem_singleton.mp mem, List.mem_singleton.mp mem'] at less
      exact Nat.lt_irrefl a less
    | cons b rest =>
      refine iff_of_true (by simp) ⟨a, b, ?_, by simp, by simp⟩
      exact (List.pairwise_cons.mp sorted).1 b (by simp)

/-- Each connection that was accepted was opened by the first payload of its number, and holds at
least that. -/
theorem begun_run (known : ((start .accept stream).run acts).state.id? k = some id) :
    ((start .accept stream).run acts).arrived k ≠ [] ∧
      ∃ earlier act later data, acts = earlier ++ act :: later ∧
        act.envelope? = some ⟨id, .payload 0 data⟩ ∧
        k = ((start .accept stream).run earlier).state.conns.size ∧
        (∀ a ∈ earlier, a.ending? = none ∧ a ≠ .unlisten) ∧
        ∀ a ∈ ((start .accept stream).run earlier).state.table, a.id ≠ id := by
  have traced := (@traced_run .accept stream acts fun dials => nomatch dials).2
  obtain ⟨since, begins, follows, -⟩ := traced.known known
  cases begins with
  | @intro earlier later act absent opened =>
    obtain known' | ⟨-, last, opened⟩ := (stepped_accepting stream earlier act).id?_cases opened
    · cases absent.symm.trans known'
    · obtain ⟨data, envelope, alive, welcome, unknown⟩ :=
        opened.by_first (tidy_accepting stream earlier).role
      refine ⟨?_, earlier, act, later, data, rfl, envelope, last,
        (welcomes_run stream earlier).mp ⟨alive, welcome⟩, unknown⟩
      have first : [data] <+: (Life.of k id (act :: later)).arrived := by
        have life : Life.of k id [act] = { arrived := [data] } := Act.life_of_first envelope rfl k
        have longer : (Life.of k id [act]).arrived <+: (Life.of k id (act :: later)).arrived :=
          Life.arrived_through _ k id later
        rwa [life] at longer
      rw [follows.arrived known]
      exact fun nothing => by simp [nothing] at first

/-! ## The law -/

/-- If a number is accepted twice, its first payload came again when nothing under it was open. -/
theorem reopens_of_admitted (less : k < l)
    (known : ((start .accept stream).run acts).state.id? k = some id)
    (known' : ((start .accept stream).run acts).state.id? l = some id) :
    (start .accept stream).Reopens id acts := by
  obtain ⟨-, earlier, act, later, data, rfl, envelope, rfl, quiet, unknown⟩ := begun_run known'
  have tidy := tidy_accepting stream earlier
  refine ⟨earlier, act, later, data, rfl, envelope, quiet, ⟨k, ?_⟩, fun j named opened => ?_⟩
  · obtain ⟨name, named⟩ := Option.ne_none_iff_exists'.mp
      (mt State.id?_eq_none_iff.mp (Nat.not_le.mpr less))
    have kept := @id?_run .accept _ tidy (act :: later) (fun dials => nomatch dials) _ _ named
    rw [run_append, kept] at known
    rw [named, known]
  · obtain ⟨a, mem, here⟩ := tidy.filed.listed opened
    have name := (tidy.filed.entry mem).1
    rw [here, named] at name
    exact unknown a mem (Option.some.inj name).symm

theorem admitted_of_reopens (reopens : (start .accept stream).Reopens id acts) :
    ∃ k l, k < l ∧ ((start .accept stream).run acts).state.id? k = some id ∧
      ((start .accept stream).run acts).state.id? l = some id := by
  obtain ⟨earlier, act, later, data, rfl, envelope, quiet, ⟨k, known⟩, ended⟩ := reopens
  have tidy := tidy_accepting stream earlier
  have stepped := stepped_accepting stream earlier act
  obtain ⟨alive, welcome⟩ := (welcomes_run stream earlier).mpr quiet
  have opened := stepped.opened tidy.filed envelope alive welcome ended
  have inside : k < ((start .accept stream).run earlier).state.conns.size := Nat.not_le.mp fun outside => by
    cases (State.id?_eq_none_iff.mpr outside).symm.trans known
  rw [run_append]
  have kept {j : ConnKey} := @id?_run .accept _ (tidy.stepped stepped) later (fun dials => nomatch dials) j id
  refine ⟨k, _, inside, kept ?_, kept ((opened.id? _).trans (if_pos rfl))⟩
  rw [opened.id?, if_neg (Nat.ne_of_lt inside), known]

/-- One number is used by at most one payload, if it is accepted once and its numbers do not come
round. -/
theorem nodup_numbersHanded_iff (stream : Stream.Endpoint) (acts : List Act) (id : ConnId) :
    (((start .accept stream).run acts).numbersHanded id).Nodup ↔
      (((start .accept stream).run acts).admitted id).length ≤ 1 ∧
        ∀ k ∈ ((start .accept stream).run acts).admitted id,
          (((start .accept stream).run acts).arrived k).length ≤ UInt64.size := by
  have begun (k : ConnKey) (mem : k ∈ ((start .accept stream).run acts).admitted id) :
      ∃ rest, (numbered (((start .accept stream).run acts).arrived k)).map Prod.fst = 0 :: rest := by
    obtain ⟨data, rest, arrived⟩ := List.exists_cons_of_ne_nil (begun_run (mem_admitted.mp mem)).1
    exact ⟨_, by rw [arrived, numbered, List.mapIdx_cons, List.map_cons]; rfl⟩
  unfold numbersHanded
  generalize ((start .accept stream).run acts).admitted id = admitted at begun
  cases admitted with
  | nil => simp
  | cons k rest =>
    cases rest with
    | nil => simp [nodup_numbered_iff]
    | cons l rest =>
      refine iff_of_false (fun distinct => ?_) fun one => by simp at one
      obtain ⟨_, first⟩ := begun k (by simp)
      obtain ⟨_, second⟩ := begun l (by simp)
      simp [first, second] at distinct

/-- An accepting session accepts a number twice just when its first payload comes again behind the end
of what was accepted under it, and it is then that payloads with the same number are handed over
twice, if the numbers of one connection do not come round. -/
theorem admitted_twice_iff (stream : Stream.Endpoint) (acts : List Act) (id : ConnId) :
    let first := start .accept stream
    let p := first.run acts
    (1 < (p.admitted id).length ↔ first.Reopens id acts) ∧
      (¬(p.numbersHanded id).Nodup ↔
        first.Reopens id acts ∨ ∃ k ∈ p.admitted id, UInt64.size < (p.arrived k).length) := by
  intro first p
  have twice : 1 < (p.admitted id).length ↔ first.Reopens id acts := by
    rw [one_lt_length_admitted_iff]
    exact ⟨fun ⟨_, _, less, known, known'⟩ => reopens_of_admitted less known known',
      admitted_of_reopens⟩
  refine ⟨twice, ?_⟩
  rw [nodup_numbersHanded_iff, ← twice]
  simp only [Classical.not_and_iff_not_or_not, Classical.not_forall, Nat.not_le, exists_prop]
  rfl

/-- A run that closes a connection and hears its first payload again. -/
def heardAgain : List Act :=
  let first : Act := .hear ⟨⟨0⟩, .payload 0 [0x30]⟩
  [first, .accept, .read 0, .close 0, first, .accept, .read 1]

example :
    let p := (start .accept (.new 0 ⟨7⟩ {})).run heardAgain
    p.handed = [0, 1] ∧ p.admitted ⟨0⟩ = [0, 1] ∧ p.numbersHanded ⟨0⟩ = [0, 0] ∧
      p.answers 0 = gives [[0x30]] ∧ p.answers 1 = gives [[0x30]] := by
  decide +kernel

end Party

end Tether.Session
