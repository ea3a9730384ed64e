import Tether.Proofs.Stream.Mounted

/-!
# The end of a stream

A stream that is failed again and again ends once. The first error is what everyone is told from then on:
who waits for the end, who writes or has waited for room, and who closes. The reader is told last, for what
was accepted before the end is read first; and a reader who finds the end marker of the peer among it never
learns of the error.

So the answer to a read is known from its number, from the units accepted, and from the first error
(`nthRead?`). It does not change when more units are accepted: while they are, the user has read nothing
but units. After the first error no more than one unit is accepted, the one that the reading activity had
in hand, since the chain was killed with the error.
-/

namespace Tether.Stream

open Party (Records)

/-- What the `n`-th read answers, counted from zero, where these units were accepted. Without an answer it
waits. -/
def nthRead? (units : List Bytes) (failed : Option Error) (n : Nat) :
    Option (Except Error (Option Bytes)) :=
  match units[n]? with
  | some unit => some (.ok (if unit = [] then none else some unit))
  | none => if units.contains [] then some (.ok none) else failed.map .error

section

variable {units more : List Bytes} {failed failed' : Option Error} {n : Nat}
  {r : Except Error (Option Bytes)}

theorem nthRead?_of_unit {unit : Bytes} (found : units[n]? = some unit) (failed : Option Error) :
    nthRead? units failed n = some (.ok (if unit = [] then none else some unit)) := by
  unfold nthRead?
  rw [found]

theorem nthRead?_behind (past : units.length ≤ n) (failed : Option Error) :
    nthRead? units failed n =
      if units.contains [] then some (.ok none) else failed.map .error := by
  unfold nthRead?
  rw [List.getElem?_eq_none past]

/-- An answer stays what it is: an error, since the first one stays, and a unit, whatever is accepted
behind it. -/
theorem nthRead?_append (given : nthRead? units failed n = some r)
    (fresh : more ≠ [] → n < units.length) (kept : ∀ e, failed = some e → failed' = some e) :
    nthRead? (units ++ more) failed' n = some r := by
  rcases Nat.lt_or_ge n units.length with inside | past
  · have found : units[n]? = some units[n] := List.getElem?_eq_getElem inside
    rw [nthRead?_of_unit found] at given
    rw [nthRead?_of_unit ((List.getElem?_append_left inside).trans found), given]
  · obtain rfl : more = [] := Decidable.not_not.mp fun more => Nat.not_lt.mpr past (fresh more)
    rw [nthRead?_behind past] at given
    rw [List.append_nil, nthRead?_behind past]
    split at given
    · next marked => rw [if_pos marked, given]
    · next unmarked =>
      obtain ⟨e, failed, rfl⟩ := Option.map_eq_some_iff.mp given
      rw [if_neg unmarked, kept e failed]
      rfl

end

namespace Endpoint

variable {s : Endpoint} {chunk : Bytes} {e : Error}

/-- Why a write is refused, if it is. -/
def refusal? (s : Endpoint) (chunk : Bytes) : Option Error :=
  if s.maxChunkLength < chunk.length then some (.chunkTooLarge chunk.length s.maxChunkLength)
  else s.buffer.refusal? (.write chunk)

theorem write?_eq_error_iff {s' : Endpoint} :
    s.write? chunk = some (s', .error e) ↔ s' = s ∧ s.refusal? chunk = some e := by
  unfold write? refusal?
  split
  · simp [eq_comm]
  · rw [Option.map_eq_some_iff]
    constructor
    · rintro ⟨⟨buffer, r⟩, written, same⟩
      cases r with
      | ok n => cases same
      | error e' =>
        cases same
        obtain ⟨rfl, refused⟩ := (Buffer.write?_eq_error_iff chunk).mp written
        exact ⟨rfl, refused⟩
    · rintro ⟨rfl, refused⟩
      exact ⟨_, (Buffer.write?_eq_error_iff chunk).mpr ⟨rfl, refused⟩, rfl⟩

/-- An abort reaches every write that could have been taken, whether it has waited or not. -/
theorem write?_of_aborted (aborted : s.buffer.aborted = some e) (filled : chunk ≠ [])
    (short : chunk.length ≤ s.maxChunkLength) : s.write? chunk = some (s, .error e) := by
  refine write?_eq_error_iff.mpr ⟨rfl, ?_⟩
  rw [refusal?, if_neg (Nat.not_lt.mpr short)]
  exact Buffer.refusal?_of_aborted aborted filled

theorem close_of_aborted (aborted : s.buffer.aborted = some e) : s.close = (s, .error e) := by
  simp only [close, buffered, Buffer.close, aborted]

end Endpoint

/-! ## Where the user stands -/

namespace Party

variable {config : Config} {ls : List Intake} {reads : List (Except Error (Option Bytes))}
  {p p' : Party} {act : Act}

/-- The reads so far were answered by what was accepted, and the user stands behind them: at the next
unit, or at the end. -/
structure Stands (reads : List (Except Error (Option Bytes))) (p : Party) : Prop where
  filled : [] ∉ p.got
  answered : ∀ i r, reads[i]? = some r → nthRead? p.accepted p.stream.terminal i = some r
  behind : p.got.length ≤ reads.length
  ended : p.stream.ended = true → p.got.length < reads.length
  /-- A read that gave no unit has found the end. -/
  stuck : p.got.length < reads.length → p.stream.ended = true ∨
    p.stream.inbox = [] ∧ p.stream.reading = false
  stopped : p.stream.reading = false → ∃ e, p.stream.terminal = some e

theorem accepted_of_fresh (fresh : p.stream.ended = false) : p.accepted = p.got ++ p.stream.inbox := by
  unfold accepted
  rw [fresh]
  simp

/-- Nothing comes behind an end marker. -/
theorem Records.accepted_of_ended (h : Records config ls p) (ended : p.stream.ended = true) :
    p.accepted = p.got ++ [[]] := by
  have whole : p.accepted = p.got ++ [[]] ++ p.stream.inbox := by
    unfold Party.accepted
    rw [ended]
    rfl
  have last := h.accepted.last p.got.length
  rw [← h.whole, whole] at last
  have length := last (by simp)
  simp only [List.length_append, List.length_singleton] at length
  rw [whole, List.eq_nil_of_length_eq_zero (by omega : p.stream.inbox.length = 0), List.append_nil]

namespace Stands

/-- While something is in the inbox, or may get there, every read has given a unit. -/
theorem place (h : Stands reads p) (fresh : p.stream.ended = false)
    (more : p.stream.inbox ≠ [] ∨ p.stream.reading = true) : p.got.length = reads.length := by
  refine Nat.le_antisymm h.behind (Nat.not_lt.mp fun stuck => ?_)
  obtain ended | ⟨empty, stopped⟩ := h.stuck stuck
  · rw [fresh] at ended
    cases ended
  · rw [stopped] at more
    exact more.elim (absurd empty) nofun

/-- The next read is answered as its number says. -/
theorem nthRead?_of_reads (h : Stands reads p) (records : Records config ls p) {s : Endpoint}
    {r : Except Error (Option Bytes)} (given : p.stream.Reads s r) :
    nthRead? p.accepted p.stream.terminal reads.length = some r := by
  cases given with
  | again ended =>
    have past := h.ended ended
    rw [records.accepted_of_ended ended, nthRead?_behind (by simp; omega), if_pos (by simp)]
  | @marker rest fresh inbox =>
    have found : (p.got ++ [] :: rest)[p.got.length]? = some [] := by simp
    rw [← h.place fresh (.inl (by simp [inbox])), accepted_of_fresh fresh, inbox]
    exact nthRead?_of_unit found _
  | @chunk chunk rest fresh filled inbox =>
    have found : (p.got ++ chunk :: rest)[p.got.length]? = some chunk := by simp
    rw [← h.place fresh (.inl (by simp [inbox])), accepted_of_fresh fresh, inbox, nthRead?_of_unit found,
      if_neg filled]
  | failed fresh inbox stopped =>
    obtain ⟨e, failed⟩ := h.stopped stopped
    rw [accepted_of_fresh fresh, inbox, List.append_nil, nthRead?_behind h.behind,
      if_neg (by simpa using h.filled), Endpoint.terminalError, failed]
    rfl

/-- With the next read, all are answered as their numbers say. -/
theorem answered_concat (h : Stands reads p) (records : Records config ls p) {s : Endpoint}
    {r : Except Error (Option Bytes)} (given : p.stream.Reads s r) (i : Nat)
    (r' : Except Error (Option Bytes)) (found : (reads ++ [r])[i]? = some r') :
    nthRead? p.accepted p.stream.terminal i = some r' := by
  rcases Nat.lt_or_ge i reads.length with old | new
  · rw [List.getElem?_append_left old] at found
    exact h.answered i r' found
  · obtain ⟨bound, -⟩ := List.getElem?_eq_some_iff.mp found
    have last : i = reads.length := by
      simp only [List.length_append, List.length_singleton] at bound
      omega
    subst last
    rw [List.getElem?_concat_length] at found
    cases found
    exact h.nthRead?_of_reads records given

/-- A read moves the user on to the next unit, or to the end. -/
theorem read (h : Stands reads p) (records : Records config ls p) :
    Stands (reads ++ (p.answer? .read).toList) p.read := by
  have kept := p.turns_step .read
  have accepted : p.read.accepted = p.accepted := (Aside.read p).accepted
  have terminal : p.read.stream.terminal = p.stream.terminal := kept.terminal.trans (Option.or_none)
  have reading : p.read.stream.reading = p.stream.reading := kept.reading rfl
  cases answered : p.stream.read? with
  | none =>
    have same : p.read = p := by simp only [Party.read, answered]
    have none' : p.answer? .read = none := by simp only [answer?, answered, Option.map_none]
    rw [same, none', Option.toList_none, List.append_nil]
    exact h
  | some answer =>
    obtain ⟨s, r⟩ := answer
    have given := Endpoint.read?_eq_some_iff.mp answered
    have some' : p.answer? .read = some r := by simp only [answer?, answered, Option.map_some]
    have told := h.answered_concat records given
    have stands (p' : Party) (same : p.read = p') (filled : [] ∉ p'.got)
        (behind : p'.got.length ≤ reads.length + 1)
        (ended : p'.stream.ended = true → p'.got.length < reads.length + 1)
        (stuck : p'.got.length < reads.length + 1 → p'.stream.ended = true ∨
          p'.stream.inbox = [] ∧ p'.stream.reading = false) : Stands (reads ++ [r]) p.read := by
      have length : (reads ++ [r]).length = reads.length + 1 := List.length_append
      refine ⟨same ▸ filled, accepted ▸ terminal ▸ told, ?_, ?_, ?_, reading ▸ terminal ▸ h.stopped⟩ <;>
        rw [length, same]
      · exact behind
      · exact ended
      · exact stuck
    have behind : p.got.length ≤ reads.length + 1 := Nat.le_succ_of_le h.behind
    have past : p.got.length < reads.length + 1 := Nat.lt_succ_of_le h.behind
    rw [some', Option.toList_some]
    cases given with
    | again ended =>
      refine stands { p with sawEnd := true } ?_ h.filled behind (fun _ => past) fun _ => .inl ended
      simp only [Party.read, answered]
    | @marker rest fresh inbox =>
      refine stands { p with stream := { p.stream with inbox := rest, ended := true }, sawEnd := true } ?_
        h.filled behind (fun _ => past) fun _ => .inl rfl
      simp only [Party.read, answered]
    | @chunk chunk rest fresh filled inbox =>
      have place : p.got.length = reads.length := h.place fresh (.inl (by simp [inbox]))
      refine stands { p with stream := { p.stream with inbox := rest }, got := p.got ++ [chunk] } ?_ ?_ ?_
        (fun ended => ?_) fun stuck => ?_
      · simp only [Party.read, answered]
      · simpa using ⟨h.filled, filled⟩
      · simp [place]
      · cases fresh.symm.trans ended
      · simp [place] at stuck
    | failed fresh inbox stopped =>
      refine stands p ?_ h.filled behind (fun ended => ?_) fun _ => .inr ⟨inbox, stopped⟩
      · simp only [Party.read, answered]
      · cases fresh.symm.trans ended

/-- While units are handed over, the user has read nothing but units. -/
theorem length_le_of_intake (h : Stands reads p) (records : Records config ls p)
    (more : Intake.units (p.intake? act).toList ≠ []) : reads.length ≤ p.accepted.length := by
  obtain ⟨l, taken⟩ : ∃ l, p.intake? act = some l := by
    cases taken : p.intake? act with
    | none =>
      rw [taken] at more
      exact absurd rfl more
    | some l => exact ⟨l, rfl⟩
  obtain ⟨-, -, reading, -⟩ := exists_of_intake? taken
  have fresh : p.stream.ended = false := by
    cases ended : p.stream.ended with
    | false => rfl
    | true =>
      -- A unit behind the end marker would make that one no longer the last.
      have last := (records.step act).accepted.last p.got.length
      rw [Intake.units_append, ← records.whole, records.accepted_of_ended ended] at last
      have length := last (by simp)
      simp only [List.length_append, List.length_singleton] at length
      exact absurd (List.eq_nil_of_length_eq_zero (by omega)) more
  rw [← h.place fresh (.inr reading), accepted_of_fresh fresh, List.length_append]
  omega

/-- What happens besides reading takes no answer back, and leaves the user where he stands. -/
theorem step (h : Stands reads p) (records : Records config ls p) (other : act ≠ .read) :
    Stands reads (p.step act) := by
  have turns := p.turns_step act
  have accepted : (p.step act).accepted = p.accepted ++ Intake.units (p.intake? act).toList := by
    rw [(records.step act).whole, Intake.units_append, records.whole]
  have kept (e : Error) (failed : p.stream.terminal = some e) : (p.step act).stream.terminal = some e := by
    rw [turns.terminal, failed, Option.some_or]
  refine ⟨?_, fun i r found => ?_, ?_, ?_, fun stuck => ?_, fun stopped => ?_⟩
  · rw [turns.got other]
    exact h.filled
  · obtain ⟨inside, -⟩ := List.getElem?_eq_some_iff.mp found
    rw [accepted]
    refine nthRead?_append (h.answered i r found) (fun more => ?_) kept
    exact Nat.lt_of_lt_of_le inside (h.length_le_of_intake records more)
  · rw [turns.got other]
    exact h.behind
  · rw [turns.got other, turns.ended other]
    exact h.ended
  · rw [turns.got other] at stuck
    obtain ended | ⟨empty, stopped⟩ := h.stuck stuck
    · exact .inl ((turns.ended other).trans ended)
    · refine .inr ⟨?_, reading_step_of_false stopped act⟩
      have idle : p.intake? act = none := by
        refine Option.eq_none_iff_forall_ne_some.mpr fun l taken => ?_
        obtain ⟨-, -, reading, -⟩ := exists_of_intake? taken
        cases stopped.symm.trans reading
      rw [turns.inbox other, empty, idle]
      rfl
  · cases failure : p.failure? act with
    | none =>
      obtain ⟨e, failed⟩ := h.stopped ((turns.reading failure).symm.trans stopped)
      exact ⟨e, kept e failed⟩
    | some e =>
      rw [turns.terminal, failure]
      cases p.stream.terminal with
      | none => exact ⟨e, rfl⟩
      | some first => exact ⟨first, rfl⟩

end Stands

end Party

/-! ## The law -/

namespace Mounted

open Party (Stands)

variable {m m' : Mounted} {config : Config} {e : Error}

/-- The units accepted from the peer. -/
def accepted (m : Mounted) : List Bytes :=
  m.party.accepted

/-- The reads were answered as their numbers say, and so is the next one. It does not wait while there is a
unit for it, or once the reading activity has stopped. -/
structure Answers (units : List Bytes) (failed : Option Error) (m : Mounted) : Prop where
  past : ∀ i r, m.reads[i]? = some r → nthRead? units failed i = some r
  next : m.reads.length < units.length ∨ m.party.stream.reading = false →
    m.party.stream.read?.map Prod.snd = nthRead? units failed m.reads.length

/-- The end, its chain and its user agree on the first error. -/
structure Sound (config : Config) (m : Mounted) : Prop where
  records : Records config m.taken m.party
  stands : Stands m.reads m.party
  terminal : m.party.stream.terminal = m.failures.head?
  dead : m.party.stream.dead = m.party.stream.terminal.isSome
  killed : ∀ e, m.party.stream.terminal = some e → m.wired.chain.killed = true

theorem sound_start (side : Link.Side) (id : Chain.Id) (depth : Nat) (config : Config) :
    (start side id depth config).Sound config where
  records := .start 0 id config
  stands := ⟨nofun, nofun, Nat.le_refl 0, nofun, nofun, nofun⟩
  terminal := rfl
  dead := rfl
  killed := nofun

namespace Sound

theorem does (h : m.Sound config) (does : m.Does m') : m'.Sound config := by
  cases does with
  | rests dead =>
    exact ⟨h.records, h.stands, h.terminal, h.dead, fun e failed => dead (h.killed e failed)⟩
  | acts act dead =>
    have turns := m.party.turns_step act
    refine ⟨h.records.step act, ?_, ?_, ?_, fun e failed => dead ?_⟩
    · by_cases reads : act = .read
      · subst reads
        exact h.stands.read h.records
      · have quiet : m.party.answer? act = none := by
          cases act with
          | read => exact absurd rfl reads
          | _ => rfl
        simp only [after, quiet, Option.toList_none, List.append_nil]
        exact h.stands.step h.records reads
    · simp only [after]
      rw [turns.terminal, h.terminal, List.head?_append]
      cases m.party.failure? act <;> rfl
    · simp only [after]
      rw [turns.dead, turns.terminal, h.dead, Option.isSome_or]
    · simp only [after] at failed
      rw [turns.terminal] at failed
      cases before : m.party.stream.terminal with
      | some first => exact .inl (h.killed first before)
      | none =>
        rw [before, Option.none_or] at failed
        exact .inr (by rw [failed]; rfl)

theorem run (h : m.Sound config) (acts : List Act) : (m.run acts).Sound config :=
  run_induction h (fun m act h => h.does (m.does_step act)) acts

theorem end? (h : m.Sound config) : m.party.stream.end? = m.failures.head? := by
  unfold Endpoint.end? Endpoint.terminalError
  rw [h.dead, ← h.terminal]
  cases m.party.stream.terminal <;> rfl

theorem aborted (h : m.Sound config) : m.party.stream.buffer.aborted = m.failures.head? :=
  h.records.agreed.trans h.terminal

/-- The first failure stays the first. -/
theorem head?_of_does (failed : m.failures.head? = some e) (does : m.Does m') :
    m'.failures.head? = some e := by
  cases does with
  | rests => exact failed
  | acts act =>
    simp only [after]
    rw [List.head?_append, failed, Option.some_or]

end Sound

/-- Since some moment, the reading activity has taken nothing, or only the delivery that it had in hand
then. -/
def TookHeld (before m : Mounted) : Prop :=
  (m.taken = before.taken ∧ ∀ d, m.held = some (.ok d) → before.held = some (.ok d)) ∨
    ∃ l : Intake, before.held = some (.ok l.delivery) ∧ m.taken = before.taken ++ [l] ∧
      ∀ d, m.held ≠ some (.ok d)

/-- A dead chain gives no more than what is in hand. -/
theorem TookHeld.does {before : Mounted} (h : before.TookHeld m) (dead : m.wired.chain.killed = true)
    (does : m.Does m') : before.TookHeld m' := by
  have held (d : Chain.Delivery) (given : m'.held = some (.ok d)) : m.held = some (.ok d) := by
    cases does with
    | rests still kept alive =>
      exact (alive d given).resolve_right fun alive => by cases dead.symm.trans alive
    | acts act still kept =>
      obtain same | ⟨none', -⟩ := kept
      · exact same.symm.trans given
      · cases none'.symm.trans given
  have idle (same : m'.taken = m.taken) : before.TookHeld m' := by
    obtain ⟨taken, known⟩ | ⟨l, had, taken, spent⟩ := h
    · exact .inl ⟨same.trans taken, fun d given => known d (held d given)⟩
    · exact .inr ⟨l, had, same.trans taken, fun d given => spent d (held d given)⟩
  cases does with
  | rests => exact idle rfl
  | acts act still kept told =>
    cases act with
    | deliver d =>
      obtain ⟨had, free⟩ := told d rfl
      cases reading : m.party.stream.reading with
      | false =>
        refine idle ?_
        simp only [after, Party.intake?, reading, Bool.false_eq_true, if_false, Option.toList_none,
          List.append_nil]
      | true =>
        obtain ⟨taken, known⟩ | ⟨l, -, -, spent⟩ := h
        · refine .inr ⟨m.party.intake d, known d had, ?_, fun d' given => ?_⟩
          · simp only [after, Party.intake?, reading, if_true, Option.toList_some, taken]
          · cases free.symm.trans given
        · exact absurd had (spent d)
    | _ => exact idle (List.append_nil _)

namespace Sound

theorem run_failed (h : m.Sound config) (failed : m.failures.head? = some e) (later : List Act) :
    (m.run later).failures.head? = some e ∧ m.TookHeld (m.run later) := by
  have all := run_induction
    (P := fun n => n.wired.chain.killed = true ∧ n.failures.head? = some e ∧ m.TookHeld n)
    ⟨h.killed e (h.terminal.trans failed), failed, .inl ⟨rfl, fun _ => id⟩⟩
    (fun n act ⟨dead, failed, took⟩ =>
      have does := n.does_step act
      ⟨does.killed dead, head?_of_does failed does, took.does dead does⟩) later
  exact all.2

/-- What the reading activity had in hand is accepted if its turn has come. -/
theorem accepted_of_tookHeld (h : m.Sound config) (h' : m'.Sound config) (took : m.TookHeld m') :
    m'.accepted = m.accepted ∨ ∃ d unit, m.held = some (.ok d) ∧
      numbered? d = some (m.accepted.length, unit) ∧ [] ∉ m.accepted ∧
      m'.accepted = m.accepted ++ [unit] := by
  have ordered : m.accepted = Intake.inOrder (m.taken.filterMap fun l => numbered? l.delivery) :=
    h.records.whole.trans h.records.accepted.ordered
  have ordered' : m'.accepted = Intake.inOrder (m'.taken.filterMap fun l => numbered? l.delivery) :=
    h'.records.whole.trans h'.records.accepted.ordered
  obtain ⟨taken, -⟩ | ⟨l, had, taken, -⟩ := took
  · exact .inl (by rw [ordered', taken, ordered])
  rw [ordered', taken, List.filterMap_append]
  cases unit : numbered? l.delivery with
  | none =>
    refine .inl ?_
    simp only [List.filterMap_cons, unit, List.filterMap_nil, List.append_nil, ordered]
  | some unit' =>
    simp only [List.filterMap_cons, unit, List.filterMap_nil, Intake.inOrder_concat, ← ordered]
    split
    · next next =>
      exact .inr ⟨l.delivery, unit'.2, had, unit.trans (by rw [← next.1]), next.2, rfl⟩
    · exact .inl rfl

/-- A reading activity that has stopped accepts nothing. -/
theorem accepted_run_of_stopped (h : m.Sound config) (stopped : m.party.stream.reading = false)
    (later : List Act) : (m.run later).accepted = m.accepted := by
  have all := run_induction
    (P := fun n => n.party.stream.reading = false ∧ n.taken = m.taken) ⟨stopped, rfl⟩
    (fun n act ⟨stopped, taken⟩ => by
      have does := n.does_step act
      refine ⟨does.stopped stopped, ?_⟩
      generalize n.step act = n' at does ⊢
      cases does with
      | rests => exact taken
      | acts act =>
        have idle : n.party.intake? act = none := by
          refine Option.eq_none_iff_forall_ne_some.mpr fun l took => ?_
          obtain ⟨-, -, reading, -⟩ := Party.exists_of_intake? took
          cases stopped.symm.trans reading
        simp only [after, idle, Option.toList_none, List.append_nil, taken]) later
  rw [accepted, (h.run later).records.whole, all.2, accepted, h.records.whole]

theorem answers (h : m.Sound config) : m.Answers m.accepted m.failures.head? where
  past := by
    rw [← h.terminal]
    exact h.stands.answered
  next ready := by
    cases answered : m.party.stream.read? with
    | some answer =>
      rw [← h.terminal]
      exact (h.stands.nthRead?_of_reads h.records (Endpoint.read?_eq_some_iff.mp answered)).symm
    | none =>
      -- A read waits only on an empty inbox into which something may still be handed.
      obtain ⟨fresh, empty, reading⟩ := Endpoint.read?_eq_none_iff.mp answered
      obtain more | stopped := ready
      · rw [accepted, Party.accepted_of_fresh fresh, empty, List.append_nil,
          h.stands.place fresh (.inr reading)] at more
        exact absurd more (Nat.lt_irrefl _)
      · cases stopped.symm.trans reading

end Sound

/-- A stream ends with one error. Whatever happens at an end, at its chain and on its links, and in
whatever order:

* who waits for the end of the stream is told the error that it was failed for first, once it was. The
  units accepted are those that came in order, and each read answers what its number says: the unit of that
  number; behind the units, that the peer has closed, if the end marker was among them, and else the first
  error;
* once it was failed, the first error stays, whatever the stream is failed for later. It is what every write
  of a chunk that a frame can carry answers, whether it has waited or not, and every close. No unit is
  accepted any more but the one that the reading activity had in hand, if its turn had come. The reading
  activity does something about that, reads from the chain, and stops as it does something about what it
  learns there. From then on nothing is accepted, and no read waits. -/
theorem one_terminal_error (side : Link.Side) (id : Chain.Id) (depth : Nat) (config : Config)
    (before : List Act) :
    let m := (start side id depth config).run before
    m.party.stream.end? = m.failures.head? ∧
    m.accepted = Intake.inOrder (m.taken.filterMap fun l => numbered? l.delivery) ∧
    m.Answers m.accepted m.failures.head? ∧
    ∀ e, m.failures.head? = some e → ∀ later,
      let m' := m.run later
      let s := m'.party.stream
      m'.failures.head? = some e ∧ s.end? = some e ∧ m'.Answers m'.accepted (some e) ∧
      (m'.accepted = m.accepted ∨ ∃ d unit, m.held = some (.ok d) ∧
        numbered? d = some (m.accepted.length, unit) ∧ [] ∉ m.accepted ∧
        m'.accepted = m.accepted ++ [unit]) ∧
      ([.apply, .receive, .apply].Sublist later → s.reading = false) ∧
      (s.reading = false → ∀ rest, (m'.run rest).accepted = m'.accepted) ∧
      (∀ chunk, chunk ≠ [] → chunk.length ≤ s.maxChunkLength →
        s.write? chunk = some (s, .error e)) ∧
      s.close = (s, .error e) := by
  intro m
  have sound : m.Sound config := (sound_start side id depth config).run before
  refine ⟨sound.end?, ?_, sound.answers, fun e failed later => ?_⟩
  · exact sound.records.whole.trans sound.records.accepted.ordered
  · intro m' s
    have after : m'.Sound config := sound.run later
    have dead : m.wired.chain.killed = true := sound.killed e (sound.terminal.trans failed)
    obtain ⟨first, took⟩ := sound.run_failed failed later
    have aborted : s.buffer.aborted = some e := after.aborted.trans first
    have answers : m'.Answers m'.accepted m'.failures.head? := after.answers
    rw [first] at answers
    exact ⟨first, after.end?.trans first, answers, sound.accepted_of_tookHeld after took,
      reading_run dead, after.accepted_run_of_stopped,
      fun chunk filled short => Endpoint.write?_of_aborted aborted filled short,
      Endpoint.close_of_aborted aborted⟩

/-- A kill while a unit is in hand, and then the loss of the chain: the unit is read, and then the kill. -/
example :
    let m := (start .near ⟨7⟩ 4 {}).run
      [.chain (.attach 1 ⟨0, .near⟩ {}), .chain (.stitch 0), .receive, .apply,
        .chain (.arrive 0 false [0, 0, 5]), .chain (.pump 0), .chain (.pump 0), .receive,
        .own .kill, .apply, .receive, .apply, .own .read, .own .read, .own .read]
    m.failures = [.chain .killed, .chain .killed] ∧
      m.reads = [.ok (some [5]), .error (.chain .killed), .error (.chain .killed)] :=
  ⟨rfl, rfl⟩

end Mounted

end Tether.Stream
