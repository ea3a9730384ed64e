import Tether.Proofs.Session.Lone

/-!
# The life of a connection

What a connection is to its user is decided by what happened to it, in order: the payloads that the
peer said next, and the first thing that ended it. Nothing that happens behind its end counts. This
is said here without the table, the inbox or the state of the connection; `Conn.Shows` then says when
a connection with the answers of its reads so far shows such a life.
-/

namespace Tether.Session

/-- What can happen to a connection. -/
inductive Happening where
  /-- The peer says something about it. -/
  | said (content : Content)
  /-- It is closed at this end, or its session ends. -/
  | ended (e : Error)

/-- What has become of a connection: the payloads that came, and its end. -/
structure Life where
  arrived : List Bytes := []
  fate : Option Error := none

/-- What a read answers behind the payloads of a connection that has ended. -/
def Error.outcome : Error → Except Error (Option Bytes)
  | .aborted .closed => .ok none
  | e => .error e

/-- What a connection is handed for its end. A close at this end hands it nothing. -/
def Error.event? : Error → Option Inbound
  | .aborted reason => some (.abort reason)
  | .session cause => some (.broken cause)
  | .closed | .value _ => none

namespace Life

/-- The payload that comes next adds to what came, one from before is passed over, and one from beyond
ends the connection. -/
def meet (l : Life) : Happening → Life
  | .ended e => { l with fate := some e }
  | .said (.abort reason) => { l with fate := some (.aborted reason) }
  | .said (.payload seq data) =>
    let next := UInt64.ofNat l.arrived.length
    if seq < next then l
    else if next < seq then { l with fate := some (.aborted (State.gap seq next)) }
    else { l with arrived := l.arrived ++ [data] }

/-- What comes behind the end does not count. -/
def after (l : Life) (h : Option Happening) : Life :=
  if l.fate.isSome then l else h.elim l l.meet

/-- All that the connection is handed. -/
def handed (l : Life) : List Inbound :=
  l.arrived.map .payload ++ (l.fate.bind Error.event?).toList

/-- What the read with the given number answers, if it need not wait. -/
def answer? (l : Life) (n : Nat) : Option (Except Error (Option Bytes)) :=
  match l.arrived[n]? with
  | some data => some (.ok (some data))
  | none => l.fate.map Error.outcome

variable {l : Life} {e : Error} {n : Nat}

theorem after_of_fate (ended : l.fate = some e) (h : Option Happening) : l.after h = l :=
  if_pos (by rw [ended]; rfl)

theorem after_of_open (goesOn : l.fate = none) (h : Happening) : l.after (some h) = l.meet h :=
  if_neg (by rw [goesOn]; nofun)

@[simp]
theorem after_none (l : Life) : l.after none = l := by
  unfold after
  split <;> rfl

theorem handed_of_open (goesOn : l.fate = none) : l.handed = l.arrived.map .payload := by
  simp [handed, goesOn]

theorem handed_of_fate (ended : l.fate = some e) :
    l.handed = l.arrived.map .payload ++ e.event?.toList := by
  simp [handed, ended]

theorem length_handed_of_open (goesOn : l.fate = none) : l.handed.length = l.arrived.length := by
  rw [handed_of_open goesOn, List.length_map]

theorem arrived_length_le (l : Life) : l.arrived.length ≤ l.handed.length := by
  simp [handed]

theorem answer?_of_arrived {data : Bytes} (here : l.arrived[n]? = some data) :
    l.answer? n = some (.ok (some data)) := by
  simp only [answer?, here]

/-- All reads behind the payloads answer the same. -/
theorem answer?_of_le (beyond : l.arrived.length ≤ n) : l.answer? n = l.fate.map Error.outcome := by
  simp only [answer?, List.getElem?_eq_none beyond]

theorem handed_concat (goesOn : l.fate = none) (data : Bytes) :
    handed { l with arrived := l.arrived ++ [data] } = l.handed ++ [.payload data] := by
  simp [handed, goesOn]

/-- What is handed over is a payload, or the end behind all of them. -/
theorem handed_cases {i : Inbound} (here : l.handed[n]? = some i) :
    (∃ data, l.arrived[n]? = some data ∧ i = .payload data) ∨
      n = l.arrived.length ∧ l.handed.length = n + 1 ∧ ∃ e, l.fate = some e ∧ e.event? = some i := by
  have inside := (List.getElem?_eq_some_iff.mp here).1
  rw [handed, List.getElem?_append] at here
  split at here
  · rw [List.getElem?_map] at here
    obtain ⟨data, came, same⟩ := Option.map_eq_some_iff.mp here
    exact .inl ⟨data, came, same.symm⟩
  · next beyond =>
    have event := Option.mem_toList.mp (List.mem_of_getElem? here)
    obtain ⟨e, fate, event⟩ := Option.bind_eq_some_iff.mp event
    have length : l.handed.length = l.arrived.length + 1 := by simp [handed, fate, event]
    rw [List.length_map] at beyond
    have last : n = l.arrived.length := by omega
    exact .inr ⟨last, last ▸ length, e, fate, event⟩

/-- Each read takes one thing of what is handed over. -/
theorem answer?_of_handed {i : Inbound} (here : l.handed[n]? = some i) : l.answer? n = some i.answer := by
  obtain ⟨data, came, rfl⟩ | ⟨rfl, -, e, fate, event⟩ := handed_cases here
  · exact answer?_of_arrived came
  · rw [answer?_of_le (Nat.le_refl _), fate]
    cases e with
    | closed => cases event
    | value cause => cases event
    | session cause => cases event; rfl
    | aborted reason => cases event; cases reason <;> rfl

/-- The end of the stream is the last thing that is handed over. -/
theorem eq_closed_iff {i : Inbound} (here : l.handed[n]? = some i) :
    i = .abort .closed ↔ l.fate = some (.aborted .closed) ∧ l.handed.length ≤ n + 1 := by
  obtain ⟨data, came, rfl⟩ | ⟨rfl, length, e, fate, event⟩ := handed_cases here
  · refine iff_of_false nofun fun ⟨fate, short⟩ => ?_
    have inside := (List.getElem?_eq_some_iff.mp came).1
    simp only [handed_of_fate fate, Error.event?, Option.toList_some, List.length_append,
      List.length_map, List.length_singleton] at short
    omega
  · rw [fate, length]
    cases e with
    | closed => cases event
    | value cause => cases event
    | session cause => cases event; simp
    | aborted reason => cases event; simp

/-- What is handed over stays. -/
theorem handed_after (l : Life) (h : Option Happening) : l.handed <+: (l.after h).handed := by
  cases ended : l.fate with
  | some e =>
    simp only [after_of_fate ended, List.prefix_refl]
  | none =>
    cases h with
    | none =>
      simp only [after_none, List.prefix_refl]
    | some h =>
      have ends (e : Error) : l.handed <+: handed { l with fate := some e } := by
        rw [handed_of_open ended, handed_of_fate rfl]
        exact List.prefix_append _ _
      rw [after_of_open ended]
      cases h with
      | ended e => exact ends e
      | said content =>
        cases content with
        | abort reason => exact ends _
        | payload seq data =>
          unfold meet
          dsimp only
          split
          · exact List.prefix_refl _
          · split
            · exact ends _
            · rw [handed_concat ended]
              exact List.prefix_append _ _

/-- What is still to be read holds the rest of the payloads. -/
theorem payloads_drop (l : Life) (n : Nat) :
    (l.handed.drop n).filterMap Inbound.payload? = l.arrived.drop n := by
  have event (m : Nat) :
      ((l.fate.bind Error.event?).toList.drop m).filterMap Inbound.payload? = [] := by
    refine List.filterMap_eq_nil_iff.mpr fun i mem => ?_
    obtain ⟨e, -, event⟩ := Option.bind_eq_some_iff.mp (Option.mem_toList.mp (List.mem_of_mem_drop mem))
    cases e <;> cases event <;> rfl
  rw [handed, List.drop_append, List.filterMap_append, event, List.append_nil, ← List.map_drop,
    List.filterMap_map]
  exact List.filterMap_some

theorem payloads_handed (l : Life) : l.handed.filterMap Inbound.payload? = l.arrived :=
  l.payloads_drop 0

/-- What came stays. -/
theorem arrived_after (l : Life) (h : Option Happening) : l.arrived <+: (l.after h).arrived := by
  have payloads := (l.handed_after h).filterMap Inbound.payload?
  rwa [payloads_handed, payloads_handed] at payloads

theorem readPayload?_outcome (e : Error) : readPayload? e.outcome = none := by
  unfold Error.outcome
  split <;> rfl

/-- The reads give what came, as far as they go. -/
theorem payloads_answers {answers : List (Except Error (Option Bytes))}
    (answered : ∀ n r, answers[n]? = some r → l.answer? n = some r) :
    answers.filterMap readPayload? = l.arrived.take answers.length := by
  induction answers generalizing l with
  | nil => rfl
  | cons r answers ih =>
    have first := answered 0 r rfl
    obtain ⟨arrived, fate⟩ := l
    cases arrived with
    | nil =>
      have rest : answers.filterMap readPayload? = [] :=
        (@ih ⟨[], fate⟩ fun n r read => answered (n + 1) r read).trans List.take_nil
      obtain ⟨e, -, rfl⟩ := Option.map_eq_some_iff.mp first
      rw [List.filterMap_cons, readPayload?_outcome, rest]
      rfl
    | cons data arrived =>
      have rest := @ih ⟨arrived, fate⟩ fun n r read => answered (n + 1) r read
      cases first
      rw [List.filterMap_cons, rest]
      rfl

end Life

namespace Conn

variable {c c' : Conn} {l : Life} {answers : List (Except Error (Option Bytes))} {e : Error}
  {r : Except Error (Option Bytes)}

/-- A reader waits only for what may still be handed over. -/
theorem dry_of_read? {fed : Bool} (waits : c.read? fed = none) : c.inbox = [] ∧ fed = true := by
  unfold read? at waits
  split at waits
  · cases waits
  · split at waits
    · cases waits
    · cases waits
    · cases waits
    · cases waits
    · next inbox =>
      split at waits
      · next fed => exact ⟨inbox, fed⟩
      · cases waits

/-- A connection shows a life, to a user whose reads got some answers. -/
structure Shows (c : Conn) (l : Life) (answers : List (Except Error (Option Bytes))) : Prop where
  terminal : c.terminal = l.fate
  inbox : c.inbox = l.handed.drop answers.length
  ended : c.ended = true ↔ l.fate = some (.aborted .closed) ∧ l.handed.length ≤ answers.length
  within : l.fate = none → answers.length ≤ l.arrived.length
  answered : ∀ {n r}, answers[n]? = some r → l.answer? n = some r

namespace Shows

theorem congr (h : c.Shows l answers) (same : c'.reading = c.reading) : c'.Shows l answers := by
  have terminal : c'.terminal = c.terminal := congrArg (·.terminal) same
  have inbox : c'.inbox = c.inbox := congrArg (·.inbox) same
  have ended : c'.ended = c.ended := congrArg (·.ended) same
  exact ⟨terminal ▸ h.terminal, inbox ▸ h.inbox, ended ▸ h.ended, h.within, h.answered⟩

theorem new (id : ConnId) : Shows { id } {} [] :=
  ⟨rfl, rfl, by simp, fun _ => Nat.le_refl _, nofun⟩

/-- The reads of a connection that has not ended have read nothing but payloads. -/
theorem arrived_of_open (h : c.Shows l answers) (goesOn : l.fate = none) {n : Nat}
    (read : answers[n]? = some r) : ∃ data, l.arrived[n]? = some data ∧ r = .ok (some data) := by
  have given := h.answered read
  cases here : l.arrived[n]? with
  | some data =>
    rw [Life.answer?_of_arrived here] at given
    exact ⟨data, rfl, (Option.some.inj given).symm⟩
  | none =>
    rw [Life.answer?_of_le (List.getElem?_eq_none_iff.mp here), goesOn] at given
    cases given

/-- The next payload is handed over. -/
theorem deliver (h : c.Shows l answers) (goesOn : l.fate = none) (data : Bytes) :
    (c.hand (.payload data)).Shows { l with arrived := l.arrived ++ [data] } answers := by
  have within := h.within goesOn
  refine ⟨h.terminal, ?_, ?_, fun _ => ?_, fun {n r} read => ?_⟩
  · rw [Life.handed_concat goesOn, List.drop_append_of_le_length, ← h.inbox]
    · rfl
    · exact Life.length_handed_of_open goesOn ▸ within
  · have before : c.ended = false := by simpa [goesOn] using h.ended
    simp [hand, before, goesOn]
  · exact Nat.le_trans within (by simp)
  · obtain ⟨payload, here, rfl⟩ := h.arrived_of_open goesOn read
    exact Life.answer?_of_arrived (List.getElem?_append_left (List.getElem?_eq_some_iff.mp here).1 ▸ here)

/-- The connection ends, and is handed what it is handed for that end. -/
theorem finish (h : c.Shows l answers) (goesOn : l.fate = none) (terminal : c'.terminal = some e)
    (inbox : c'.inbox = c.inbox ++ e.event?.toList) (ended : c'.ended = c.ended) :
    c'.Shows { l with fate := some e } answers := by
  have within := h.within goesOn
  have before := h.inbox
  rw [Life.handed_of_open goesOn] at before
  refine ⟨terminal, ?_, ?_, nofun, fun {n r} read => ?_⟩
  · rw [inbox, Life.handed_of_fate rfl, List.drop_append_of_le_length (by simpa using within), ← before]
  · have goesOn' : c.ended ≠ true := fun spent => by
      rw [h.ended, goesOn] at spent
      cases spent.1
    rw [ended]
    refine ⟨fun spent => absurd spent goesOn', fun ⟨fate, read⟩ => ?_⟩
    -- The event of the end is still to be read.
    cases fate
    rw [Life.handed_of_fate rfl] at read
    simp only [Error.event?, Option.toList_some, List.length_append, List.length_map,
      List.length_singleton] at read
    exact absurd (Nat.le_trans read within) (Nat.not_succ_le_self _)
  · obtain ⟨payload, here, rfl⟩ := h.arrived_of_open goesOn read
    exact Life.answer?_of_arrived here

/-- What the next read gives, in an inbox that holds something. -/
theorem answer?_of_inbox (h : c.Shows l answers) {i : Inbound} {rest : List Inbound}
    (inbox : c.inbox = i :: rest) : l.handed[answers.length]? = some i ∧
      l.answer? answers.length = some i.answer ∧ rest = l.handed.drop (answers.length + 1) := by
  have held := h.inbox.symm.trans inbox
  have here : l.handed[answers.length]? = some i := by
    rw [← List.head?_drop, held]
    rfl
  refine ⟨here, Life.answer?_of_handed here, ?_⟩
  rw [← List.tail_drop, held]
  rfl

theorem length_handed_le (h : c.Shows l answers) (inbox : c.inbox = []) :
    l.handed.length ≤ answers.length :=
  List.drop_eq_nil_iff.mp (h.inbox.symm.trans inbox)

/-- What a read gives, and when it has to wait: the reader is fed as long as the connection has not
ended. -/
theorem next (h : c.Shows l answers) :
    (c.read? l.fate.isNone).map Prod.snd = l.answer? answers.length := by
  cases given : c.read? l.fate.isNone with
  | none =>
    obtain ⟨inbox, fed⟩ := dry_of_read? given
    have goesOn : l.fate = none := by simpa using fed
    rw [Life.answer?_of_le (Nat.le_trans l.arrived_length_le (h.length_handed_le inbox)), goesOn]
    rfl
  | some outcome =>
    obtain ⟨c', r⟩ := outcome
    obtain ⟨spent, -, rfl⟩ | ⟨goesOn, ⟨i, rest, inbox, -, rfl⟩ | ⟨inbox, dry, -, rfl⟩⟩ :=
      read?_cases given
    · obtain ⟨fate, read⟩ := h.ended.mp spent
      rw [Life.answer?_of_le (Nat.le_trans l.arrived_length_le read), fate]
      rfl
    · exact (h.answer?_of_inbox inbox).2.1.symm
    · have read := h.length_handed_le inbox
      rw [Life.answer?_of_le (Nat.le_trans l.arrived_length_le read)]
      obtain ⟨e, fate⟩ := Option.isSome_iff_exists.mp (by simpa using dry : l.fate.isSome = true)
      have other : e ≠ .aborted .closed := fun closed => by
        rw [h.ended.mpr ⟨closed ▸ fate, read⟩] at goesOn
        cases goesOn
      rw [h.terminal, fate]
      have outcome : e.outcome = .error e := by
        unfold Error.outcome
        split
        · exact absurd rfl other
        · rfl
      exact congrArg some outcome.symm

theorem read (h : c.Shows l answers) (given : c.read? l.fate.isNone = some (c', r)) :
    c'.Shows l (answers ++ [r]) := by
  have answer : l.answer? answers.length = some r := by rw [← h.next, given]; rfl
  have answered {n : Nat} {r' : Except Error (Option Bytes)} (read : (answers ++ [r])[n]? = some r') :
      l.answer? n = some r' := by
    rw [List.getElem?_append] at read
    split at read
    · exact h.answered read
    · next beyond =>
      obtain ⟨last, rfl⟩ := List.getElem?_eq_some_iff.mp read
      rw [List.length_singleton] at last
      have last : n = answers.length := by omega
      subst last
      simpa using answer
  have within (goesOn : l.fate = none) : (answers ++ [r]).length ≤ l.arrived.length := by
    rw [List.length_append]
    refine Nat.not_lt.mp fun beyond => ?_
    rw [Life.answer?_of_le (Nat.le_of_lt_succ beyond), goesOn] at answer
    cases answer
  have length : (answers ++ [r]).length = answers.length + 1 := List.length_append
  obtain ⟨spent, rfl, rfl⟩ | ⟨goesOn, ⟨i, rest, inbox, rfl, rfl⟩ | ⟨inbox, -, rfl, rfl⟩⟩ :=
    read?_cases given
  · obtain ⟨fate, read⟩ := h.ended.mp spent
    have read' := Nat.le_succ_of_le read
    refine ⟨h.terminal, ?_, ?_, within, answered⟩
    · rw [h.inbox, length, List.drop_eq_nil_of_le read, List.drop_eq_nil_of_le read']
    · simp only [spent, fate, length, read', and_self]
  · obtain ⟨here, -, rest⟩ := h.answer?_of_inbox inbox
    refine ⟨h.terminal, length ▸ rest, ?_, within, answered⟩
    rw [length, ← Life.eq_closed_iff here]
    exact decide_eq_true_iff
  · have read := h.length_handed_le inbox
    have read' := Nat.le_succ_of_le read
    refine ⟨h.terminal, ?_, ?_, within, answered⟩
    · rw [h.inbox, length, List.drop_eq_nil_of_le read, List.drop_eq_nil_of_le read']
    · rw [h.ended, length]
      exact and_congr_right fun _ => iff_of_true read read'

end Shows

end Conn

end Tether.Session
