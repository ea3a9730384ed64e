import Tether.Proofs.Stream.Refusal

/-!
# Who is told of a change

The calls that wait on a buffer sleep until they are told that it has changed. A call tells them when it
has made something possible: when it appended a unit, took a count of the peer, or aborted. A reader does
not, though it moves the cursor, and no call does that failed.

That is enough. A call that tells no one leaves everyone who waits where they were (`still_of_answers`), so
a buffer that tries them only when they are told does the same as one that tries them after every call
(`told_eq_call`), and no one sleeps who could go on.
-/

namespace Tether.Stream.Buffer

open Desk (Stuck)

variable {b b' : Buffer} {w v : Waiting} {a : Answer} {c : Call} {chunk : Bytes}

/-! ## Who waits -/

theorem attempt_write_eq_none_iff :
    b.attempt (.write chunk) = none ↔
      chunk ≠ [] ∧ b.aborted = none ∧ b.closed = false ∧ b.capacity ≤ b.units.length := by
  rw [attempt, Option.map_eq_none_iff]
  unfold write? hasRoom
  by_cases empty : chunk = []
  · simp [empty]
  · cases b.aborted with
    | some e => simp [empty]
    | none => cases b.closed <;> simp [empty]

theorem attempt_next_eq_none_iff :
    b.attempt .next = none ↔ b.aborted = none ∧ b.units[b.cursor - b.acked]? = none := by
  rw [attempt, Option.map_eq_none_iff]
  unfold next?
  cases b.aborted with
  | some e => simp
  | none => cases b.units[b.cursor - b.acked]? <;> simp

/-- Everything that a call can do that goes on after it waited. -/
inductive GoesOn (b : Buffer) : Waiting → Buffer → Answer → Prop where
  | fails {w : Waiting} {e : Error} : GoesOn b w b (.failed e)
  | writes {chunk : Bytes} : GoesOn b (.write chunk) { b with units := b.units ++ [chunk] } (.seq b.total)
  | hands {data : Bytes} (found : b.units[b.cursor - b.acked]? = some data) :
    GoesOn b .next { b with cursor := b.cursor + 1 } (.unit b.cursor data)

theorem goesOn_of_attempt (goes : b.attempt w = some (b', a)) : b.GoesOn w b' a := by
  cases w with
  | write chunk =>
    obtain ⟨⟨b₁, r⟩, written, same⟩ := Option.map_eq_some_iff.mp goes
    cases r with
    | error e =>
      cases same
      rw [write?_eq_error written]
      exact .fails
    | ok n =>
      cases same
      obtain ⟨-, -, -, -, rfl, rfl⟩ := write?_eq_ok.mp written
      exact .writes
  | next =>
    obtain ⟨⟨b₁, r⟩, handed, same⟩ := Option.map_eq_some_iff.mp goes
    cases r with
    | error e =>
      cases same
      rw [(next?_eq_error_iff.mp handed).1]
      exact .fails
    | ok unit =>
      cases same
      obtain ⟨-, number, found, rfl⟩ := next?_eq_ok.mp handed
      rw [number]
      exact .hands found

/-! ## Telling -/

/-- Whether a call tells those who wait, by what it has answered. A second close changes nothing. -/
def announces (b : Buffer) : Call → Answer → Bool
  | .write _, .seq _ | .seek _, .done | .ack _, .done | .abort _, _ => true
  | .close, .done => !b.closed
  | _, _ => false

/-- Makes a call where those who wait are tried again only when they are told. Of the calls that go on then,
the completed writes tell the others. -/
def told (d : Desk Buffer Waiting) (c : Call) : Desk Buffer Waiting × Desk.Reply Buffer Answer :=
  let (state, line, answer) := d.enter (arrive d.state c)
  let r : Desk.Round Buffer Waiting Answer :=
    if answer.any (announces d.state c) then
      Desk.alert attempt (fun a => a.seq?.isSome) state line
    else ⟨state, line, []⟩
  (⟨r.state, r.waiting, d.made + 1⟩, ⟨answer, r.answered, r.state⟩)

/-- Handing out a unit lets no one else go on, and neither does a failure. -/
theorem quiet_attempt : Desk.Quiet attempt fun a => a.seq?.isSome := by
  intro b b' w v a still goes silent
  cases goesOn_of_attempt goes with
  | fails => exact still
  | writes => cases silent
  | hands found =>
    cases w with
    | write chunk =>
      have waits := attempt_write_eq_none_iff.mp still
      exact attempt_write_eq_none_iff.mpr waits
    | next =>
      obtain ⟨-, missing⟩ := attempt_next_eq_none_iff.mp still
      rw [missing] at found
      cases found

/-- A call that tells no one has changed nothing for those who wait. -/
theorem still_of_answers (still : b.attempt w = none)
    (arrives : b.arrive c = .answers b' a) (silent : b.announces c a = false) :
    b'.attempt w = none := by
  have tries {v : Waiting} (now : arrive.orWaits b v = .answers b' a)
      (silent : b.GoesOn v b' a → a.seq?.isSome = false) : b'.attempt w = none := by
    unfold arrive.orWaits at now
    split at now
    · next goes =>
      cases now
      exact quiet_attempt still goes (silent (goesOn_of_attempt goes))
    · cases now
  have plain {r : Buffer × Except Error Unit} (now : arrive.plain r = .answers b' a)
      (failed : ∀ {e}, r = (b', .error e) → b' = b) (done : r = (b', .ok ()) → a = .done → b' = b) :
      b'.attempt w = none := by
    obtain ⟨b₁, r⟩ := r
    cases r with
    | error e =>
      cases now
      rw [failed rfl]
      exact still
    | ok =>
      cases now
      rw [done rfl rfl]
      exact still
  cases c with
  | write chunk =>
    apply tries arrives
    intro goes
    cases goes with
    | fails => rfl
    | writes => cases silent
  | next =>
    apply tries arrives
    intro goes
    cases goes <;> rfl
  | close =>
    apply plain arrives (fun failed => (close_eq_error_iff.mp failed).1)
    rintro closes rfl
    have closed : b.closed = true := by simpa [announces] using silent
    obtain ⟨same, -⟩ | ⟨-, opened, -⟩ := b.close_cases
    · rw [closes] at same
      exact same
    · rw [closed] at opened
      cases opened
  | seek count =>
    apply plain arrives (fun failed => ((take_eq_error_iff count count).mp failed).1)
    rintro - rfl
    cases silent
  | ack count =>
    apply plain arrives (fun failed => ((take_eq_error_iff count _).mp failed).1)
    rintro - rfl
    cases silent
  | abort e => cases silent
  | cancel number => cases arrives

/-- Where no one is told, no one who waits after a call can go on. -/
theorem stuck_enter {d : Desk Buffer Waiting} (stuck : Stuck attempt d.state d.waiting)
    (silent : (d.enter (arrive d.state c)).2.2.any (announces d.state c) = false) :
    Stuck attempt (d.enter (arrive d.state c)).1 (d.enter (arrive d.state c)).2.1 := by
  cases arrives : arrive d.state c with
  | answers state answer =>
    rw [arrives] at silent
    intro p waits
    exact still_of_answers (stuck p waits) arrives silent
  | waits waiting =>
    intro p waits
    obtain before | new := List.mem_append.mp waits
    · exact stuck p before
    · cases List.mem_singleton.mp new
      exact attempt_of_arrive arrives
  | withdraws number answer =>
    intro p waits
    exact stuck p (List.mem_filter.mp waits).1

/-- To try those who wait when they are told does the same as to try them after every call. -/
theorem told_eq_call {d : Desk Buffer Waiting} (stuck : Stuck attempt d.state d.waiting)
    (c : Call) : told d c = d.call attempt (arrive d.state c) := by
  let e := d.enter (arrive d.state c)
  have same : (if e.2.2.any (announces d.state c) then
        Desk.alert attempt (fun a => a.seq?.isSome) e.1 e.2.1
      else ⟨e.1, e.2.1, []⟩) = Desk.settle attempt e.1 e.2.1 := by
    split
    · exact Desk.alert_eq_settle quiet_attempt e.1 e.2.1
    · next silent => exact (stuck_enter stuck (Bool.eq_false_iff.mpr silent)).settle.symm
  exact congrArg (fun r : Desk.Round Buffer Waiting Answer =>
    (Desk.mk r.state r.waiting (d.made + 1), Desk.Reply.mk e.2.2 r.answered r.state)) same

end Tether.Stream.Buffer
