/-!
# Waiting calls

Some calls on a shared object cannot be answered at once. A desk keeps them in the order they were
made and, after every change, tries them again from the oldest on, over and over until no one can go
on. Each round that answers a call leaves fewer waiting (`round_length`), so the rounds end.
-/

namespace Tether

/-- An object of state `σ` with the calls of form `κ` that wait on it, each with its number. -/
structure Desk (σ κ : Type) where
  state : σ
  waiting : List (Nat × κ) := []
  /-- How many calls were made, which is the number of the next one. -/
  made : Nat := 0

namespace Desk

variable {σ κ ρ : Type}

/-- What becomes of a call when it is made. -/
inductive Arrival (σ κ ρ : Type) where
  /-- It is answered at once. -/
  | answers (state : σ) (answer : ρ)
  /-- It has to wait. -/
  | waits (call : κ)
  /-- It gives up the waiting call of a number, and answers whether that one still waited. -/
  | withdraws (number : Nat) (answer : Bool → ρ)

/-- What a call shows: its own answer, unless it waits, the waiting calls that went on because of
it, in the order in which they did, and the state after all that. -/
structure Reply (σ ρ : Type) where
  answer : Option ρ
  answered : List (Nat × ρ)
  state : σ

/-- What one round over the waiting calls gives. -/
structure Round (σ κ ρ : Type) where
  state : σ
  waiting : List (Nat × κ)
  answered : List (Nat × ρ)

/-- Tries every waiting call once, oldest first. -/
def round (attempt : σ → κ → Option (σ × ρ)) (state : σ) : List (Nat × κ) → Round σ κ ρ
  | [] => ⟨state, [], []⟩
  | (number, call) :: rest =>
    match attempt state call with
    | some (state, answer) =>
      let r := round attempt state rest
      { r with answered := (number, answer) :: r.answered }
    | none =>
      let r := round attempt state rest
      { r with waiting := (number, call) :: r.waiting }

/-- A round loses no call: each one waits on or was answered. -/
theorem round_length (attempt : σ → κ → Option (σ × ρ)) (state : σ) (waiting : List (Nat × κ)) :
    (round attempt state waiting).waiting.length + (round attempt state waiting).answered.length
      = waiting.length := by
  induction waiting generalizing state with
  | nil => rfl
  | cons head rest ih =>
    obtain ⟨number, call⟩ := head
    cases h : attempt state call with
    | none =>
      have := ih state
      simp only [round, h, List.length_cons]
      omega
    | some next =>
      have := ih next.1
      simp only [round, h, List.length_cons]
      omega

/-- Tries the waiting calls until no one can go on. -/
def settle (attempt : σ → κ → Option (σ × ρ)) (state : σ) (waiting : List (Nat × κ)) :
    Round σ κ ρ :=
  let r := round attempt state waiting
  if r.answered = [] then r
  else
    let s := settle attempt r.state r.waiting
    { s with answered := r.answered ++ s.answered }
termination_by waiting.length
decreasing_by
  rename_i h
  have := round_length attempt state waiting
  have : 0 < (round attempt state waiting).answered.length := List.length_pos_iff.mpr h
  change (round attempt state waiting).waiting.length < waiting.length
  omega

/-- The state, the waiting calls and the answer right after a call was made. -/
def enter (d : Desk σ κ) : Arrival σ κ ρ → σ × List (Nat × κ) × Option ρ
  | .answers state answer => (state, d.waiting, some answer)
  | .waits call => (d.state, d.waiting ++ [(d.made, call)], none)
  | .withdraws number answer =>
    (d.state, d.waiting.filter (·.1 ≠ number), some (answer (d.waiting.any (·.1 = number))))

/-- Makes a call, and then lets every waiting call go on that can. -/
def call (attempt : σ → κ → Option (σ × ρ)) (d : Desk σ κ) (a : Arrival σ κ ρ) :
    Desk σ κ × Reply σ ρ :=
  let (state, waiting, answer) := d.enter a
  let r := settle attempt state waiting
  (⟨r.state, r.waiting, d.made + 1⟩, ⟨answer, r.answered, r.state⟩)

/-- Makes calls in turn. `arrive` says what becomes of a call in a state. -/
def run {γ : Type} (attempt : σ → κ → Option (σ × ρ)) (arrive : σ → γ → Arrival σ κ ρ)
    (d : Desk σ κ) : List γ → List (Reply σ ρ)
  | [] => []
  | c :: rest =>
    let (d, reply) := d.call attempt (arrive d.state c)
    reply :: run attempt arrive d rest

end Desk

end Tether
