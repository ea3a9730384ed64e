import Tether.Proofs.Desk.Settling

/-!
# Shifts at a desk

A desk that settles after every call is one way to serve the calls that wait. During a shift nothing is
settled: calls are made, given up and tried again one at a time, at any moment and in any order. What
every shift keeps holds at a desk that settles too, since to settle is to try waiting calls again, from
the oldest on (`exists_shift`).

A shift remembers the calls made and the answers given, so that laws can speak of all of them.
-/

namespace Tether.Desk

variable {σ τ κ ρ γ : Type}

/-- What can happen at a desk. -/
inductive Event (γ : Type) where
  | call (c : γ)
  /-- The waiting call at a place of the line is tried again. -/
  | retry (place : Nat)
  deriving DecidableEq, Repr

/-- A desk, with the calls made at it and the answers given, each in the order of events. The place of a
call among those made is its number. -/
structure Shift (σ κ ρ γ : Type) where
  desk : Desk σ κ
  made : List γ := []
  answered : List (Nat × ρ) := []

namespace Shift

/-- A call is made, and no other is tried. -/
def call (arrive : σ → γ → Arrival σ κ ρ) (s : Shift σ κ ρ γ) (c : γ) : Shift σ κ ρ γ :=
  let (state, waiting, answer) := s.desk.enter (arrive s.desk.state c)
  { desk := ⟨state, waiting, s.desk.made + 1⟩
    made := s.made ++ [c]
    answered := s.answered ++ (answer.map fun a => (s.desk.made, a)).toList }

/-- The waiting call at a place is tried again, if there is one. -/
def retry (attempt : σ → κ → Option (σ × ρ)) (s : Shift σ κ ρ γ) (place : Nat) : Shift σ κ ρ γ :=
  match s.desk.waiting[place]? with
  | none => s
  | some (number, waiting) =>
    match attempt s.desk.state waiting with
    | none => s
    | some (state, answer) =>
      { s with
        desk := { s.desk with state, waiting := s.desk.waiting.eraseIdx place }
        answered := s.answered ++ [(number, answer)] }

section Runs

variable (attempt : σ → κ → Option (σ × ρ)) (arrive : σ → γ → Arrival σ κ ρ)

def step (s : Shift σ κ ρ γ) : Event γ → Shift σ κ ρ γ
  | .call c => s.call arrive c
  | .retry place => s.retry attempt place

def run (s : Shift σ κ ρ γ) (events : List (Event γ)) : Shift σ κ ρ γ :=
  events.foldl (step attempt arrive) s

/-- Everything that an event can do. -/
inductive Steps (s : Shift σ κ ρ γ) : Shift σ κ ρ γ → Prop where
  | rests : Steps s s
  | goesOn {before after : List (Nat × κ)} {number : Nat} {waiting : κ} {state : σ} {answer : ρ}
    (line : s.desk.waiting = before ++ (number, waiting) :: after)
    (goes : attempt s.desk.state waiting = some (state, answer)) :
    Steps s
      { s with
        desk := { s.desk with state, waiting := before ++ after }
        answered := s.answered ++ [(number, answer)] }
  | answers {c : γ} {state : σ} {answer : ρ}
    (arrives : arrive s.desk.state c = .answers state answer) :
    Steps s
      { desk := ⟨state, s.desk.waiting, s.desk.made + 1⟩
        made := s.made ++ [c]
        answered := s.answered ++ [(s.desk.made, answer)] }
  | waits {c : γ} {waiting : κ} (arrives : arrive s.desk.state c = .waits waiting) :
    Steps s
      { desk := ⟨s.desk.state, s.desk.waiting ++ [(s.desk.made, waiting)], s.desk.made + 1⟩
        made := s.made ++ [c]
        answered := s.answered }
  | withdraws {c : γ} {number : Nat} {answer : Bool → ρ}
    (arrives : arrive s.desk.state c = .withdraws number answer) :
    Steps s
      { desk := ⟨s.desk.state, s.desk.waiting.filter (·.1 ≠ number), s.desk.made + 1⟩
        made := s.made ++ [c]
        answered := s.answered ++
          [(s.desk.made, answer (s.desk.waiting.any (·.1 = number)))] }

variable {attempt arrive}

theorem steps_step (s : Shift σ κ ρ γ) (event : Event γ) :
    s.Steps attempt arrive (s.step attempt arrive event) := by
  cases event with
  | call c =>
    simp only [step, call]
    cases arrives : arrive s.desk.state c with
    | answers state answer => exact .answers arrives
    | waits waiting =>
      simp only [enter, Option.map_none, Option.toList_none, List.append_nil]
      exact .waits arrives
    | withdraws number answer => exact .withdraws arrives
  | retry place =>
    simp only [step, retry]
    split
    · exact .rests
    · next number waiting found =>
      split
      · exact .rests
      · next state answer goes =>
        obtain ⟨bound, here⟩ := List.getElem?_eq_some_iff.mp found
        rw [List.eraseIdx_eq_take_drop_succ]
        refine .goesOn ?_ goes
        rw [← here, List.getElem_cons_drop, List.take_append_drop]

/-- What one step keeps holds after every run. -/
theorem run_induction {P : Shift σ κ ρ γ → Prop} {s : Shift σ κ ρ γ} (start : P s)
    (step : ∀ {s s'}, P s → s.Steps attempt arrive s' → P s') (events : List (Event γ)) :
    P (s.run attempt arrive events) := by
  induction events generalizing s with
  | nil => exact start
  | cons event events ih => exact ih (step start (s.steps_step event))

theorem run_append (s : Shift σ κ ρ γ) (earlier later : List (Event γ)) :
    s.run attempt arrive (earlier ++ later) =
      (s.run attempt arrive earlier).run attempt arrive later :=
  List.foldl_append

end Runs

/-! ## Two objects with the same answers -/

section Images

variable {attempt : σ → κ → Option (σ × ρ)} {arrive : σ → γ → Arrival σ κ ρ}
  {attempt' : τ → κ → Option (τ × ρ)} {arrive' : τ → γ → Arrival τ κ ρ} {f : σ → τ}

/-- The same fate, for the image of the state. -/
def image (f : σ → τ) : Arrival σ κ ρ → Arrival τ κ ρ
  | .answers state answer => .answers (f state) answer
  | .waits waiting => .waits waiting
  | .withdraws number answer => .withdraws number answer

/-- The same shift at the image of the state. -/
def map (f : σ → τ) (s : Shift σ κ ρ γ) : Shift τ κ ρ γ :=
  { desk := { state := f s.desk.state, waiting := s.desk.waiting, made := s.desk.made }
    made := s.made
    answered := s.answered }

theorem step_map {s : Shift σ κ ρ γ}
    (tries : ∀ w, attempt' (f s.desk.state) w = (attempt s.desk.state w).map (Prod.map f id))
    (arrives : ∀ c, arrive' (f s.desk.state) c = image f (arrive s.desk.state c))
    (event : Event γ) :
    (s.map f).step attempt' arrive' event = (s.step attempt arrive event).map f := by
  cases event with
  | call c =>
    simp only [step, call, map, arrives]
    cases arrive s.desk.state c <;> rfl
  | retry place =>
    simp only [step, retry, map]
    cases found : s.desk.waiting[place]? with
    | none => rfl
    | some entry =>
      simp only [tries]
      cases attempt s.desk.state entry.2 <;> rfl

/-- Two objects whose calls do the same in every state that a shift reaches give the same answers. -/
theorem run_map {s : Shift σ κ ρ γ} {P : σ → Prop}
    (reached : ∀ events, P (s.run attempt arrive events).desk.state)
    (tries : ∀ {x}, P x → ∀ w, attempt' (f x) w = (attempt x w).map (Prod.map f id))
    (arrives : ∀ {x}, P x → ∀ c, arrive' (f x) c = image f (arrive x c))
    (events : List (Event γ)) :
    (s.map f).run attempt' arrive' events = (s.run attempt arrive events).map f := by
  induction events generalizing s with
  | nil => rfl
  | cons event events ih =>
    have here : P s.desk.state := reached []
    show ((s.map f).step attempt' arrive' event).run attempt' arrive' events = _
    rw [step_map (tries here) (arrives here)]
    exact ih fun later => reached (event :: later)

end Images

end Shift

/-! ## Desks that settle -/

section Settling

variable {attempt : σ → κ → Option (σ × ρ)} {arrive : σ → γ → Arrival σ κ ρ}

/-- A round tries the waiting calls in turn. Those that wait on gather in front. -/
theorem exists_shift_round (state : σ) (kept line : List (Nat × κ)) (number : Nat) (made : List γ)
    (answered : List (Nat × ρ)) :
    let r := round attempt state line
    ∃ places : List Nat, (Shift.mk ⟨state, kept ++ line, number⟩ made answered).run attempt arrive
        (places.map .retry) =
      ⟨⟨r.state, kept ++ r.waiting, number⟩, made, answered ++ r.answered⟩ := by
  induction line generalizing state kept answered with
  | nil => exact ⟨[], by simp [round, Shift.run]⟩
  | cons head line ih =>
    obtain ⟨caller, waiting⟩ := head
    cases goes : attempt state waiting with
    | none =>
      obtain ⟨places, same⟩ := ih state (kept ++ [(caller, waiting)]) answered
      refine ⟨places, ?_⟩
      simpa [round, goes] using same
    | some next =>
      obtain ⟨places, same⟩ := ih next.1 kept (answered ++ [(caller, next.2)])
      refine ⟨kept.length :: places, ?_⟩
      have first : (Shift.mk ⟨state, kept ++ (caller, waiting) :: line, number⟩ made answered).step
          attempt arrive (.retry kept.length) =
            ⟨⟨next.1, kept ++ line, number⟩, made, answered ++ [(caller, next.2)]⟩ := by
        simp [Shift.step, Shift.retry, goes, List.eraseIdx_append_of_length_le]
      show Shift.run attempt arrive (Shift.step attempt arrive _ _) _ = _
      rw [first, same]
      simp [round, goes]

theorem exists_shift_settle (state : σ) (line : List (Nat × κ)) (number : Nat) (made : List γ)
    (answered : List (Nat × ρ)) :
    ∃ places : List Nat, (Shift.mk ⟨state, line, number⟩ made answered).run attempt arrive
        (places.map .retry) =
      ⟨⟨(settle attempt state line).state, (settle attempt state line).waiting, number⟩, made,
        answered ++ (settle attempt state line).answered⟩ := by
  induction state, line using settle.induct attempt generalizing answered with
  | case1 state line r still =>
    obtain ⟨places, once⟩ :=
      @exists_shift_round _ _ _ _ attempt arrive state [] line number made answered
    rw [settle, if_pos still]
    exact ⟨places, once⟩
  | case2 state line r moved ih =>
    obtain ⟨places, once⟩ :=
      @exists_shift_round _ _ _ _ attempt arrive state [] line number made answered
    obtain ⟨more, again⟩ := ih (answered ++ r.answered)
    refine ⟨places ++ more, ?_⟩
    simp only [List.nil_append] at once
    rw [settle, if_neg moved, List.map_append, Shift.run_append, once, again, List.append_assoc]

/-- A desk that settles after every call is reached by a shift. -/
theorem exists_shift (s : Shift σ κ ρ γ) (calls : List γ) : ∃ events,
    (s.run attempt arrive events).desk = s.desk.serve attempt arrive calls ∧
      (s.run attempt arrive events).made = s.made ++ calls := by
  induction calls generalizing s with
  | nil => exact ⟨[], rfl, (List.append_nil _).symm⟩
  | cons c calls ih =>
    obtain ⟨places, settled⟩ := @exists_shift_settle _ _ _ _ attempt arrive
      (s.call arrive c).desk.state (s.call arrive c).desk.waiting (s.call arrive c).desk.made
      (s.call arrive c).made (s.call arrive c).answered
    obtain ⟨events, reached, made⟩ := ih ((s.call arrive c).run attempt arrive (places.map .retry))
    refine ⟨.call c :: (places.map .retry ++ events), ?_⟩
    show (Shift.run attempt arrive (s.call arrive c) _).desk = _ ∧
      (Shift.run attempt arrive (s.call arrive c) _).made = _
    rw [Shift.run_append]
    refine ⟨reached.trans ?_, made.trans ?_⟩
    · rw [settled]
      rfl
    · rw [settled]
      show s.made ++ [c] ++ calls = _
      rw [List.append_assoc]
      rfl

end Settling

end Tether.Desk
