import Tether.Desk

/-!
# Settled desks

A desk tries its waiting calls in rounds until a round answers nobody. There are at most as many rounds as
calls, and then no one who waits can go on (`stuck_settle`). So after every call that is made at a desk,
each call that still waits has to.
-/

namespace Tether.Desk

variable {σ κ ρ γ : Type} {attempt : σ → κ → Option (σ × ρ)} {arrive : σ → γ → Arrival σ κ ρ}
  {state : σ} {line : List (Nat × κ)}

/-! ## Rounds -/

/-- No one in the line can go on. -/
def Stuck (attempt : σ → κ → Option (σ × ρ)) (state : σ) (line : List (Nat × κ)) : Prop :=
  ∀ p ∈ line, attempt state p.2 = none

theorem Stuck.round (stuck : Stuck attempt state line) :
    round attempt state line = ⟨state, line, []⟩ := by
  induction line with
  | nil => rfl
  | cons head line ih =>
    obtain ⟨first, rest⟩ := List.forall_mem_cons.mp stuck
    simp only [Desk.round, first, ih rest]

theorem stuck_of_round (still : (round attempt state line).answered = []) :
    Stuck attempt state line := by
  induction line with
  | nil => nofun
  | cons head line ih =>
    cases goes : attempt state head.2 with
    | none =>
      simp only [round, goes] at still
      exact List.forall_mem_cons.mpr ⟨goes, ih still⟩
    | some next =>
      simp only [round, goes] at still
      cases still

/-- Who waits after a round has waited before it, in the same order. -/
theorem waiting_round_sublist : (round attempt state line).waiting.Sublist line := by
  induction line generalizing state with
  | nil => exact .slnil
  | cons head line ih =>
    cases goes : attempt state head.2 with
    | none =>
      simp only [round, goes]
      exact ih.cons_cons head
    | some next =>
      simp only [round, goes]
      exact ih.cons head

/-- What no waiting call that goes on takes away. -/
def Stable (attempt : σ → κ → Option (σ × ρ)) (P : σ → Prop) : Prop :=
  ∀ {x y w a}, P x → attempt x w = some (y, a) → P y

theorem Stable.round {P : σ → Prop} (stable : Stable attempt P) (start : P state) :
    P (round attempt state line).state := by
  induction line generalizing state with
  | nil => exact start
  | cons head line ih =>
    cases goes : attempt state head.2 with
    | none =>
      simp only [Desk.round, goes]
      exact ih start
    | some next =>
      simp only [Desk.round, goes]
      exact ih (stable start goes)

/-- A call that can go on in every state that the others leave is answered in the round. -/
theorem mem_answered_round {P : σ → Prop} (stable : Stable attempt P) (start : P state)
    {number : Nat} {waiting : κ} {answer : ρ} (waits : (number, waiting) ∈ line)
    (goes : ∀ {x}, P x → ∃ y, attempt x waiting = some (y, answer)) :
    (number, answer) ∈ (round attempt state line).answered := by
  induction line generalizing state with
  | nil => cases waits
  | cons head line ih =>
    cases first : attempt state head.2 with
    | none =>
      simp only [round, first]
      cases waits with
      | head =>
        obtain ⟨y, now⟩ := goes start
        rw [first] at now
        cases now
      | tail _ later => exact ih start later
    | some next =>
      simp only [round, first]
      cases waits with
      | head =>
        obtain ⟨y, now⟩ := goes start
        rw [first] at now
        cases now
        exact List.mem_cons_self
      | tail _ later => exact List.mem_cons_of_mem _ (ih (stable start first) later)

/-- Where everyone gets one answer and the state stays, a round answers them all. -/
theorem round_of_all {answer : ρ} (all : ∀ p ∈ line, attempt state p.2 = some (state, answer)) :
    round attempt state line = ⟨state, [], line.map fun p => (p.1, answer)⟩ := by
  induction line with
  | nil => rfl
  | cons head line ih =>
    obtain ⟨first, rest⟩ := List.forall_mem_cons.mp all
    simp only [round, first, ih rest]
    rfl

/-! ## Settling -/

/-- So many rounds, one after another. -/
def rounds (attempt : σ → κ → Option (σ × ρ)) : Nat → σ → List (Nat × κ) → Round σ κ ρ
  | 0, state, line => ⟨state, line, []⟩
  | n + 1, state, line =>
    let r := round attempt state line
    let s := rounds attempt n r.state r.waiting
    { s with answered := r.answered ++ s.answered }

/-- The rounds end: each of them but the last answers someone. -/
theorem exists_settle_eq_rounds (attempt : σ → κ → Option (σ × ρ)) (state : σ)
    (line : List (Nat × κ)) :
    ∃ n ≤ line.length, settle attempt state line = rounds attempt n state line := by
  induction state, line using settle.induct attempt with
  | case1 state line r still =>
    refine ⟨0, Nat.zero_le _, ?_⟩
    rw [settle, if_pos still, (stuck_of_round still).round]
    rfl
  | case2 state line r moved ih =>
    obtain ⟨n, few, same⟩ := ih
    have fewer : r.waiting.length + r.answered.length = line.length :=
      round_length attempt state line
    have some_answered : 0 < r.answered.length := List.length_pos_iff.mpr moved
    refine ⟨n + 1, by omega, ?_⟩
    rw [settle, if_neg moved, same]
    rfl

/-- When all is settled, no one who waits can go on. -/
theorem stuck_settle (attempt : σ → κ → Option (σ × ρ)) (state : σ) (line : List (Nat × κ)) :
    Stuck attempt (settle attempt state line).state (settle attempt state line).waiting := by
  induction state, line using settle.induct attempt with
  | case1 state line r still =>
    have stuck := stuck_of_round still
    rw [settle, if_pos still, stuck.round]
    exact stuck
  | case2 state line r moved ih =>
    rw [settle, if_neg moved]
    exact ih

theorem Stable.settle {P : σ → Prop} (stable : Stable attempt P) (start : P state) :
    P (settle attempt state line).state := by
  induction state, line using Desk.settle.induct attempt with
  | case1 state line r still =>
    rw [Desk.settle, if_pos still]
    exact stable.round start
  | case2 state line r moved ih =>
    rw [Desk.settle, if_neg moved]
    exact ih (stable.round start)

theorem mem_answered_settle {p : Nat × ρ} (now : p ∈ (round attempt state line).answered) :
    p ∈ (settle attempt state line).answered := by
  rw [settle]
  split
  · exact now
  · exact List.mem_append_left _ now

theorem settle_of_all {answer : ρ} (all : ∀ p ∈ line, attempt state p.2 = some (state, answer)) :
    settle attempt state line = ⟨state, [], line.map fun p => (p.1, answer)⟩ := by
  have once := round_of_all all
  have none_left : settle attempt state [] = ⟨state, [], []⟩ := by
    rw [settle]
    rfl
  rw [settle, once]
  split
  · rfl
  · simp only [none_left, List.append_nil]

theorem Stuck.settle (stuck : Stuck attempt state line) :
    settle attempt state line = ⟨state, line, []⟩ := by
  rw [Desk.settle, stuck.round]
  rfl

/-! ## Telling those who wait

Most answers change nothing for those who wait. Then it is enough to try them again when one of the other
answers was given. -/

/-- An answer that tells no one leaves everyone stuck who was. -/
def Quiet (attempt : σ → κ → Option (σ × ρ)) (tells : ρ → Bool) : Prop :=
  ∀ {x y w v a}, attempt x w = none → attempt x v = some (y, a) → tells a = false →
    attempt y w = none

/-- Tries the waiting calls in rounds, as long as an answer tells them to try again. -/
def alert (attempt : σ → κ → Option (σ × ρ)) (tells : ρ → Bool) (state : σ)
    (waiting : List (Nat × κ)) : Round σ κ ρ :=
  let r := round attempt state waiting
  if r.answered.any (tells ·.2) then
    let s := alert attempt tells r.state r.waiting
    { s with answered := r.answered ++ s.answered }
  else r
termination_by waiting.length
decreasing_by
  rename_i told
  have fewer := round_length attempt state waiting
  obtain ⟨p, answered, -⟩ := List.any_eq_true.mp told
  have : 0 < (round attempt state waiting).answered.length := List.length_pos_of_mem answered
  change (round attempt state waiting).waiting.length < waiting.length
  omega

section Alert

variable {tells : ρ → Bool}

theorem still_of_round (quiet : Quiet attempt tells)
    (silent : ∀ p ∈ (round attempt state line).answered, tells p.2 = false) {w : κ}
    (still : attempt state w = none) : attempt (round attempt state line).state w = none := by
  induction line generalizing state with
  | nil => exact still
  | cons head line ih =>
    cases goes : attempt state head.2 with
    | none =>
      simp only [round, goes] at silent ⊢
      exact ih silent still
    | some next =>
      simp only [round, goes] at silent ⊢
      obtain ⟨first, rest⟩ := List.forall_mem_cons.mp silent
      exact ih rest (quiet still goes first)

theorem stuck_of_silent_round (quiet : Quiet attempt tells)
    (silent : ∀ p ∈ (round attempt state line).answered, tells p.2 = false) :
    Stuck attempt (round attempt state line).state (round attempt state line).waiting := by
  induction line generalizing state with
  | nil => exact List.forall_mem_nil _
  | cons head line ih =>
    cases goes : attempt state head.2 with
    | none =>
      simp only [round, goes] at silent ⊢
      exact List.forall_mem_cons.mpr ⟨still_of_round quiet silent goes, ih silent⟩
    | some next =>
      simp only [round, goes] at silent ⊢
      exact ih (List.forall_mem_cons.mp silent).2

/-- Those who are not told to try again would have tried in vain. -/
theorem alert_eq_settle (quiet : Quiet attempt tells) (state : σ) (line : List (Nat × κ)) :
    alert attempt tells state line = settle attempt state line := by
  induction state, line using alert.induct attempt tells with
  | case1 state line r told ih =>
    have moved : r.answered ≠ [] := by
      intro nothing
      rw [nothing] at told
      cases told
    rw [alert, if_pos told, settle, if_neg moved, ih]
  | case2 state line r untold =>
    have silent : ∀ p ∈ r.answered, tells p.2 = false := by
      intro p answered
      simpa using List.any_eq_false.mp (Bool.eq_false_iff.mpr untold) p answered
    have rest : settle attempt (round attempt state line).state
        (round attempt state line).waiting = ⟨r.state, r.waiting, []⟩ :=
      (stuck_of_silent_round quiet silent).settle
    rw [alert, if_neg untold, settle]
    split
    · rfl
    · rw [rest]
      exact congrArg (Round.mk r.state r.waiting) (List.append_nil r.answered).symm

end Alert

/-! ## Calls in turn -/

/-- A call leaves at most itself more to try. -/
theorem length_enter (d : Desk σ κ) (a : Arrival σ κ ρ) :
    (d.enter a).2.1.length ≤ d.waiting.length + 1 := by
  cases a with
  | answers => exact Nat.le_succ _
  | waits => exact Nat.le_of_eq List.length_append
  | withdraws => exact Nat.le_succ_of_le (List.length_filter_le _ _)

section Calls

variable (attempt arrive)

/-- The desk after calls, with all settled after each. -/
def serve (d : Desk σ κ) (calls : List γ) : Desk σ κ :=
  calls.foldl (fun d c => (d.call attempt (arrive d.state c)).1) d

theorem serve_concat (d : Desk σ κ) (calls : List γ) (c : γ) :
    d.serve attempt arrive (calls ++ [c]) =
      ((d.serve attempt arrive calls).call attempt
        (arrive (d.serve attempt arrive calls).state c)).1 := by
  simp only [serve, List.foldl_append, List.foldl_cons, List.foldl_nil]

/-- The last reply of a run is what the desk shows that the other calls have left. -/
theorem run_concat (d : Desk σ κ) (calls : List γ) (c : γ) :
    run attempt arrive d (calls ++ [c]) = run attempt arrive d calls ++
      [((d.serve attempt arrive calls).call attempt
        (arrive (d.serve attempt arrive calls).state c)).2] := by
  induction calls generalizing d with
  | nil => rfl
  | cons first calls ih =>
    simp only [List.cons_append, run, ih]
    rfl

variable {attempt arrive}

/-- Where no one waits in vain at first, no one ever does. -/
theorem stuck_serve {d : Desk σ κ} (start : Stuck attempt d.state d.waiting) (calls : List γ) :
    Stuck attempt (d.serve attempt arrive calls).state (d.serve attempt arrive calls).waiting := by
  induction calls generalizing d with
  | nil => exact start
  | cons c calls ih => exact ih (stuck_settle attempt _ _)

end Calls

end Tether.Desk
