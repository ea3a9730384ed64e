import Tether.Proofs.Chain.Verdicts
import Tether.Proofs.Link.Pipe

/-!
# What ends a chain whose links fail

A dialer that was never admitted takes the answer that its chain is closed to mean that its first
dial is lost, and starts its numbers over. The dial may only be late. If the listener reads it after
all, it opens the chain, and the dialer's next first attempt is a duplicate, which is final. Any
later dial from before a new start can do the same.

Nothing else ends a chain. Between two starts the numbers grow, so a dial is a duplicate only to one
that was sent before its last start. And once the dialer was admitted, the register knows the chain.
-/

namespace Tether.Chain

open Link (Side)

private theorem getElem?_concat {α : Type} {xs : List α} {x y : α} {i : Nat}
    (found : (xs ++ [x])[i]? = some y) : xs[i]? = some y ∨ i = xs.length ∧ y = x := by
  rw [List.getElem?_append] at found
  split at found
  · exact .inl found
  · rw [List.getElem?_singleton] at found
    split at found
    · exact .inr ⟨by omega, (Option.some.inj found).symm⟩
    · cases found

theorem Number.Before.trans {a b c : Number} (h : a.Before b) (h' : b.Before c) : a.Before c := by
  unfold Before at *
  omega

theorem Number.Before.epoch_le {a b : Number} (h : a.Before b) : a.epoch ≤ b.epoch := by
  unfold Before at h
  omega

theorem Number.not_before_self (a : Number) : ¬a.Before a := by
  unfold Before
  omega

/-! ## Links -/

/-- What a link carries in a handshake. -/
structure Line.Fair (l : Line) (id : Id) (judged : List (Number × Verdict)) : Prop where
  dial : l.hearing = .awaiting →
    ∀ m ∈ (l.pipe.outgoing .near).queue, m = Dial.encode ⟨id, l.number.seq⟩
  unheard : l.hearing = .awaiting → ∀ v, (l.number, v) ∉ judged
  verdict : ∀ v, l.hearing = .answering v → (l.number, v) ∈ judged
  answer : ∀ m ∈ (l.pipe.outgoing .far).queue, ∃ v, (l.number, v) ∈ judged ∧ m = v.answer.encode

namespace Line.Fair

variable {l : Line} {id : Id} {judged : List (Number × Verdict)} {pipe : Link.Pipe}

theorem fewer (h : l.Fair id judged)
    (forth : (pipe.outgoing .near).queue ⊆ (l.pipe.outgoing .near).queue)
    (back : (pipe.outgoing .far).queue ⊆ (l.pipe.outgoing .far).queue) :
    Fair { l with pipe } id judged where
  dial := fun awaiting m mem => h.dial awaiting m (forth mem)
  unheard := h.unheard
  verdict := h.verdict
  answer := fun m mem => h.answer m (back mem)

theorem letGo (h : l.Fair id judged) (side : Side) : (l.letGo side).Fair id judged := by
  obtain ⟨same, none⟩ := l.pipe.dropEnd_queues side
  cases side with
  | near =>
    refine h.fewer (fun m mem => same ▸ mem) ?_
    change ((l.pipe.dropEnd .near).incoming .near).queue ⊆ _
    rw [none]
    exact List.nil_subset _
  | far =>
    refine h.fewer ?_ (fun m mem => same ▸ mem)
    change ((l.pipe.dropEnd .far).incoming .far).queue ⊆ _
    rw [none]
    exact List.nil_subset _

theorem finished (h : l.Fair id judged) : Fair { l with hearing := .finished } id judged where
  dial := nofun
  unheard := nofun
  verdict := nofun
  answer := h.answer

theorem cons (h : l.Fair id judged) {x : Number × Verdict} (other : l.number ≠ x.1) :
    l.Fair id (x :: judged) where
  dial := h.dial
  unheard := by
    intro awaiting v mem
    rcases List.mem_cons.mp mem with same | mem
    · exact other (congrArg Prod.fst same)
    · exact h.unheard awaiting v mem
  verdict := fun v stage => List.mem_cons_of_mem _ (h.verdict v stage)
  answer := by
    intro m mem
    obtain ⟨v, known, same⟩ := h.answer m mem
    exact ⟨v, List.mem_cons_of_mem _ known, same⟩

end Line.Fair

namespace Redialing

variable {d : Redialing} {i : Nat} {l l' : Line}

/-! ## The order of attempts -/

/-- The attempt that a link was made for. -/
def number? (d : Redialing) (i : Nat) : Option Number :=
  d.lines[i]?.map (·.number)

/-- The attempt that the dialer is at, or makes next. -/
def current (d : Redialing) : Number :=
  ⟨d.epoch, d.memory.attemptSeq.toNat⟩

/-- The attempt that the dialer makes next, if its number still fits. -/
def upcoming (d : Redialing) : Number :=
  match d.stage with
  | .greeting _ => ⟨d.epoch, d.memory.attemptSeq.toNat + 1⟩
  | .between | .linked _ => ⟨d.epoch, d.memory.seq.toNat + 1⟩

theorem upcoming_of_greeting (greeting : d.stage = .greeting i) :
    d.upcoming = ⟨d.epoch, d.memory.attemptSeq.toNat + 1⟩ := by
  rw [upcoming, greeting]

theorem epoch_upcoming (d : Redialing) : d.upcoming.epoch = d.epoch := by
  unfold upcoming
  split <;> rfl

theorem upcoming_of_settled (settled : ∀ i, d.stage ≠ .greeting i) :
    d.upcoming = ⟨d.epoch, d.memory.seq.toNat + 1⟩ := by
  unfold upcoming
  split
  · next j stage => exact absurd stage (settled j)
  · rfl
  · rfl

/-- Attempts are numbered in their order, and there are not more numbers than links. -/
structure Numbered (d : Redialing) : Prop where
  before : ∀ i k, d.number? i = some k → k.Before d.upcoming
  positive : ∀ i k, d.number? i = some k → 0 < k.seq
  short : ∀ i k, d.number? i = some k → k.seq ≤ d.lines.length
  next_short : d.upcoming.seq ≤ d.lines.length + 1
  distinct : ∀ i j k, d.number? i = some k → d.number? j = some k → i = j
  greeting : ∀ i, d.stage = .greeting i → d.number? i = some d.current
  judged : ∀ x ∈ d.judged, ∃ i, d.number? i = some x.1

/-- What holds of a dialer and a listener after every run. -/
structure Lawful (d : Redialing) : Prop where
  numbered : d.Numbered
  weighed : Weighed d.judged d.registry d.id
  fair : ∀ (i : Nat) (l : Line), d.lines[i]? = some l → l.Fair d.id d.judged
  /-- The register knows the chain of a dialer that was admitted. -/
  welcomed : d.memory.admitted = true → (∃ x ∈ d.judged, x.2.answer = .ok) ∧
    ∀ i, d.stage = .greeting i → ∀ v, (d.current, v) ∈ d.judged → v.answer ≠ .closedChain
  learned : ∀ k ∈ d.learned, ∃ v, (k, v) ∈ d.judged ∧ (d.gaveUp = none → v.answer ≠ .duplicate)
  gaveUp : ∀ e, d.gaveUp = some e →
    e = .rejected .duplicate ∧ ∃ k ∈ d.learned, Overtaken d.judged k

theorem lawful_start (id : Id) : (start id).Lawful where
  numbered := by
    have none : ∀ i k, (start id).number? i ≠ some k := by
      intro i k
      simp [number?, start]
    refine ⟨?_, ?_, ?_, Nat.le_refl 1, ?_, nofun, nofun⟩
    · exact fun i k known => absurd known (none i k)
    · exact fun i k known => absurd known (none i k)
    · exact fun i k known => absurd known (none i k)
    · exact fun i j k known => absurd known (none i k)
  weighed := by
    refine ⟨List.nodup_nil, nofun, ?_, fun n positive => ⟨?_, nofun⟩⟩
    · intro later k v earlier split
      exact absurd split.symm (by simp [start])
    · rintro ⟨m, known, -⟩
      cases known
  fair := nofun
  welcomed := nofun
  learned := nofun
  gaveUp := nofun

/-! ## Links that change -/

theorem getElem?_setLine (known : d.lines[i]? = some l) {j : Nat} {m : Line}
    (found : (d.setLine i l').lines[j]? = some m) :
    j = i ∧ m = l' ∨ j ≠ i ∧ d.lines[j]? = some m := by
  obtain ⟨bound, -⟩ := List.getElem?_eq_some_iff.mp known
  rw [setLine, List.getElem?_set] at found
  split at found
  · next same =>
    subst same
    exact .inl ⟨rfl, (Option.some.inj found).symm⟩
  · next other => exact .inr ⟨Ne.symm other, found⟩

theorem number?_setLine (known : d.lines[i]? = some l) (same : l'.number = l.number) :
    (d.setLine i l').number? = d.number? := by
  funext j
  obtain ⟨bound, -⟩ := List.getElem?_eq_some_iff.mp known
  unfold number? setLine
  rw [List.getElem?_set]
  split
  · next eq =>
    subst eq
    rw [known, Option.map_some, Option.map_some, same]
  · rfl

theorem Numbered.setLine (h : d.Numbered) (known : d.lines[i]? = some l)
    (same : l'.number = l.number) : (d.setLine i l').Numbered := by
  have numbers := number?_setLine known same
  have length : (d.setLine i l').lines.length = d.lines.length := List.length_set
  obtain ⟨before, positive, short, next_short, distinct, greeting, judged⟩ := h
  refine ⟨?_, ?_, ?_, ?_, ?_, ?_, ?_⟩
  · rw [numbers]
    exact before
  · rw [numbers]
    exact positive
  · rw [numbers, length]
    exact short
  · rw [length]
    exact next_short
  · rw [numbers]
    exact distinct
  · rw [numbers]
    exact greeting
  · rw [numbers]
    exact judged

/-- A link is changed by one of its ends, or cut. -/
theorem Lawful.setLine (h : d.Lawful) (known : d.lines[i]? = some l)
    (fair : l'.Fair d.id d.judged) (same : l'.number = l.number) : (d.setLine i l').Lawful where
  numbered := h.numbered.setLine known same
  weighed := h.weighed
  fair := by
    intro j m found
    obtain ⟨-, rfl⟩ | ⟨-, old⟩ := getElem?_setLine known found
    · exact fair
    · exact h.fair j m old
  welcomed := h.welcomed
  learned := h.learned
  gaveUp := h.gaveUp

theorem Lawful.letGo (h : d.Lawful) (known : d.lines[i]? = some l) (side : Side) :
    (d.setLine i (l.letGo side)).Lawful :=
  h.setLine known ((h.fair i l known).letGo side) rfl

theorem Lawful.tire (h : d.Lawful) (i : Nat) : (d.tire i).Lawful := by
  unfold Redialing.tire
  split
  · exact h
  · next l known =>
    split
    · exact h.setLine known (((h.fair i l known).finished).letGo .far) rfl
    · exact h

theorem Lawful.discard (h : d.Lawful) (i : Nat) : (d.discard i).Lawful := by
  unfold Redialing.discard
  split
  · exact h
  · next l known =>
    split
    · exact h.letGo known .far
    · exact h

theorem Lawful.cut (h : d.Lawful) (i : Nat) : (d.cut i).Lawful := by
  unfold Redialing.cut
  split
  · exact h
  · next l known =>
    refine h.setLine known ((h.fair i l known).fewer ?_ ?_) rfl
    · exact List.Subset.refl _
    · exact List.Subset.refl _

theorem Lawful.answer (h : d.Lawful) (i : Nat) (fault : Bool) : (d.answer i fault).Lawful := by
  unfold Redialing.answer
  split
  · exact h
  · next l known =>
    split
    · next verdict stage =>
      have fair := h.fair i l known
      obtain ⟨forth, back⟩ := l.pipe.send_queues .far fault verdict.answer.encode
      have told : Line.Fair { l with
          pipe := (l.pipe.send .far fault verdict.answer.encode).1, hearing := .finished }
          d.id d.judged := by
        refine ⟨nofun, nofun, nofun, fun m mem => ?_⟩
        rcases back m mem with old | rfl
        · exact fair.answer m old
        · exact ⟨verdict, fair.verdict verdict stage, rfl⟩
      simp only
      split
      · exact h.setLine known told rfl
      · exact h.setLine known told rfl
      · exact h.setLine known (told.letGo .far) rfl
    · exact h

/-! ## The listener hears -/

theorem Lawful.judge (h : d.Lawful) (known : d.lines[i]? = some l) {r : Registry} {v : Verdict}
    {fresh : ChainId} (fair : l'.Fair d.id ((l.number, v) :: d.judged))
    (same : l'.number = l.number) (new : l.number ∉ d.judged.map (·.1))
    (judging : d.registry.judge (fun _ => false) fresh ⟨d.id, l.number.seq⟩ = (r, v)) :
    Lawful { d.setLine i l' with registry := r, judged := (l.number, v) :: d.judged } := by
  have number : d.number? i = some l.number := by rw [number?, known, Option.map_some]
  have positive := h.numbered.positive i _ number
  obtain ⟨before, positives, short, next_short, distinct, greeting, judged⟩ :=
    h.numbered.setLine known same
  refine ⟨⟨before, positives, short, next_short, distinct, greeting, ?_⟩,
    h.weighed.judge new positive judging, ?_, ?_, ?_, ?_⟩
  · intro x mem
    rcases List.mem_cons.mp mem with rfl | old
    · refine ⟨i, ?_⟩
      change (d.setLine i l').number? i = _
      rw [number?_setLine known same]
      exact number
    · exact judged x old
  · intro j m found
    obtain ⟨-, rfl⟩ | ⟨other, old⟩ := getElem?_setLine known found
    · exact fair
    · refine (h.fair j m old).cons fun eq => other ?_
      refine h.numbered.distinct j i l.number ?_ number
      rw [number?, old, Option.map_some, eq]
  · intro admitted
    obtain ⟨⟨x, mem, ok⟩, open'⟩ := h.welcomed admitted
    refine ⟨⟨x, List.mem_cons_of_mem _ mem, ok⟩, fun j stage u mem' => ?_⟩
    rcases List.mem_cons.mp mem' with eq | old
    · obtain rfl : u = v := (Prod.mk.inj eq).2
      obtain ⟨j', own⟩ := h.numbered.judged x mem
      exact h.weighed.not_closed rfl mem ok (h.numbered.positive j' _ own) judging
    · exact open' j stage u old
  · intro k mem
    obtain ⟨u, old, fine⟩ := h.learned k mem
    exact ⟨u, List.mem_cons_of_mem _ old, fine⟩
  · intro e ended
    obtain ⟨reason, k, mem, overtaken⟩ := h.gaveUp e ended
    exact ⟨reason, k, mem, overtaken.cons _⟩

theorem Lawful.hear (h : d.Lawful) (i : Nat) (fresh : ChainId)
    (fits : d.lines.length < UInt64.size) : (d.hear i fresh).Lawful := by
  unfold Redialing.hear
  split
  · exact h
  next l known =>
  have fair := h.fair i l known
  split
  · next pipe message awaiting taken =>
    obtain ⟨back, forth, next⟩ := l.pipe.recv?_queues taken
    have number : d.number? i = some l.number := by rw [number?, known, Option.map_some]
    have positive := h.numbered.positive i _ number
    have small : l.number.seq < UInt64.size := Nat.lt_of_le_of_lt (h.numbered.short i _ number) fits
    have dial : message = Dial.encode ⟨d.id, l.number.seq⟩ :=
      fair.dial awaiting message (next message rfl)
    have judging : d.registry.judgeMessage (fun _ => false) fresh message =
        d.registry.judge (fun _ => false) fresh ⟨d.id, l.number.seq⟩ := by
      rw [dial]
      exact Registry.judgeMessage_encode positive small
    obtain ⟨⟨r, v⟩, verdict⟩ :
        ∃ p, d.registry.judge (fun _ => false) fresh ⟨d.id, l.number.seq⟩ = p := ⟨_, rfl⟩
    have new : l.number ∉ d.judged.map (·.1) := by
      intro mem
      obtain ⟨⟨k, u⟩, old, rfl⟩ := List.mem_map.mp mem
      exact fair.unheard awaiting u old
    have heard : Line.Fair { l with pipe, hearing := .answering v } d.id
        ((l.number, v) :: d.judged) := by
      refine ⟨nofun, nofun, ?_, ?_⟩
      · rintro u ⟨⟩
        exact List.mem_cons_self
      · intro m mem
        rw [back] at mem
        obtain ⟨u, old, same⟩ := fair.answer m mem
        exact ⟨u, List.mem_cons_of_mem _ old, same⟩
    rw [judging, verdict]
    exact h.judge known heard rfl new verdict
  · next pipe r other awaiting taken =>
    obtain ⟨back, forth, -⟩ := l.pipe.recv?_queues taken
    have heard : Line.Fair { l with pipe, hearing := .finished } d.id d.judged :=
      (fair.fewer forth (fun m mem => back ▸ mem)).finished
    exact h.setLine known (heard.letGo .far) rfl
  · exact h

/-! ## The dialer -/

/-- The dialer is done with an attempt and goes on: with the next number, or from the start. -/
theorem Lawful.settle (h : d.Lawful) (going : d.gaveUp = none) {memory : Redial} {epoch : Nat}
    {stage : Stage} {learned : List Number} (settled : ∀ i, stage ≠ .greeting i)
    (next : d.upcoming = ⟨epoch, memory.seq.toNat + 1⟩ ∨ d.epoch < epoch ∧ memory.seq = 0)
    (welcomed : memory.admitted = true → ∃ x ∈ d.judged, x.2.answer = .ok)
    (answers : ∀ k ∈ learned, k ∈ d.learned ∨ ∃ v, (k, v) ∈ d.judged ∧ v.answer ≠ .duplicate) :
    Lawful { d with memory, epoch, stage, learned } := by
  have upcoming : Redialing.upcoming { d with memory, epoch, stage, learned } =
      ⟨epoch, memory.seq.toNat + 1⟩ := upcoming_of_settled settled
  obtain ⟨before, positive, short, next_short, distinct, -, judged⟩ := h.numbered
  refine ⟨⟨?_, positive, short, ?_, distinct, ?_, judged⟩, h.weighed, h.fair, ?_, ?_, ?_⟩
  · intro i k known
    rw [upcoming]
    rcases next with same | ⟨newer, -⟩
    · exact same ▸ before i k known
    · exact .inl (Nat.lt_of_le_of_lt (d.epoch_upcoming ▸ (before i k known).epoch_le) newer)
  · rw [upcoming]
    rcases next with same | ⟨-, zero⟩
    · exact same ▸ next_short
    · change memory.seq.toNat + 1 ≤ _
      rw [zero]
      exact Nat.le_add_left 1 _
  · exact fun i stage => absurd stage (settled i)
  · exact fun admitted => ⟨welcomed admitted, fun i stage => absurd stage (settled i)⟩
  · intro k mem
    rcases answers k mem with old | ⟨v, known, fine⟩
    · exact h.learned k old
    · exact ⟨v, known, fun _ => fine⟩
  · intro e ended
    rw [going] at ended
    cases ended

theorem Lawful.conclude_unreached (h : d.Lawful) (going : d.gaveUp = none)
    (between : d.stage = .between) : (d.conclude .unreached).Lawful :=
  h.settle going nofun (.inl (upcoming_of_settled (by rw [between]; nofun)))
    (fun admitted => (h.welcomed admitted).1) fun _ => .inl

theorem Lawful.conclude_failed (h : d.Lawful) (going : d.gaveUp = none)
    (greeting : d.stage = .greeting i) : (d.conclude .failed).Lawful :=
  h.settle going nofun (.inl (upcoming_of_greeting greeting))
    (fun admitted => (h.welcomed admitted).1) fun _ => .inl

theorem Lawful.miss (h : d.Lawful) (going : d.gaveUp = none) (e : Link.Error) :
    (d.miss e).Lawful := by
  unfold Redialing.miss
  split
  · next between _ => exact h.conclude_unreached going between
  · exact h

theorem Lawful.lose (h : d.Lawful) (going : d.gaveUp = none) : d.lose.Lawful := by
  unfold Redialing.lose
  split
  · next j stage =>
    split
    · exact h
    · next l known =>
      have upcoming := upcoming_of_settled (d := d) (by rw [stage]; nofun)
      exact (h.letGo known .near).settle going nofun (.inl upcoming)
        (fun admitted => (h.welcomed admitted).1) fun _ => .inl
  · exact h

theorem Lawful.expire (h : d.Lawful) (going : d.gaveUp = none) : d.expire.Lawful := by
  unfold Redialing.expire
  split
  · next j greeting =>
    split
    · exact h
    · next l known => exact (h.letGo known .near).conclude_failed going greeting
  · exact h

/-- While there are fewer links than numbers, the next attempt gets the next number. -/
theorem Numbered.upcoming_eq (h : d.Numbered) (between : d.stage = .between)
    (fits : d.lines.length + 1 < UInt64.size) : d.upcoming = d.current := by
  have next := upcoming_of_settled (d := d) (by rw [between]; nofun)
  have short := h.next_short
  rw [next] at short
  rw [next, current, Redial.toNat_attemptSeq (Nat.lt_of_le_of_lt short fits)]

theorem Numbered.new (h : d.Numbered) (between : d.stage = .between)
    (fits : d.lines.length + 1 < UInt64.size) (i : Nat) : d.number? i ≠ some d.current := by
  intro known
  have before := h.before i _ known
  rw [h.upcoming_eq between fits] at before
  exact d.current.not_before_self before

theorem number?_made {l : Line} {stage : Stage} {k : Number}
    (known : number? { d with lines := d.lines ++ [l], stage } i = some k) :
    d.number? i = some k ∨ i = d.lines.length ∧ k = l.number := by
  obtain ⟨m, found, rfl⟩ := Option.map_eq_some_iff.mp known
  rcases getElem?_concat found with found | ⟨rfl, rfl⟩
  · exact .inl (Option.map_eq_some_iff.mpr ⟨m, found, rfl⟩)
  · exact .inr ⟨rfl, rfl⟩

theorem Lawful.made (h : d.Lawful) (between : d.stage = .between)
    (fits : d.lines.length + 1 < UInt64.size) {l : Line}
    (own : l.number = d.current) (fair : l.Fair d.id d.judged) :
    Lawful { d with lines := d.lines ++ [l], stage := .greeting d.lines.length } := by
  have new := h.numbered.new between fits
  have upcoming : d.upcoming = d.current := h.numbered.upcoming_eq between fits
  obtain ⟨before, positive, short, next_short, distinct, -, judged⟩ := h.numbered
  have old : ∀ {i k}, d.number? i = some k → number? { d with
      lines := d.lines ++ [l], stage := .greeting d.lines.length } i = some k := by
    intro i k known
    obtain ⟨m, found, same⟩ := Option.map_eq_some_iff.mp known
    obtain ⟨bound, -⟩ := List.getElem?_eq_some_iff.mp found
    rw [number?, List.getElem?_append_left bound]
    exact known
  have length : (d.lines ++ [l]).length = d.lines.length + 1 := List.length_append
  refine ⟨⟨?_, ?_, ?_, ?_, ?_, ?_, ?_⟩, h.weighed, ?_, ?_, h.learned, h.gaveUp⟩
  · intro i k known
    have next : d.current.Before ⟨d.epoch, d.memory.attemptSeq.toNat + 1⟩ :=
      .inr ⟨rfl, Nat.lt_succ_self _⟩
    rcases number?_made known with known | ⟨-, rfl⟩
    · exact (upcoming ▸ before i k known).trans next
    · exact own ▸ next
  · intro i k known
    rcases number?_made known with known | ⟨-, rfl⟩
    · exact positive i k known
    · rw [own, ← upcoming, upcoming_of_settled (by rw [between]; nofun)]
      exact Nat.succ_pos _
  · intro i k known
    rw [length]
    rcases number?_made known with known | ⟨-, rfl⟩
    · exact Nat.le_succ_of_le (short i k known)
    · rw [own, ← upcoming]
      exact next_short
  · rw [length]
    rw [upcoming] at next_short
    exact Nat.succ_le_succ next_short
  · intro i j k known known'
    rcases number?_made known with known | ⟨rfl, rfl⟩
    · rcases number?_made known' with known' | ⟨rfl, rfl⟩
      · exact distinct i j k known known'
      · exact absurd (own ▸ known) (new i)
    · rcases number?_made known' with known' | ⟨rfl, -⟩
      · exact absurd (own ▸ known') (new j)
      · rfl
  · rintro i ⟨⟩
    rw [number?, List.getElem?_concat_length, Option.map_some, own]
    rfl
  · intro x mem
    obtain ⟨i, known⟩ := judged x mem
    exact ⟨i, old known⟩
  · intro i m found
    rcases getElem?_concat found with found | ⟨-, rfl⟩
    · exact h.fair i m found
    · exact fair
  · intro admitted
    refine ⟨(h.welcomed admitted).1, fun i stage v mem => ?_⟩
    obtain ⟨j, known⟩ := judged _ mem
    exact absurd known (new j)

@[simp]
theorem lines_conclude (d : Redialing) (a : Attempt) : (d.conclude a).lines = d.lines := by
  unfold conclude
  split <;> rfl

theorem length_dial (between : d.stage = .between) (fault : Bool) :
    (d.dial fault).lines.length = d.lines.length + 1 := by
  simp only [dial, between]
  split <;> simp

theorem Lawful.dial (h : d.Lawful) (going : d.gaveUp = none) (fault : Bool)
    (fits : (d.dial fault).lines.length < UInt64.size) : (d.dial fault).Lawful := by
  have room (between : d.stage = .between) : d.lines.length + 1 < UInt64.size :=
    d.length_dial between fault ▸ fits
  unfold Redialing.dial
  split
  · next between =>
    replace room := room between
    obtain ⟨back, forth⟩ :=
      Link.Pipe.send_queues {} .near fault (Dial.encode ⟨d.id, d.memory.attemptSeq.toNat⟩)
    have fair : Line.Fair { number := d.current, pipe := (Link.Pipe.send {} .near fault
        (Dial.encode ⟨d.id, d.memory.attemptSeq.toNat⟩)).1 } d.id d.judged := by
      refine ⟨fun _ m mem => ?_, fun _ v mem => ?_, nofun, fun m mem => ?_⟩
      · exact (forth m mem).resolve_left List.not_mem_nil
      · obtain ⟨i, known⟩ := h.numbered.judged _ mem
        exact h.numbered.new between room i known
      · change m ∈ ((Link.Pipe.send {} .near fault _).1.incoming .near).queue at mem
        rw [back] at mem
        cases mem
    simp only
    split
    · exact h.made between room rfl fair
    · exact (h.made between room rfl (fair.letGo .near)).conclude_failed going rfl
  · exact h

/-- What is admitted too early for the attempt that the dialer is at was made before it last started
over. -/
theorem Lawful.overtaken (h : d.Lawful) (greeting : d.stage = .greeting i) {v : Verdict}
    (mem : (d.current, v) ∈ d.judged) (duplicate : v.answer = .duplicate) :
    Overtaken d.judged d.current := by
  obtain ⟨later, earlier, split⟩ := List.append_of_mem mem
  obtain ⟨x, old, admitted, le⟩ :=
    (h.weighed.duplicates later d.current v earlier split).mp duplicate
  refine ⟨later, v, earlier, split, x, old, admitted, ?_, le⟩
  obtain ⟨j, known⟩ := h.numbered.judged x (by
    rw [split]
    exact List.mem_append_right _ (List.mem_cons_of_mem _ old))
  have before := h.numbered.before j _ known
  rw [upcoming_of_greeting greeting] at before
  rcases before with earlier_start | ⟨epoch, seq⟩
  · exact earlier_start
  · -- it would be the same attempt, which is judged only once
    have same : x.1 = d.current := by
      obtain ⟨⟨e, n⟩, u⟩ := x
      change n < d.memory.attemptSeq.toNat + 1 at seq
      change d.memory.attemptSeq.toNat ≤ n at le
      change e = d.epoch at epoch
      rw [epoch, current, Nat.le_antisymm (Nat.le_of_lt_succ seq) le]
    have once := h.weighed.once
    rw [split, List.map_append, List.map_cons] at once
    have fresh := (List.nodup_cons.mp (List.nodup_append.mp once).2.1).1
    exact absurd (List.mem_map.mpr ⟨x, old, same⟩) fresh

theorem Lawful.learn (h : d.Lawful) (going : d.gaveUp = none) : d.learn.Lawful := by
  unfold Redialing.learn
  split
  · next i greeting =>
    split
    · exact h
    next l known =>
    have fair := h.fair i l known
    have own : l.number = d.current := by
      have number := h.numbered.greeting i greeting
      rw [number?, known, Option.map_some] at number
      exact Option.some.inj number
    split
    · exact h
    · next pipe answer taken =>
      obtain ⟨forth, back, next⟩ := l.pipe.recv?_queues taken
      have read : Line.Fair { l with pipe } d.id d.judged :=
        fair.fewer (fun m mem => forth ▸ mem) back
      obtain ⟨v, judged, rfl⟩ := fair.answer answer (next _ rfl)
      rcases h.weighed.kinds _ judged with ok | duplicate | closed
      · have admitted : Attempt.ofAnswer ⟨i, .near⟩ v.answer.encode = .admitted ⟨i, .near⟩ := by
          simp only [Attempt.ofAnswer, Welcome.decode?_encode, ok]
        rw [admitted]
        have settled : Lawful { d.setLine i { l with pipe } with
            memory := { seq := d.memory.attemptSeq, admitted := true, failures := some 0 }
            stage := .linked i
            learned := l.number :: d.learned } := by
          refine (h.setLine known read rfl).settle going nofun
            (.inl (upcoming_of_greeting greeting)) (fun _ => ⟨_, judged, ok⟩) ?_
          · rintro k (_ | ⟨_, old⟩)
            · exact .inr ⟨v, judged, by rw [ok]; nofun⟩
            · exact .inl old
        exact settled
      · have refused : Attempt.ofAnswer ⟨i, .near⟩ v.answer.encode =
            .fatal (.rejected .duplicate) := by
          simp only [Attempt.ofAnswer, Welcome.decode?_encode, duplicate]
        rw [refused]
        have changed := h.setLine known (read.letGo .near) rfl
        have settled : Lawful { d.setLine i ({ l with pipe }.letGo .near) with
            learned := l.number :: d.learned
            gaveUp := some (.rejected .duplicate) } := by
          obtain ⟨before, positive, short, next_short, distinct, current, known⟩ :=
            changed.numbered
          refine ⟨⟨before, positive, short, next_short, distinct, current, known⟩,
            changed.weighed, changed.fair, changed.welcomed, ?_, ?_⟩
          · rintro k (_ | ⟨_, old⟩)
            · exact ⟨v, judged, nofun⟩
            · obtain ⟨u, known, -⟩ := h.learned k old
              exact ⟨u, known, nofun⟩
          · rintro e ⟨⟩
            refine ⟨rfl, l.number, List.mem_cons_self, ?_⟩
            rw [own] at judged ⊢
            exact h.overtaken greeting judged duplicate
        exact settled
      · have refused : Attempt.ofAnswer ⟨i, .near⟩ v.answer.encode =
            .fatal (.rejected .closedChain) := by
          simp only [Attempt.ofAnswer, Welcome.decode?_encode, closed]
        have never : d.memory.admitted = false := by
          cases admitted : d.memory.admitted with
          | false => rfl
          | true =>
            exact absurd closed ((h.welcomed admitted).2 i greeting v (own ▸ judged))
        rw [refused]
        have settled : Lawful { d.setLine i ({ l with pipe }.letGo .near) with
            memory := { seq := 0, admitted := false, failures := some d.memory.moreFailures }
            epoch := d.epoch + 1
            stage := .between
            learned := l.number :: d.learned } := by
          refine (h.setLine known (read.letGo .near) rfl).settle going nofun
            (.inr ⟨Nat.lt_succ_self d.epoch, rfl⟩) nofun ?_
          · rintro k (_ | ⟨_, old⟩)
            · exact .inr ⟨v, judged, by rw [closed]; nofun⟩
            · exact .inl old
        simp only [Redialing.conclude, Redial.conclude, Redialing.setLine, never]
        exact settled
    · next pipe r other taken =>
      obtain ⟨forth, back, -⟩ := l.pipe.recv?_queues taken
      have read : Line.Fair { l with pipe } d.id d.judged :=
        fair.fewer (fun m mem => forth ▸ mem) back
      exact (h.setLine known (read.letGo .near) rfl).conclude_failed going greeting
  · exact h

/-! ## Runs -/

@[simp]
theorem length_setLine (d : Redialing) (i : Nat) (l : Line) :
    (d.setLine i l).lines.length = d.lines.length :=
  List.length_set

theorem length_le_step (d : Redialing) (event : Event) :
    d.lines.length ≤ (d.step event).lines.length := by
  have same : ∀ {d' : Redialing}, d'.lines.length = d.lines.length →
      d.lines.length ≤ d'.lines.length := fun eq => Nat.le_of_eq eq.symm
  cases event with
  | dial fault =>
    simp only [step, dial]
    split
    · exact Nat.le_refl _
    · split
      · split <;> simp
      · exact Nat.le_refl _
  | _ =>
    simp only [step, miss, learn, expire, lose, hear, tire, answer, discard, cut]
    repeat' split
    all_goals exact same (by simp)

theorem Lawful.step (h : d.Lawful) (event : Event)
    (fits : (d.step event).lines.length < UInt64.size) : (d.step event).Lawful := by
  have dialer : ∀ {d' : Redialing}, (d.gaveUp = none → d'.Lawful) →
      (if d.gaveUp.isSome then d else d').Lawful := by
    intro d' goesOn
    split
    · exact h
    · next going => exact goesOn (by simpa using going)
  have before : d.lines.length < UInt64.size :=
    Nat.lt_of_le_of_lt (d.length_le_step event) fits
  cases event with
  | miss e => exact dialer fun going => h.miss going e
  | dial fault =>
    refine dialer fun going => h.dial going fault ?_
    simpa only [Redialing.step, going, Option.isSome_none, Bool.false_eq_true, if_false] using fits
  | learn => exact dialer h.learn
  | expire => exact dialer h.expire
  | lose => exact dialer h.lose
  | hear i fresh => exact h.hear i fresh before
  | tire i => exact h.tire i
  | answer i fault => exact h.answer i fault
  | discard i => exact h.discard i
  | cut i => exact h.cut i

theorem lawful_run (id : Id) (events : List Event)
    (fits : ((start id).run events).lines.length < UInt64.size) :
    ((start id).run events).Lawful := by
  refine run_induction (P := fun d => d.lines.length < UInt64.size → d.Lawful)
    (fun _ => lawful_start id) ?_ events fits
  intro d event held fits
  exact (held (Nat.lt_of_le_of_lt (d.length_le_step event) fits)).step event fits

/-- Faults of the links end a chain in one case only. After every run in which numbers of 64 bits
suffice for the attempts, the dialer gave up exactly if it has read the answer to an attempt that
was overtaken; and then for the reason that the attempt is a duplicate. -/
theorem gaveUp_iff_overtaken (id : Id) (events : List Event)
    (fits : ((start id).run events).lines.length < UInt64.size) (e : Error) :
    let d := (start id).run events
    d.gaveUp = some e ↔
      e = .rejected .duplicate ∧ ∃ k ∈ d.learned, Overtaken d.judged k := by
  intro d
  have lawful : d.Lawful := lawful_run id events fits
  constructor
  · exact lawful.gaveUp e
  · rintro ⟨rfl, k, learned, later, v, earlier, split, x, old, admitted, -, le⟩
    have duplicate : v.answer = .duplicate :=
      (lawful.weighed.duplicates later k v earlier split).mpr ⟨x, old, admitted, le⟩
    have judged : (k, v) ∈ d.judged := by
      rw [split]
      exact List.mem_append_right _ List.mem_cons_self
    cases gaveUp : d.gaveUp with
    | some e => rw [(lawful.gaveUp e gaveUp).1]
    | none =>
      -- a dialer that goes on has read no such answer
      obtain ⟨u, known, fine⟩ := lawful.learned k learned
      rw [lawful.weighed.unique judged known] at duplicate
      exact absurd duplicate (fine gaveUp)

/-- A run in which a dial that was given up is read after the next one. -/
def lateDial : List Event :=
  [.dial false, .expire, .dial false, .hear 1 0, .answer 1 false, .learn,
    .dial false, .hear 0 0, .hear 2 0, .answer 2 false, .learn]

/-- A late dial ends a chain that no one killed. -/
theorem gaveUp_lateDial :
    ((start ⟨1⟩).run lateDial).lines.length < UInt64.size ∧
      ((start ⟨1⟩).run lateDial).gaveUp = some (.rejected .duplicate) ∧
      ∃ k ∈ ((start ⟨1⟩).run lateDial).learned,
        Overtaken ((start ⟨1⟩).run lateDial).judged k := by
  have fits : ((start ⟨1⟩).run lateDial).lines.length < UInt64.size := by decide +kernel
  have gaveUp : ((start ⟨1⟩).run lateDial).gaveUp = some (.rejected .duplicate) := by
    decide +kernel
  exact ⟨fits, gaveUp, ((gaveUp_iff_overtaken ⟨1⟩ lateDial fits _).mp gaveUp).2⟩

end Redialing

end Tether.Chain
