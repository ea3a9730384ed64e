import Tether.Chain.Endpoint

/-!
# The order of the links of a chain

A chain takes a link only with a higher number than any before, and retires the one it replaces. So
the links of a chain bear rising numbers in the order of attachment, and at any moment only the last
of them can be unretired. What else happens to a chain leaves the numbers alone and makes no retired
link whole.
-/

namespace Tether.Chain.Endpoint

variable {e e' e'' : Endpoint} {k : LinkId}

def seq? (e : Endpoint) (k : LinkId) : Option Nat :=
  e.links[k]?.map (·.seq)

/-- The physical link that was attached as the link `k`. -/
def link? (e : Endpoint) (k : LinkId) : Option Link.End :=
  e.links[k]?.map (·.link)

/-- The links are in order, and the newest is the current one until a kill takes it away. -/
structure Ranked (e : Endpoint) : Prop where
  rising : ∀ {i j m n : Nat}, i < j → e.seq? i = some m → e.seq? j = some n → m < n
  replaced : ∀ {k : Nat}, e.retired k = false → k + 1 = e.links.size
  newest : ∀ {k : Nat}, e.current = some k → k + 1 = e.links.size
  taken : e.current = none → e.killed = false → e.links.size = 0

theorem ranked_new (id : Id) (depth : Nat) : (new id depth).Ranked where
  rising _ known _ := by simp [seq?, new] at known
  replaced whole := by simp [retired, new] at whole
  newest known := by simp [new] at known
  taken _ _ := rfl

/-! ## Changes that attach nothing -/

/-- A change after which all links are still there: some may be retired or have come further, and a
killed chain may have lost its current link. -/
structure Moves (e e' : Endpoint) : Prop where
  name : e'.id = e.id
  size : e'.links.size = e.links.size
  seq : ∀ i, e'.seq? i = e.seq? i
  link : ∀ i, e'.link? i = e.link? i
  retired : ∀ {i}, e.retired i = true → e'.retired i = true
  current : e'.current = e.current ∨ e'.current = none ∧ e'.killed = true
  killed : e.killed = true → e'.killed = true

/-- A change after which also no link has come further, and the reader of a live chain finds what it
found before. -/
structure Fades (e e' : Endpoint) : Prop extends Moves e e' where
  stage : ∀ i, e'.stage i = e.stage i
  stitched : e'.stitched = e.stitched
  events : e'.killed = false → e'.events = e.events

theorem Moves.refl (e : Endpoint) : e.Moves e :=
  ⟨rfl, rfl, fun _ => rfl, fun _ => rfl, fun gone => gone, .inl rfl, fun dead => dead⟩

theorem Fades.refl (e : Endpoint) : e.Fades e :=
  ⟨.refl e, fun _ => rfl, rfl, fun _ => rfl⟩

theorem Moves.alive (h : e.Moves e') (alive : e'.killed = false) : e.killed = false := by
  cases dead : e.killed with
  | false => rfl
  | true => cases (h.killed dead).symm.trans alive

theorem Moves.trans (h : e.Moves e') (h' : e'.Moves e'') : e.Moves e'' where
  name := h'.name.trans h.name
  size := h'.size.trans h.size
  seq i := (h'.seq i).trans (h.seq i)
  link i := (h'.link i).trans (h.link i)
  retired gone := h'.retired (h.retired gone)
  current := by
    rcases h'.current with same | taken
    · rw [same]
      exact h.current.imp_right fun ⟨taken, dead⟩ => ⟨taken, h'.killed dead⟩
    · exact .inr taken
  killed dead := h'.killed (h.killed dead)

theorem Fades.trans (h : e.Fades e') (h' : e'.Fades e'') : e.Fades e'' where
  toMoves := h.toMoves.trans h'.toMoves
  stage i := (h'.stage i).trans (h.stage i)
  stitched := h'.stitched.trans h.stitched
  events alive := (h'.events alive).trans (h.events (h'.alive alive))

theorem Ranked.moves (h : e.Ranked) (moved : e.Moves e') : e'.Ranked where
  rising lt known known' := h.rising lt (moved.seq _ ▸ known) (moved.seq _ ▸ known')
  replaced whole := by
    rw [moved.size]
    refine h.replaced ?_
    cases gone : e.retired _ with
    | false => rfl
    | true => rw [moved.retired gone] at whole; cases whole
  newest known := by
    rw [moved.size]
    rcases moved.current with same | ⟨taken, -⟩
    · exact h.newest (same ▸ known)
    · rw [taken] at known
      cases known
  taken none alive := by
    rw [moved.size]
    rcases moved.current with same | ⟨-, dead⟩
    · exact h.taken (same ▸ none) (moved.alive alive)
    · rw [dead] at alive
      cases alive

theorem lt_size_of_seq? {k n : Nat} (known : e.seq? k = some n) : k < e.links.size := by
  obtain ⟨a, found, -⟩ := Option.map_eq_some_iff.mp known
  exact (Array.getElem?_eq_some_iff.mp found).1

theorem exists_link {k : Nat} (inside : k < e.links.size) : ∃ a, e.links[k]? = some a :=
  ⟨e.links[k], Array.getElem?_eq_getElem inside⟩

theorem fades_retire (e : Endpoint) (k : LinkId) : e.Fades (e.retire k) := by
  have found : ∀ i, (e.retire k).links[i]? =
      if k = i then (fun a => { a with retired := true }) <$> e.links[i]? else e.links[i]? :=
    fun i => Array.getElem?_modify
  refine ⟨⟨rfl, Array.size_modify, fun i => ?_, fun i => ?_, fun {i} gone => ?_, .inl rfl,
    fun dead => dead⟩,
    fun i => ?_, rfl, fun _ => rfl⟩
  · simp only [seq?, found]
    split <;> simp [Function.comp_def]
  · simp only [link?, found]
    split <;> simp [Function.comp_def]
  · unfold Endpoint.retired at gone ⊢
    rw [found]
    by_cases same : k = i
    · rw [if_pos same]
      cases e.links[i]? <;> rfl
    · rwa [if_neg same]
  · simp only [Endpoint.stage, found]
    by_cases same : k = i
    · rw [if_pos same]
      cases e.links[i]? <;> rfl
    · rw [if_neg same]

theorem retired_retire (e : Endpoint) (k : LinkId) : (e.retire k).retired k = true := by
  unfold Endpoint.retired Endpoint.retire
  rw [Array.getElem?_modify, if_pos rfl]
  cases e.links[k]? <;> rfl

theorem moves_setStage (e : Endpoint) (k : LinkId) (stage : Stage) :
    e.Moves (e.setStage k stage) := by
  have found : ∀ i, (e.setStage k stage).links[i]? =
      if k = i then (fun a => { a with stage }) <$> e.links[i]? else e.links[i]? :=
    fun i => Array.getElem?_modify
  refine ⟨rfl, Array.size_modify, fun i => ?_, fun i => ?_, fun {i} gone => ?_, .inl rfl,
    fun dead => dead⟩
  · simp only [seq?, found]
    split <;> simp [Function.comp_def]
  · simp only [link?, found]
    split <;> simp [Function.comp_def]
  · unfold Endpoint.retired at gone ⊢
    rw [found]
    by_cases same : k = i
    · rw [if_pos same]
      cases known : e.links[i]? with
      | none => rfl
      | some a =>
        rw [known] at gone
        exact gone
    · rwa [if_neg same]

theorem stage_setStage (e : Endpoint) (k i : LinkId) (stage : Stage) :
    (e.setStage k stage).stage i =
      if k = i ∧ k < e.links.size then stage else e.stage i := by
  unfold Endpoint.stage setStage
  rw [Array.getElem?_modify]
  by_cases same : k = i
  · subst same
    by_cases inside : k < e.links.size
    · simp [inside]
    · simp [inside]
  · simp [same]

theorem fades_nameReason (e : Endpoint) (reason : Option Error) :
    e.Fades (e.nameReason reason) := by
  unfold nameReason
  split
  · exact .refl e
  · exact ⟨⟨rfl, rfl, fun _ => rfl, fun _ => rfl, fun gone => gone, .inl rfl, fun dead => dead⟩,
      fun _ => rfl, rfl, fun _ => rfl⟩

theorem fades_raise (e : Endpoint) : e.Fades e.raise :=
  ⟨⟨rfl, rfl, fun _ => rfl, fun _ => rfl, fun gone => gone, .inl rfl, fun _ => rfl⟩,
    fun _ => rfl, rfl, fun _ => rfl⟩

theorem fades_retireCurrent (dead : e.killed = true) : e.Fades e.retireCurrent := by
  unfold retireCurrent
  split
  · next k _ =>
    exact (fades_retire e k).trans
      ⟨⟨rfl, rfl, fun _ => rfl, fun _ => rfl, fun gone => gone, .inr ⟨rfl, dead⟩, fun dead => dead⟩,
        fun _ => rfl, rfl, fun _ => rfl⟩
  · exact .refl e

theorem fades_kill (e : Endpoint) (reason : Option Error) : e.Fades (e.kill reason) :=
  ((fades_nameReason e reason).trans (fades_raise _)).trans (fades_retireCurrent rfl)

theorem killed_kill (e : Endpoint) (reason : Option Error) : (e.kill reason).killed = true :=
  (fades_retireCurrent (e := (e.nameReason reason).raise) rfl).killed rfl

theorem fades_close (e : Endpoint) : e.Fades e.close := by
  have dead : e.close.killed = true := killed_kill e none
  refine (fades_kill e none).trans
    ⟨⟨rfl, rfl, fun _ => rfl, fun _ => rfl, fun gone => gone, .inl rfl, fun dead => dead⟩,
      fun _ => rfl, rfl, fun alive => ?_⟩
  rw [dead] at alive
  cases alive

theorem fades_announce (e : Endpoint) : e.Fades e.announce :=
  ⟨⟨rfl, rfl, fun _ => rfl, fun _ => rfl, fun gone => gone, .inl rfl, fun dead => dead⟩,
    fun _ => rfl, rfl, fun _ => rfl⟩

theorem fades_written (e : Endpoint) (k : LinkId) (r : Except Link.Error Unit) :
    e.Fades (e.written k r).1 := by
  cases r with
  | ok => exact .refl e
  | error => exact fades_retire e k

/-! ## Attaching -/

/-- A chain with one more link, which is the current one. -/
def withLink (e : Endpoint) (seq : Nat) (link : Link.End) : Endpoint :=
  { e with links := e.links.push { seq, link }, current := some e.links.size }

/-- What attaching does: the chain takes the link as its newest and retires the one before, or it
refuses the link and stays as it is. -/
theorem Ranked.attach_cases (h : e.Ranked) (seq : Nat) (link : Link.End) :
    (e.attach seq link = (e, none) ∧
        (e.killed = true ∨ ∃ k n, e.current = some k ∧ e.seq? k = some n ∧ seq ≤ n)) ∨
      e.killed = false ∧ (∀ i n, e.seq? i = some n → n < seq) ∧
        ∃ before, e.Fades before ∧ (∀ i, before.retired i = true) ∧
          e.attach seq link = (before.withLink seq link, some e.links.size) := by
  unfold attach
  cases dead : e.killed with
  | true => exact .inl ⟨if_pos rfl, .inl rfl⟩
  | false =>
    rw [if_neg Bool.false_ne_true]
    cases known : e.current with
    | none =>
      have empty : e.links.size = 0 := h.taken known dead
      refine .inr ⟨rfl, fun i n found => ?_, e, .refl e, fun i => ?_, rfl⟩
      · exact absurd (lt_size_of_seq? found) (by omega)
      · simp [Endpoint.retired, empty]
    | some k =>
      have last := h.newest known
      obtain ⟨a, found⟩ := exists_link (e := e) (k := k) (by omega)
      have own : e.seq? k = some a.seq := by rw [seq?, found, Option.map_some]
      simp only [found, Option.map_some, Option.any_some, decide_eq_true_eq]
      by_cases low : seq ≤ a.seq
      · rw [if_pos low]
        exact .inl ⟨rfl, .inr ⟨k, a.seq, rfl, own, low⟩⟩
      · rw [if_neg low]
        have faded := fades_retire e k
        refine .inr ⟨trivial, fun i n old => ?_, e.retire k, faded, fun i => ?_, ?_⟩
        · have inside := lt_size_of_seq? old
          rcases Nat.lt_or_eq_of_le (Nat.le_of_lt_succ (last ▸ inside)) with lt | rfl
          · exact Nat.lt_trans (h.rising lt old own) (Nat.lt_of_not_le low)
          · cases own.symm.trans old
            exact Nat.lt_of_not_le low
        · cases whole : (e.retire k).retired i with
          | true => rfl
          | false =>
            -- only the newest link could be unretired, and that is the one replaced
            have newest := (h.moves faded.toMoves).replaced whole
            rw [faded.size] at newest
            obtain rfl := Nat.add_right_cancel (newest.trans last.symm)
            rw [retired_retire] at whole
            cases whole
        · rw [withLink, faded.size]

theorem getElem?_withLink (e : Endpoint) (seq : Nat) (link : Link.End) (i : Nat) :
    (e.withLink seq link).links[i]? =
      if i = e.links.size then some { seq, link } else e.links[i]? :=
  Array.getElem?_push

theorem seq?_withLink (e : Endpoint) (seq : Nat) (link : Link.End) (i : Nat) :
    (e.withLink seq link).seq? i = if i = e.links.size then some seq else e.seq? i := by
  unfold seq?
  rw [getElem?_withLink]
  split <;> rfl

theorem link?_withLink (e : Endpoint) (seq : Nat) (link : Link.End) (i : Nat) :
    (e.withLink seq link).link? i = if i = e.links.size then some link else e.link? i := by
  unfold link?
  rw [getElem?_withLink]
  split <;> rfl

theorem stage_withLink (e : Endpoint) (seq : Nat) (link : Link.End) (i : Nat) :
    (e.withLink seq link).stage i = if i = e.links.size then .stitching else e.stage i := by
  unfold stage
  rw [getElem?_withLink]
  by_cases last : i = e.links.size
  · rw [if_pos last, if_pos last]
  · rw [if_neg last, if_neg last]

theorem retired_withLink (e : Endpoint) (seq : Nat) (link : Link.End) (i : Nat) :
    (e.withLink seq link).retired i = if i = e.links.size then false else e.retired i := by
  unfold Endpoint.retired
  rw [getElem?_withLink]
  by_cases last : i = e.links.size
  · rw [if_pos last, if_pos last]
  · rw [if_neg last, if_neg last]

/-- A link with a higher number than all others keeps the order if they are all retired. -/
theorem Ranked.withLink (h : e.Ranked) {seq : Nat} (lower : ∀ i n, e.seq? i = some n → n < seq)
    (gone : ∀ i, e.retired i = true) (link : Link.End) : (e.withLink seq link).Ranked where
  rising {i j m n} lt known known' := by
    rw [seq?_withLink] at known known'
    by_cases last : j = e.links.size
    · rw [if_neg (by omega)] at known
      rw [if_pos last] at known'
      cases known'
      exact lower i m known
    · rw [if_neg last] at known'
      have inside := lt_size_of_seq? known'
      rw [if_neg (by omega)] at known
      exact h.rising lt known known'
  replaced {k} whole := by
    have size : (e.withLink seq link).links.size = e.links.size + 1 := Array.size_push _
    rw [retired_withLink] at whole
    split at whole
    · next last => rw [last, size]
    · rw [gone] at whole
      cases whole
  newest {k} known := by
    cases known
    exact (Array.size_push _).symm
  taken none _ := nomatch none

/-! ## Queueing -/

/-- A link that is given up is retired and comes to its last stage. -/
theorem moves_giveUp (e : Endpoint) (k : LinkId) (stage : Stage) :
    e.Moves ((e.retire k).setStage k stage) :=
  (fades_retire e k).toMoves.trans (moves_setStage _ k stage)

theorem stage_giveUp (e : Endpoint) (k i : LinkId) (stage : Stage) :
    ((e.retire k).setStage k stage).stage i =
      if k = i ∧ k < e.links.size then stage else e.stage i := by
  rw [stage_setStage, (fades_retire e k).size, (fades_retire e k).stage]

/-- An event of a link is queued, and the link waits for its next chunk. -/
def queue (e : Endpoint) (k : LinkId) (event : Event) : Endpoint :=
  { e.setStage k .receiving with events := e.events ++ [event] }

theorem moves_queue (e : Endpoint) (k : LinkId) (event : Event) : e.Moves (e.queue k event) :=
  (moves_setStage e k .receiving).trans
    ⟨rfl, rfl, fun _ => rfl, fun _ => rfl, fun gone => gone, .inl rfl, fun dead => dead⟩

theorem stage_queue (e : Endpoint) (k i : LinkId) (event : Event) :
    (e.queue k event).stage i = if k = i ∧ k < e.links.size then .receiving else e.stage i :=
  stage_setStage e k i .receiving

theorem whole_of_not_abandoned (whole : ¬e.abandoned k = true) :
    e.killed = false ∧ e.retired k = false := by
  simpa [abandoned] using whole

/-- The link of a stitch is given up, or the stitch is queued while the link is in use. -/
theorem stitch?_cases (stitched : e.stitch? k = some e') :
    k < e.links.size ∧ e.stage k = .stitching ∧
      (e' = (e.retire k).setStage k .refused ∨
        e.killed = false ∧ e.retired k = false ∧
          ∃ n, e.seq? k = some n ∧ e' = e.queue k (.stitch n k)) := by
  unfold stitch? at stitched
  cases found : e.links[k]? with
  | none =>
    rw [found] at stitched
    cases stitched
  | some a =>
    have stage : e.stage k = a.stage := by rw [Endpoint.stage, found]
    have seq : e.seq? k = some a.seq := by rw [seq?, found, Option.map_some]
    simp only [found, ne_eq, ite_not] at stitched
    split at stitched
    · next waits =>
      refine ⟨lt_size_of_seq? seq, stage.trans waits, ?_⟩
      split at stitched
      · cases stitched
        exact .inl rfl
      · next whole =>
        obtain ⟨alive, whole⟩ := whole_of_not_abandoned whole
        split at stitched
        · cases stitched
          exact .inr ⟨alive, whole, a.seq, seq, rfl⟩
        · cases stitched
    · cases stitched

/-- An abandoned link is not read any more, or the chunk that a link holds is queued while the link
is in use. -/
theorem deliver?_cases (delivered : e.deliver? k = some e') :
    k < e.links.size ∧
      ((e.stage k = .receiving ∨ ∃ chunk, e.stage k = .delivering chunk) ∧
          e' = (e.retire k).setStage k .ended ∨
        e.killed = false ∧ e.retired k = false ∧
          ∃ n chunk, e.seq? k = some n ∧ e.stage k = .delivering chunk ∧
            e' = e.queue k (.chunk n chunk)) := by
  unfold deliver? at delivered
  cases found : e.links[k]? with
  | none =>
    rw [found] at delivered
    cases delivered
  | some a =>
    have stage : e.stage k = a.stage := by rw [Endpoint.stage, found]
    have seq : e.seq? k = some a.seq := by rw [seq?, found, Option.map_some]
    refine ⟨lt_size_of_seq? seq, ?_⟩
    simp only [found] at delivered
    split at delivered
    · next waits =>
      split at delivered
      · cases delivered
        exact .inl ⟨.inl (stage.trans waits), rfl⟩
      · cases delivered
    · next chunk holds =>
      split at delivered
      · cases delivered
        exact .inl ⟨.inr ⟨chunk, stage.trans holds⟩, rfl⟩
      · next whole =>
        obtain ⟨alive, whole⟩ := whole_of_not_abandoned whole
        split at delivered
        · cases delivered
          exact .inr ⟨alive, whole, a.seq, chunk, seq, stage.trans holds, rfl⟩
        · cases delivered
    all_goals cases delivered

/-! ## Work on the links -/

/-- What becomes of a chain by all that neither attaches a link nor belongs to a kill. -/
inductive Works (e : Endpoint) : Endpoint → Prop where
  | rests : Works e e
  | queues (k : LinkId) (event : Event) : Works e (e.queue k event)
  /-- A link holds a chunk that is to be queued. -/
  | holds (k : LinkId) (chunk : Bytes) : Works e (e.setStage k (.delivering chunk))
  | givesUp (k : LinkId) (stage : Stage) : Works e ((e.retire k).setStage k stage)
  | retires (k : LinkId) : Works e (e.retire k)
  | reads (events : List Event) (stitched : Nat) : Works e { e with events, stitched }

theorem Works.moves (work : e.Works e') : e.Moves e' := by
  cases work with
  | rests => exact .refl e
  | queues k event => exact moves_queue e k event
  | holds k chunk => exact moves_setStage e k _
  | givesUp k stage => exact moves_giveUp e k stage
  | retires k => exact (fades_retire e k).toMoves
  | reads =>
    exact ⟨rfl, rfl, fun _ => rfl, fun _ => rfl, fun gone => gone, .inl rfl, fun dead => dead⟩

theorem works_stitch? (stitched : e.stitch? k = some e') : e.Works e' := by
  obtain ⟨-, -, rfl | ⟨-, -, n, -, rfl⟩⟩ := stitch?_cases stitched
  · exact .givesUp k _
  · exact .queues k _

theorem works_deliver? (delivered : e.deliver? k = some e') : e.Works e' := by
  obtain ⟨-, ⟨-, rfl⟩ | ⟨-, -, n, chunk, -, -, rfl⟩⟩ := deliver?_cases delivered
  · exact .givesUp k _
  · exact .queues k _

theorem works_received (e : Endpoint) (k : LinkId) (r : Except Link.Error (Option Bytes)) :
    e.Works (e.received k r) := by
  unfold received
  split
  · exact .holds k _
  · exact .givesUp k _
  · exact .givesUp k _

theorem works_written (e : Endpoint) (k : LinkId) (r : Except Link.Error Unit) :
    e.Works (e.written k r).1 := by
  cases r with
  | ok => exact .rests
  | error => exact .retires k

theorem works_read (e : Endpoint) : e.Works e.read.1 := by
  unfold read
  split
  · exact .rests
  · split <;> exact .reads _ _

end Tether.Chain.Endpoint
