import Mathlib.Data.List.Nodup
import Tether.Proofs.Session.Lasting

/-!
# A session with one number

What a session knows of the connections under one number, as the session in which nothing else was
ever opened. What a session does for a number it does in that smaller session as well, and what it
does for another number changes nothing there. Each function of a session has an equation for the one
and for the other, and nothing is needed for them but that the table names its connections rightly.
-/

namespace Tether.Session

theorem Conn.read?_reading (x : Conn) (fed : Bool) :
    x.reading.read? fed = (x.read? fed).map fun (x', r) => (x'.reading, r) := by
  obtain ⟨id, nextWrite, terminal, inbox, ended, users⟩ := x
  cases ended with
  | true => rfl
  | false =>
    cases inbox with
    | nil => cases fed <;> rfl
    | cons i rest =>
      cases i with
      | payload data => rfl
      | abort reason => cases reason <;> rfl
      | broken cause => rfl

namespace State

/-- The connections under a number, oldest first. -/
def keys (s : State) (c : ConnId) : List ConnKey :=
  (List.range s.conns.size).filter fun k => s.id? k = some c

/-- The place of a connection among those under its number. -/
def rank (s : State) (c : ConnId) (k : ConnKey) : Nat :=
  (s.keys c).idxOf k

/-- The session with nothing but the connections under one number, without what concerns writing and
accepting. A session whose accepter is gone takes no connections, whether it has noticed or not. -/
def only (s : State) (c : ConnId) : State :=
  { role := s.role
    conns := ((s.keys c).filterMap fun k => s.conns[k]?.map Conn.reading).toArray
    table := (s.table.filter (·.id = c)).map fun a => { a with conn := s.rank c a.conn }
    accepting := s.accepting && s.listening
    listening := s.listening
    ended := s.ended }

/-- The table names its connections rightly. -/
def Labelled (s : State) : Prop :=
  ∀ a ∈ s.table, s.id? a.conn = some a.id

variable {s s' : State} {c d : ConnId} {k l : ConnKey} {n : Nat} {f : Conn → Conn}

/-- Sessions that agree on their connections, on their table, and on the rest. -/
theorem eq_of_parts (conns : s.conns = s'.conns) (table : s.table = s'.table)
    (rest : { s with conns := #[], table := [] } = { s' with conns := #[], table := [] }) : s = s' := by
  have whole := congrArg (fun t : State => { t with conns := s.conns, table := s.table }) rest
  exact whole.trans (by rw [conns, table])

/-! ## Connections by their place -/

theorem mem_keys : k ∈ s.keys c ↔ s.id? k = some c := by
  rw [keys, List.mem_filter, List.mem_range, decide_eq_true_iff]
  refine ⟨And.right, fun named => ⟨Nat.not_le.mp fun outside => ?_, named⟩⟩
  cases (id?_eq_none_iff.mpr outside).symm.trans named

theorem keys_congr (ids : ∀ k, s'.id? k = s.id? k) : s'.keys c = s.keys c := by
  unfold keys
  rw [size_congr ids]
  simp only [ids]

theorem rank_congr (ids : ∀ k, s'.id? k = s.id? k) : s'.rank c = s.rank c := by
  funext k
  rw [rank, keys_congr ids, rank]

theorem getElem?_rank (named : s.id? k = some c) : (s.keys c)[s.rank c k]? = some k :=
  List.getElem?_idxOf (mem_keys.mpr named)

theorem rank_eq_iff (named : s.id? k = some c) :
    s.rank c k = s.rank c l ↔ k = l :=
  List.idxOf_inj (mem_keys.mpr named)

theorem rank_of_getElem? (known : (s.keys c)[n]? = some k) : s.rank c k = n := by
  have distinct : (s.keys c).Nodup := List.nodup_range.filter _
  obtain ⟨inside, rfl⟩ := List.getElem?_eq_some_iff.mp known
  exact distinct.idxOf_getElem n inside

/-- A connection of the smaller session is the one in its place. -/
theorem getElem?_conns_only (s : State) (c : ConnId) (n : Nat) :
    (s.only c).conns[n]? = (s.keys c)[n]?.bind fun k => s.conns[k]?.map Conn.reading := by
  have all (ks : List ConnKey) (inside : ∀ k ∈ ks, s.id? k = some c) (n : Nat) :
      (ks.filterMap fun k => s.conns[k]?.map Conn.reading)[n]? =
        ks[n]?.bind fun k => s.conns[k]?.map Conn.reading := by
    induction ks generalizing n with
    | nil => rfl
    | cons k ks ih =>
      obtain ⟨x, known, -⟩ := Option.map_eq_some_iff.mp (inside k List.mem_cons_self)
      rw [List.filterMap_cons_some (by rw [known]; rfl)]
      cases n with
      | zero => rw [List.getElem?_cons_zero, List.getElem?_cons_zero, Option.bind_some, known]; rfl
      | succ n => exact ih (fun l mem => inside l (List.mem_cons_of_mem k mem)) n
  exact (List.getElem?_toArray ..).trans (all _ (fun k mem => mem_keys.mp mem) n)

theorem getElem?_only_rank (named : s.id? k = some c) :
    (s.only c).conns[s.rank c k]? = s.conns[k]?.map Conn.reading := by
  rw [getElem?_conns_only, getElem?_rank named, Option.bind_some]

theorem size_only (s : State) (c : ConnId) : (s.only c).conns.size = (s.keys c).length := by
  refine Nat.le_antisymm (Nat.not_lt.mp fun less => ?_) (Nat.not_lt.mp fun less => ?_)
  · have known := getElem?_conns_only s c (s.keys c).length
    rw [List.getElem?_eq_none (Nat.le_refl _), Option.bind_none, Array.getElem?_eq_none_iff] at known
    exact absurd less (Nat.not_lt.mpr known)
  · have known := getElem?_conns_only s c (s.only c).conns.size
    rw [Array.getElem?_eq_none (Nat.le_refl _), List.getElem?_eq_getElem less, Option.bind_some,
      eq_comm, Option.map_eq_none_iff, Array.getElem?_eq_none_iff] at known
    have named := mem_keys.mp (List.getElem_mem less)
    cases (id?_eq_none_iff.mpr known).symm.trans named

/-- Nothing has changed but what the smaller session leaves out. -/
theorem only_congr (conns : s.SameConns s') (role : s'.role = s.role) (table : s'.table = s.table)
    (accepting : (s'.accepting && s'.listening) = (s.accepting && s.listening))
    (listening : s'.listening = s.listening) (ended : s'.ended = s.ended) :
    s'.only c = s.only c := by
  unfold only
  rw [keys_congr conns.ids, rank_congr conns.ids, role, table, accepting, listening, ended]
  simp only [conns _]

theorem SameReading.only (same : s.SameReading s') : s'.only c = s.only c := by
  have role := congrArg State.role same.rest
  have accepting := congrArg State.accepting same.rest
  dsimp only at role accepting
  exact only_congr same.conns role same.table (by rw [accepting, same.listening]) same.listening
    same.ended

/-! ## One connection changes -/

theorem id?_modifyConn_of_keeps (keeps : ∀ x, s.conns[k]? = some x → (f x).id = x.id) (l : ConnKey) :
    (s.modifyConn k f).id? l = s.id? l := by
  unfold id? modifyConn
  rw [Array.getElem?_modify]
  split
  · next here =>
    subst here
    cases known : s.conns[k]? with
    | none => rfl
    | some x => exact congrArg some (keeps x known)
  · rfl

theorem only_modifyConn {g : Conn → Conn} (named : s.id? k = some c)
    (keeps : ∀ x, s.conns[k]? = some x → (f x).id = x.id)
    (reads : ∀ x, s.conns[k]? = some x → (f x).reading = g x.reading) :
    (s.modifyConn k f).only c = (s.only c).modifyConn (s.rank c k) g := by
  have ids := id?_modifyConn_of_keeps keeps
  have conns : ((s.modifyConn k f).only c).conns = ((s.only c).modifyConn (s.rank c k) g).conns := by
    refine Array.ext_getElem? fun n => ?_
    rw [getElem?_conns_only, keys_congr ids]
    unfold modifyConn
    rw [Array.getElem?_modify, getElem?_conns_only]
    cases known : (s.keys c)[n]? with
    | none => simp
    | some l =>
      rw [Option.bind_some, Option.bind_some, Array.getElem?_modify, ← rank_of_getElem? known]
      by_cases here : k = l
      · subst here
        rw [if_pos rfl, if_pos rfl, Option.map_map, Option.map_map]
        exact Option.map_congr fun x mem => reads x mem
      · rw [if_neg here, if_neg fun same => here ((rank_eq_iff named).mp same)]
  unfold only at conns ⊢
  rw [rank_congr ids]
  exact congrArg (fun conns => { s.only c with conns }) conns

theorem only_modifyConn_of_ne (other : s.id? k ≠ some c)
    (keeps : ∀ x, s.conns[k]? = some x → (f x).id = x.id) :
    (s.modifyConn k f).only c = s.only c := by
  have ids := id?_modifyConn_of_keeps keeps
  unfold only
  rw [keys_congr ids, rank_congr ids]
  have conns : ∀ l ∈ s.keys c, (s.modifyConn k f).conns[l]?.map Conn.reading =
      s.conns[l]?.map Conn.reading := by
    intro l mem
    unfold modifyConn
    rw [Array.getElem?_modify, if_neg]
    rintro rfl
    exact other (mem_keys.mp mem)
  rw [List.filterMap_congr conns]
  rfl

/-! ## The table changes -/

theorem only_remove (s : State) (c : ConnId) : (s.remove c).only c = (s.only c).remove c := by
  have table : (((s.table.filter (·.id ≠ c)).filter (·.id = c)).map
      fun a => { a with conn := s.rank c a.conn }) =
        ((s.table.filter (·.id = c)).map fun a => { a with conn := s.rank c a.conn }).filter
          (·.id ≠ c) := by
    rw [List.filter_filter, List.filter_map, List.filter_filter]
    refine congrArg _ (List.filter_congr fun a _ => ?_)
    exact Bool.and_comm _ _
  exact congrArg (fun table => { s.only c with table }) table

theorem only_remove_of_ne (other : d ≠ c) (s : State) : (s.remove d).only c = s.only c := by
  have table : (s.table.filter (·.id ≠ d)).filter (·.id = c) = s.table.filter (·.id = c) := by
    rw [List.filter_filter]
    refine List.filter_congr fun a _ => ?_
    by_cases here : a.id = c
    · simp [here, Ne.symm other]
    · simp [here]
  have ranked := congrArg (List.map fun a => { a with conn := s.rank c a.conn }) table
  exact congrArg (fun table => { s.only c with table }) ranked

theorem id_of_mem_only {a : Entry} (mem : a ∈ (s.only c).table) : a.id = c := by
  obtain ⟨b, mem, same⟩ := List.mem_map.mp mem
  rw [← same]
  exact of_decide_eq_true (List.mem_filter.mp mem).2

theorem entry?_only (s : State) (c : ConnId) :
    State.entry? (s.only c) c = (s.entry? c).map fun a => { a with conn := s.rank c a.conn } := by
  unfold entry? only
  dsimp only
  rw [List.find?_map, List.find?_filter]
  simp

/-- The entries of a number are numbered anew. -/
theorem only_bump (s : State) (c d : ConnId) (g : UInt64 → UInt64) :
    { s with table := s.table.map (bump d g) }.only c =
      { s.only c with table := (s.only c).table.map (bump d g) } := by
  have table : (((s.table.map (bump d g)).filter (·.id = c)).map
      fun a => { a with conn := s.rank c a.conn }) =
        ((s.table.filter (·.id = c)).map fun a => { a with conn := s.rank c a.conn }).map
          (bump d g) := by
    rw [List.filter_map, List.map_map, List.map_map]
    have ids : ((fun a : Entry => decide (a.id = c)) ∘ bump d g) = fun a => decide (a.id = c) := by
      funext a
      unfold Function.comp bump
      split <;> rfl
    rw [ids]
    refine List.map_congr_left fun a _ => ?_
    unfold Function.comp bump
    dsimp only
    split <;> rfl
  exact congrArg (fun table => { s.only c with table }) table

theorem only_bump_of_ne (other : d ≠ c) (s : State) (g : UInt64 → UInt64) :
    { s with table := s.table.map (bump d g) }.only c = s.only c := by
  have same : (s.only c).table.map (bump d g) = (s.only c).table := by
    refine (List.map_congr_left fun a mem => ?_).trans (List.map_id _)
    rw [bump, if_neg fun here => other (here.symm.trans (id_of_mem_only mem))]
    rfl
  rw [only_bump, same]

/-! ## Connections are added -/

theorem id?_register (s : State) (d : ConnId) (k : ConnKey) :
    (s.register d).1.id? k = if k = s.conns.size then some d else s.id? k := by
  unfold id?
  have pushed : (s.register d).1.conns[k]? = if k = s.conns.size then some { id := d } else s.conns[k]? :=
    Array.getElem?_push
  rw [pushed]
  split <;> rfl

theorem keys_register (s : State) (d c : ConnId) :
    (s.register d).1.keys c = s.keys c ++ if d = c then [s.conns.size] else [] := by
  have size : (s.register d).1.conns.size = s.conns.size + 1 := Array.size_push _
  have before : (List.range s.conns.size).filter (fun k => (s.register d).1.id? k = some c) =
      s.keys c := by
    refine List.filter_congr fun k mem => ?_
    rw [id?_register, if_neg (Nat.ne_of_lt (List.mem_range.mp mem))]
  have last : (s.register d).1.id? s.conns.size = some d := by rw [id?_register, if_pos rfl]
  rw [keys, size, List.range_succ, List.filter_append, before]
  by_cases here : d = c
  · subst here
    simp [last]
  · simp [last, here]

theorem getElem?_register {x : Conn} (known : s.conns[k]? = some x) (d : ConnId) :
    (s.register d).1.conns[k]? = some x :=
  (Array.getElem?_push.trans (if_neg (ne_size (id?_of_getElem? known)))).trans known

/-- The connections of a number that there were are as they were. -/
theorem filterMap_register (s : State) (c d : ConnId) :
    ((s.keys c).filterMap fun k => (s.register d).1.conns[k]?.map Conn.reading) =
      (s.keys c).filterMap fun k => s.conns[k]?.map Conn.reading := by
  refine List.filterMap_congr fun k mem => ?_
  obtain ⟨x, known, -⟩ := Option.map_eq_some_iff.mp (mem_keys.mp mem)
  rw [getElem?_register known, known]

theorem only_register (s : State) (c : ConnId) :
    (s.register c).1.only c = ((s.only c).register c).1 := by
  have keys : (s.register c).1.keys c = s.keys c ++ [s.conns.size] := by
    rw [keys_register, if_pos rfl]
  have last : (s.register c).1.conns[s.conns.size]? = some { id := c } := Array.getElem?_push_size
  have rank : (s.register c).1.rank c s.conns.size = (s.only c).conns.size := by
    refine rank_of_getElem? ?_
    rw [keys, size_only, List.getElem?_append_right (Nat.le_refl _), Nat.sub_self]
    rfl
  have conns : ((s.register c).1.only c).conns = (s.only c).conns.push { id := c } := by
    unfold only
    dsimp only
    rw [keys, List.filterMap_append, filterMap_register, List.filterMap_cons_some (by rw [last]; rfl),
      List.filterMap_nil, ← List.push_toArray]
    rfl
  have table : ((s.register c).1.only c).table = ((s.only c).register c).1.table := by
    have old : (s.table.filter (·.id ≠ c)).filter (·.id = c) = [] := by
      rw [List.filter_filter, List.filter_eq_nil_iff]
      intro a _ both
      simp at both
    have old' : (s.only c).table.filter (·.id ≠ c) = [] := by
      rw [List.filter_eq_nil_iff]
      intro a mem
      simpa using id_of_mem_only mem
    change ((({ id := c, conn := s.conns.size } : Entry) :: s.table.filter (·.id ≠ c)).filter
      (·.id = c)).map (fun a => { a with conn := (s.register c).1.rank c a.conn }) =
        { id := c, conn := (s.only c).conns.size } :: (s.only c).table.filter (·.id ≠ c)
    rw [List.filter_cons_of_pos (by simp), old, old', List.map_singleton, rank]
  exact eq_of_parts conns table rfl

theorem only_register_of_ne (other : d ≠ c) (s : State) : (s.register d).1.only c = s.only c := by
  have keys : (s.register d).1.keys c = s.keys c := by
    rw [keys_register, if_neg other, List.append_nil]
  have rank : (s.register d).1.rank c = s.rank c := by
    funext k
    rw [State.rank, keys, State.rank]
  have conns : ((s.register d).1.only c).conns = (s.only c).conns := by
    unfold only
    dsimp only
    rw [keys, filterMap_register]
  have table : ((s.register d).1.only c).table = (s.only c).table := by
    have removed := congrArg State.table (only_remove_of_ne other s)
    change ((({ id := d, conn := s.conns.size } : Entry) :: s.table.filter (·.id ≠ d)).filter
      (·.id = c)).map (fun a => { a with conn := (s.register d).1.rank c a.conn }) = _
    rw [List.filter_cons_of_neg (by simpa using other), rank]
    exact removed
  exact eq_of_parts conns table rfl

/-! ## What a session does for a number, and for another -/

theorem entry?_only_of_some {a : Entry} (found : s.entry? c = some a) :
    State.entry? (s.only c) c = some { a with conn := s.rank c a.conn } := by
  rw [entry?_only, found, Option.map_some]

theorem only_abort (labelled : s.Labelled) (c : ConnId) (reason : Reason) :
    (s.abort c reason).only c = (s.only c).abort c reason := by
  unfold abort
  cases found : s.entry? c with
  | none => rw [entry?_only, found, Option.map_none]
  | some a =>
    obtain ⟨mem, here⟩ := mem_of_entry? found
    have named : s.id? a.conn = some c := here ▸ labelled a mem
    rw [entry?_only_of_some found]
    dsimp only
    have ended := only_modifyConn (f := aborting reason) (g := aborting reason) named (fun _ _ => rfl)
      fun _ _ => rfl
    rw [only_remove]
    exact congrArg (remove · c) ended

theorem only_abort_of_ne (labelled : s.Labelled) (other : d ≠ c) (reason : Reason) :
    (s.abort d reason).only c = s.only c := by
  unfold abort
  cases found : s.entry? d with
  | none => rfl
  | some a =>
    obtain ⟨mem, here⟩ := mem_of_entry? found
    have named : s.id? a.conn ≠ some c := by
      rw [labelled a mem, here]
      exact fun same => other (Option.some.inj same)
    dsimp only
    have ended := only_modifyConn_of_ne (f := aborting reason) named fun _ _ => rfl
    rw [only_remove_of_ne other]
    exact ended

theorem only_dispatchKnown (labelled : s.Labelled) {a : Entry} (mem : a ∈ s.table) (here : a.id = c)
    (seq : UInt64) (data : Bytes) :
    (s.only c).dispatchKnown { a with conn := s.rank c a.conn } seq data =
      ((s.dispatchKnown a seq data).1.only c, (s.dispatchKnown a seq data).2) := by
  subst here
  unfold dispatchKnown
  dsimp only
  split
  · rfl
  · split
    · rw [only_abort labelled]
    · refine Prod.ext ?_ rfl
      have counted := only_bump s a.id a.id (· + 1)
      have handed := @only_modifyConn { s with table := s.table.map (bump a.id (· + 1)) } a.id a.conn
        (·.hand (.payload data)) (·.hand (.payload data)) (labelled a mem) (fun _ _ => rfl)
        fun _ _ => rfl
      rw [counted] at handed
      exact handed.symm

theorem only_dispatchKnown_of_ne (labelled : s.Labelled) {a : Entry} (mem : a ∈ s.table)
    (other : a.id ≠ c) (seq : UInt64) (data : Bytes) :
    (s.dispatchKnown a seq data).1.only c = s.only c := by
  unfold dispatchKnown
  split
  · rfl
  · split
    · exact only_abort_of_ne labelled other _
    · have named : s.id? a.conn ≠ some c := by
        rw [labelled a mem]
        exact fun same => other (Option.some.inj same)
      have handed := @only_modifyConn_of_ne { s with table := s.table.map (bump a.id (· + 1)) } c
        a.conn (·.hand (.payload data)) named fun _ _ => rfl
      exact handed.trans (only_bump_of_ne other s (· + 1))

theorem only_welcome (s : State) (c : ConnId) (data : Bytes) :
    (s.welcome c data).only c = (s.only c).welcome c data := by
  have named : (s.register c).1.id? s.conns.size = some c := by rw [id?_register, if_pos rfl]
  have rank : (s.register c).1.rank c s.conns.size = (s.only c).conns.size := by
    refine rank_of_getElem? ?_
    rw [keys_register, if_pos rfl, size_only, List.getElem?_append_right (Nat.le_refl _), Nat.sub_self]
    rfl
  have handed := @only_modifyConn
    { (s.register c).1 with table := (s.register c).1.table.map (bump c fun _ => 1) } c s.conns.size
    (·.hand (.payload data)) (·.hand (.payload data)) named (fun _ _ => rfl) fun _ _ => rfl
  rw [only_bump, only_register] at handed
  refine handed.trans ?_
  unfold welcome
  exact congrArg (modifyConn _ · _) rank

theorem only_welcome_of_ne (other : d ≠ c) (s : State) (data : Bytes) :
    (s.welcome d data).only c = s.only c := by
  have named : (s.register d).1.id? s.conns.size ≠ some c := by
    rw [id?_register, if_pos rfl]
    exact fun same => other (Option.some.inj same)
  have handed := @only_modifyConn_of_ne
    { (s.register d).1 with table := (s.register d).1.table.map (bump d fun _ => 1) } c s.conns.size
    (·.hand (.payload data)) named fun _ _ => rfl
  exact (handed.trans (only_bump_of_ne other _ _)).trans (only_register_of_ne other s)

theorem only_dispatchUnknown (s : State) (c : ConnId) (seq : UInt64) (data : Bytes) :
    { ((s.only c).dispatchUnknown c seq data).1 with accepted := [] } =
        (s.dispatchUnknown c seq data).1.only c ∧
      ((s.only c).dispatchUnknown c seq data).2 = (s.dispatchUnknown c seq data).2 := by
  have accepts : (s.only c).accepting = (s.accepting && s.listening) := rfl
  have listens : (s.only c).listening = s.listening := rfl
  unfold dispatchUnknown
  rw [show (s.only c).role = s.role from rfl]
  cases role : s.role with
  | dial => exact ⟨rfl, rfl⟩
  | accept =>
    dsimp only
    by_cases first : seq ≠ 0
    · rw [if_pos first, if_pos first]
      exact ⟨rfl, rfl⟩
    · rw [if_neg first, if_neg first]
      by_cases takes : s.accepting = true
      · by_cases hears : s.listening = true
        · rw [if_neg (by simp [accepts, takes, hears]), if_neg (by simp [listens, hears]),
            if_neg (by simp [takes]), if_neg (by simp [hears])]
          exact ⟨(only_welcome s c data).symm, rfl⟩
        · rw [if_pos (by simp [accepts, hears]), if_neg (by simp [takes]), if_pos (by simp [hears])]
          have noticed : { s with role := .accept, accepting := false }.only c = s.only c :=
            only_congr (fun _ => rfl) role.symm rfl (by simp [hears]) rfl rfl
          exact ⟨noticed.symm, rfl⟩
      · rw [if_pos (by simp [accepts, takes]), if_pos (by simp [takes])]
        exact ⟨rfl, rfl⟩

theorem only_dispatchUnknown_of_ne (other : d ≠ c) (s : State) (seq : UInt64) (data : Bytes) :
    (s.dispatchUnknown d seq data).1.only c = s.only c := by
  unfold dispatchUnknown
  split
  · rfl
  · split
    · rfl
    · split
      · rfl
      · split
        · next deaf =>
          have listening : s.listening = false := by simpa using deaf
          exact only_congr (fun _ => rfl) rfl rfl (by simp only [listening, Bool.and_false]) rfl rfl
        · exact only_welcome_of_ne other s data

/-- What a session makes of an envelope for a number, but for the queue of those that wait to be
accepted. -/
theorem only_dispatch (labelled : s.Labelled) (c : ConnId) (content : Content) :
    { ((s.only c).dispatch ⟨c, content⟩).1 with accepted := [] } =
        (s.dispatch ⟨c, content⟩).1.only c ∧
      ((s.only c).dispatch ⟨c, content⟩).2 = (s.dispatch ⟨c, content⟩).2 := by
  have queue (t : State) : { t.only c with accepted := [] } = t.only c := rfl
  unfold dispatch
  rw [show (s.only c).ended = s.ended from rfl]
  split
  · exact ⟨rfl, rfl⟩
  · cases content with
    | abort reason =>
      dsimp only
      rw [← only_abort labelled]
      exact ⟨rfl, rfl⟩
    | payload seq data =>
      dsimp only
      cases found : s.entry? c with
      | none =>
        rw [entry?_only, found, Option.map_none]
        exact only_dispatchUnknown s c seq data
      | some a =>
        obtain ⟨mem, here⟩ := mem_of_entry? found
        rw [entry?_only_of_some found]
        dsimp only
        rw [only_dispatchKnown labelled mem here]
        exact ⟨rfl, rfl⟩

theorem only_dispatch_of_ne (labelled : s.Labelled) {e : Envelope} (other : e.conn ≠ c) :
    (s.dispatch e).1.only c = s.only c := by
  unfold dispatch
  split
  · rfl
  · split
    · exact only_abort_of_ne labelled other _
    · split
      · next found =>
        obtain ⟨mem, here⟩ := mem_of_entry? found
        exact only_dispatchKnown_of_ne labelled mem (here ▸ other) _ _
      · exact only_dispatchUnknown_of_ne other s _ _

theorem only_dial (alive : s.ended = none) (c : ConnId) : s.dial.1.only c =
    if ⟨s.nextId⟩ = c then ((s.only c).register c).1 else s.only c := by
  have dialed : s.dial.1 = ({ s with nextId := s.nextId + 1 }.register ⟨s.nextId⟩).1 := by
    unfold dial
    split
    · next e ended => cases alive.symm.trans ended
    · rfl
  have unseen : ({ s with nextId := s.nextId + 1 }.register ⟨s.nextId⟩).1.only c =
      (s.register ⟨s.nextId⟩).1.only c := rfl
  rw [dialed, unseen]
  split
  · next here => rw [here, only_register]
  · next other => exact only_register_of_ne other s

theorem only_finish? (named : s.id? k = some c) : (s.only c).finish? (s.rank c k) =
    (s.finish? k).map fun (s', id) => (s'.only c, id) := by
  obtain ⟨x, known, rfl⟩ := Option.map_eq_some_iff.mp named
  have finish := only_modifyConn (f := (·.finish .closed)) (g := (·.finish .closed)) named
    (fun _ _ => rfl) fun _ _ => rfl
  unfold finish?
  rw [getElem?_only_rank named, known]
  dsimp only [Option.map_some]
  rw [show x.reading.terminal = x.terminal from rfl]
  split
  · rfl
  · rw [← finish]
    rfl

theorem only_forget? : (s.only c).forget? c = (s.forget? c).map (·.only c) := by
  unfold forget?
  rw [entry?_only, Option.isSome_map]
  split
  · rw [← only_remove]
    rfl
  · rfl

theorem only_close (named : s.id? k = some c) :
    (s.only c).close (s.rank c k) = ((s.close k).1.only c, (s.close k).2) := by
  unfold close
  rw [only_finish? named]
  obtain ⟨-, nothing⟩ | ⟨-, id, named', finished⟩ := s.finish?_cases k
  · rw [nothing]
    rfl
  · cases named.symm.trans named'
    rw [finished, Option.map_some]
    dsimp only
    rw [only_forget?]
    cases State.forget? (s.modifyConn k (·.finish .closed)) c <;> rfl

theorem only_close_of_ne (other : s.id? k ≠ some c) : (s.close k).1.only c = s.only c := by
  have finish := only_modifyConn_of_ne (f := (·.finish .closed)) other fun _ _ => rfl
  obtain ⟨-, same⟩ | ⟨-, id, named, ⟨-, same⟩ | ⟨-, same⟩⟩ := s.close_outcomes k <;> rw [same]
  · exact finish
  · have apart : id ≠ c := fun here => other (here ▸ named)
    exact (only_remove_of_ne apart _).trans finish

/-- The peer is told of the number of the connection that is closed. -/
theorem id?_of_close (closed : (s.close k).2 = some d) : s.id? k = some d := by
  obtain ⟨-, same⟩ | ⟨-, id, named, ⟨-, same⟩ | ⟨-, same⟩⟩ := s.close_outcomes k <;>
    rw [same] at closed <;> cases closed
  exact named

theorem any_conn_only (labelled : s.Labelled) (named : s.id? k = some c) :
    (s.only c).table.any (·.conn = s.rank c k) = s.table.any (·.conn = k) := by
  rw [Bool.eq_iff_iff, List.any_eq_true, List.any_eq_true]
  constructor
  · rintro ⟨b, mem, here⟩
    obtain ⟨a, listed, rfl⟩ := List.mem_map.mp mem
    obtain ⟨listed, name⟩ := List.mem_filter.mp listed
    have named' : s.id? a.conn = some c := of_decide_eq_true name ▸ labelled a listed
    exact ⟨a, listed, decide_eq_true ((rank_eq_iff named').mp (of_decide_eq_true here))⟩
  · rintro ⟨a, mem, here⟩
    have here : a.conn = k := of_decide_eq_true here
    have name : a.id = c := by
      have named' := labelled a mem
      rw [here, named] at named'
      exact (Option.some.inj named').symm
    refine ⟨{ a with conn := s.rank c a.conn }, ?_, decide_eq_true (congrArg (s.rank c) here)⟩
    exact List.mem_map.mpr ⟨a, List.mem_filter.mpr ⟨mem, decide_eq_true name⟩, rfl⟩

theorem only_read? (labelled : s.Labelled) (named : s.id? k = some c) :
    (s.only c).read? (s.rank c k) = (s.read? k).map fun (s', r) => (s'.only c, r) := by
  obtain ⟨x, known, name⟩ := Option.map_eq_some_iff.mp named
  unfold read?
  rw [getElem?_only_rank named, known, any_conn_only labelled named]
  dsimp only [Option.map_some]
  rw [Conn.read?_reading, Option.map_map, Option.map_map]
  refine Option.map_congr fun y read => ?_
  obtain ⟨x', r⟩ := y
  have same := Conn.read?_same read
  have replaced := only_modifyConn (f := fun _ => x') (g := fun _ => x'.reading) named
    (fun y known' => by cases known.symm.trans known'; exact same.1) fun _ _ => rfl
  exact Prod.ext replaced.symm rfl

theorem only_read?_of_ne (other : s.id? k ≠ some c) {r : Except Error (Option Bytes)}
    (read : s.read? k = some (s', r)) : s'.only c = s.only c := by
  obtain ⟨x, x', known, given, rfl⟩ := read?_eq_some read
  refine only_modifyConn_of_ne other fun y known' => ?_
  cases known.symm.trans known'
  exact (Conn.read?_same given).1

/-! ## The names in the table stay right -/

namespace Labelled

theorem modifyConn (h : s.Labelled) (keeps : ∀ x, s.conns[k]? = some x → (f x).id = x.id) :
    (s.modifyConn k f).Labelled :=
  fun a mem => (id?_modifyConn_of_keeps keeps a.conn).trans (h a mem)

theorem remove (h : s.Labelled) (d : ConnId) : (s.remove d).Labelled :=
  fun a mem => h a (List.mem_filter.mp mem).1

theorem bump (h : s.Labelled) (d : ConnId) (g : UInt64 → UInt64) :
    Labelled { s with table := s.table.map (State.bump d g) } := by
  intro a mem
  obtain ⟨b, listed, rfl⟩ := List.mem_map.mp mem
  unfold State.bump
  split <;> exact h b listed

theorem register (h : s.Labelled) (d : ConnId) : (s.register d).1.Labelled := by
  intro a mem
  rw [id?_register]
  obtain rfl | mem := List.mem_cons.mp mem
  · exact if_pos rfl
  · have named := h a (List.mem_filter.mp mem).1
    rw [if_neg (ne_size named), named]

theorem abort (h : s.Labelled) (d : ConnId) (reason : Reason) : (s.abort d reason).Labelled := by
  unfold State.abort
  split
  · exact h
  · next a _ =>
    have ended := h.modifyConn (k := a.conn) (f := aborting reason) fun _ _ => rfl
    exact ended.remove d

theorem welcome (h : s.Labelled) (d : ConnId) (data : Bytes) : (s.welcome d data).Labelled :=
  ((h.register d).bump d fun _ => 1).modifyConn fun _ _ => rfl

theorem routed (h : s.Labelled) (routed : s.Routed s') : s'.Labelled := by
  cases routed with
  | kept | deafened => exact h
  | aborted id reason => exact h.abort id reason
  | counted a data => exact (h.bump a.id (· + 1)).modifyConn fun _ _ => rfl
  | welcomed id data accepted => exact h.welcome id data

theorem close (h : s.Labelled) (k : ConnKey) : (s.close k).1.Labelled := by
  have finished : (s.modifyConn k (·.finish .closed)).Labelled := h.modifyConn fun _ _ => rfl
  obtain ⟨-, same⟩ | ⟨-, id, -, ⟨-, same⟩ | ⟨-, same⟩⟩ := s.close_outcomes k <;> rw [same]
  · exact h
  · exact finished
  · exact finished.remove _

theorem dial (h : s.Labelled) : s.dial.1.Labelled := by
  unfold State.dial
  split
  · exact h
  · have numbered : Labelled { s with nextId := s.nextId + 1 } := h
    exact numbered.register _

theorem congr (h : s.Labelled) (ids : ∀ k, s'.id? k = s.id? k) (table : s'.table = s.table) :
    s'.Labelled := by
  intro a mem
  rw [ids]
  exact h a (table ▸ mem)

theorem read (h : s.Labelled) {r : Except Error (Option Bytes)} (read : s.read? k = some (s', r)) :
    s'.Labelled := by
  have ids := (sameSending_read read).ids
  obtain ⟨x, x', -, -, rfl⟩ := read?_eq_some read
  exact h.congr ids rfl

end Labelled

/-! ## The session goes on -/

theorem ended_abort (s : State) (d : ConnId) (reason : Reason) : (s.abort d reason).ended = s.ended := by
  unfold abort
  split <;> rfl

theorem Routed.ended (h : s.Routed s') : s'.ended = s.ended := by
  cases h with
  | kept | counted | deafened | welcomed => rfl
  | aborted id reason => exact s.ended_abort id reason

theorem ended_close (s : State) (k : ConnKey) : (s.close k).1.ended = s.ended := by
  obtain ⟨-, same⟩ | ⟨-, id, -, ⟨-, same⟩ | ⟨-, same⟩⟩ := s.close_outcomes k <;> rw [same] <;> rfl

theorem ended_dial (s : State) : s.dial.1.ended = s.ended := by
  unfold dial
  split <;> rfl

end State

end Tether.Session
