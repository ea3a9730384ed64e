import Tether.Proofs.Stream.Duplex

/-!
# What one end of a stream is to the other

A view keeps of an end what the other end can ever learn of, and forgets how the end goes about it:
which writes wait, what the user has read, what the sending activity has in its hand. Messages are
kept in the order in which they will reach links, each with the link it is for, wherever they are:
queued for the sending activity, taken by it, or in flight. Those that no writer will take are left
out.

All that an event can do to the two views is said by `View.Exchange`. The laws of streams are
invariants of this relation.
-/

namespace Tether.Stream

open Chain (LinkId)
open Link (Side)

/-! ## Messages and the links they are for -/

/-- The frames that are queued for a sending activity with a writer, with the link of each. -/
def Control.routed : Option LinkId → List Control → List (LinkId × Bytes)
  | _, [] => []
  | _, .writer k :: rest => routed (some k) rest
  | none, .frame _ :: rest => routed none rest
  | some k, .frame f :: rest => (k, f.encode) :: routed (some k) rest

/-- The writer that a sending activity has once it has taken all that is queued for it. -/
def Control.lastWriter : Option LinkId → List Control → Option LinkId
  | held, [] => held
  | _, .writer k :: rest => lastWriter (some k) rest
  | held, .frame _ :: rest => lastWriter held rest

/-- A frame with the link it is for, if there is one. -/
def addressed (link : Option LinkId) (f : Option Frame) : List (LinkId × Bytes) :=
  match link, f with
  | some k, some f => [(k, f.encode)]
  | _, _ => []

def onLink (k : LinkId) (messages : List (LinkId × Bytes)) : List Bytes :=
  messages.filterMap fun x => if x.1 = k then some x.2 else none

namespace Control

theorem routed_append (held : Option LinkId) (control more : List Control) :
    routed held (control ++ more) =
      routed held control ++ routed (lastWriter held control) more := by
  induction control generalizing held with
  | nil => rfl
  | cons c control ih =>
    match held, c with
    | _, .writer k => simp only [List.cons_append, routed, lastWriter, ih]
    | none, .frame f => simp only [List.cons_append, routed, lastWriter, ih]
    | some k, .frame f => simp only [List.cons_append, routed, lastWriter, ih]

theorem lastWriter_append (held : Option LinkId) (control more : List Control) :
    lastWriter held (control ++ more) = lastWriter (lastWriter held control) more := by
  induction control generalizing held with
  | nil => rfl
  | cons c control ih => cases c <;> simp only [List.cons_append, lastWriter, ih]

@[simp]
theorem routed_frames (held : Option LinkId) (f : Option Frame) :
    routed held (f.toList.map .frame) = addressed held f := by
  cases held <;> cases f <;> rfl

@[simp]
theorem lastWriter_frames (held : Option LinkId) (f : Option Frame) :
    lastWriter held (f.toList.map .frame) = held := by
  cases f <;> rfl

/-- Without its writer, a sending activity will hand on fewer frames. -/
theorem routed_none_sublist (held : Option LinkId) (control : List Control) :
    (routed none control).Sublist (routed held control) := by
  induction control with
  | nil => exact List.Sublist.refl _
  | cons c control ih =>
    match held, c with
    | _, .writer k => exact List.Sublist.refl _
    | none, .frame f => exact List.Sublist.refl _
    | some k, .frame f => exact ih.trans (List.sublist_cons_self _ _)

/-- A writer that is let go loses frames of its own link only. -/
theorem onLink_routed_none {j k : LinkId} (other : j ≠ k) (control : List Control) :
    onLink j (routed none control) = onLink j (routed (some k) control) := by
  induction control with
  | nil => rfl
  | cons c control ih =>
    cases c with
    | writer l => rfl
    | frame f =>
      rw [routed, routed, ih]
      simp only [onLink, List.filterMap_cons, if_neg (Ne.symm other)]

/-- A writer that is let go either has a successor in the queue or was the last one. -/
theorem lastWriter_none (k : LinkId) (control : List Control) :
    lastWriter none control = lastWriter (some k) control ∨
      lastWriter none control = none ∧ lastWriter (some k) control = some k := by
  induction control with
  | nil => exact .inr ⟨rfl, rfl⟩
  | cons c control ih =>
    cases c with
    | writer l => exact .inl rfl
    | frame f => exact ih

end Control

@[simp]
theorem onLink_append (k : LinkId) (front back : List (LinkId × Bytes)) :
    onLink k (front ++ back) = onLink k front ++ onLink k back :=
  List.filterMap_append

@[simp]
theorem onLink_cons_self (k : LinkId) (data : Bytes) (rest : List (LinkId × Bytes)) :
    onLink k ((k, data) :: rest) = data :: onLink k rest := by
  simp [onLink]

theorem onLink_cons_other {j k : LinkId} (other : j ≠ k) (data : Bytes)
    (rest : List (LinkId × Bytes)) : onLink k ((j, data) :: rest) = onLink k rest := by
  simp [onLink, other]

theorem mem_onLink {k : LinkId} {data : Bytes} {messages : List (LinkId × Bytes)} :
    data ∈ onLink k messages ↔ (k, data) ∈ messages := by
  simp only [onLink, List.mem_filterMap, Prod.exists, Option.ite_none_right_eq_some]
  constructor
  · rintro ⟨j, found, mem, rfl, same⟩
    cases same
    exact mem
  · intro mem
    exact ⟨k, data, mem, rfl, rfl⟩

theorem Party.oldest_eq_some {k : LinkId} {messages rest : List (LinkId × Bytes)} {data : Bytes}
    (h : Party.oldest k messages = some (data, rest)) :
    ∃ front back, messages = front ++ (k, data) :: back ∧ rest = front ++ back ∧
      ∀ x ∈ front, x.1 ≠ k := by
  induction messages generalizing rest with
  | nil => cases h
  | cons x messages ih =>
    obtain ⟨j, first⟩ := x
    rw [Party.oldest] at h
    split at h
    · next same =>
      cases h
      subst same
      exact ⟨[], _, rfl, rfl, by simp⟩
    · next other =>
      obtain ⟨⟨found, rest'⟩, older, same⟩ := Option.map_eq_some_iff.mp h
      cases same
      obtain ⟨front, back, rfl, rfl, before⟩ := ih older
      refine ⟨(j, first) :: front, back, rfl, rfl, ?_⟩
      intro x mem
      rcases List.mem_cons.mp mem with rfl | mem
      · exact other
      · exact before x mem

/-! ## Views -/

/-- The end marker, if it was written. -/
def endMarker (written : Bool) : List Bytes :=
  if written then [[]] else []

@[simp]
theorem endMarker_true : endMarker true = [[]] :=
  rfl

@[simp]
theorem endMarker_false : endMarker false = [] :=
  rfl

/-- What one end of a stream is to the other. -/
structure View where
  /-- The chunks written. -/
  wrote : List Bytes
  /-- Whether the end marker was written. -/
  closed : Bool
  acked : Nat
  cursor : Nat
  receiver : Receiver
  /-- The units accepted from the peer, the end marker included. -/
  accepted : List Bytes
  heard : List Nat
  stitched : LinkId
  /-- The writer that the end has or will have. -/
  last : Option LinkId
  /-- The messages that have not arrived and are not lost yet, in the order of their sending. -/
  outgoing : List (LinkId × Bytes)
  dead : Bool
  /-- Whether the end has failed by a fault of its peer. -/
  faulted : Bool
  ackFrequency : Nat
  capacity : Nat

namespace View

/-- All units ever written: the chunks, and behind them the end marker. -/
def log (v : View) : List Bytes :=
  v.wrote ++ endMarker v.closed

/-- The end after its receiver has done something. -/
def receipt (v : View) (r : Receipt) : View :=
  { v with
    receiver := r.receiver
    accepted := v.accepted ++ r.accepted.toList
    outgoing := v.outgoing ++ addressed v.last r.reply }

/-- What an end can do by itself, when afterwards the links in `cut` are cut. -/
inductive Acts (cut : List LinkId) (v : View) : View → Prop where
  /-- Nothing, or it dies, or it loses messages for a link that is cut. -/
  | fades {outgoing : List (LinkId × Bytes)} {last : Option LinkId} {dead : Bool}
      (fewer : outgoing.Sublist v.outgoing)
      (kept : ∀ k, k ∉ cut → onLink k outgoing = onLink k v.outgoing)
      (lost : last = v.last ∨ last = none ∧ ∃ k ∈ cut, v.last = some k)
      (dies : v.dead = true → dead = true) : Acts cut v { v with outgoing, last, dead }
  | writes {chunk : Bytes} (nonempty : chunk ≠ []) (opened : v.closed = false) :
      Acts cut v { v with wrote := v.wrote ++ [chunk] }
  | closes (opened : v.closed = false) : Acts cut v { v with closed := true }
  /-- It sends the unit under its cursor. -/
  | sends {unit : Bytes} {k : LinkId} (found : v.log[v.cursor]? = some unit)
      (bound : v.last = some k) :
      Acts cut v { v with
        cursor := v.cursor + 1
        outgoing := v.outgoing ++ [(k, (Frame.chunk v.cursor unit).encode)] }
  /-- It is given a newer link. -/
  | stitches {k : LinkId} (newer : v.stitched < k) :
      Acts cut v ({ v with stitched := k, last := some k }.receipt v.receiver.stitched)

/-- What a message does to the end at which it arrives. -/
inductive Takes (v : View) (data : Bytes) : View → Prop where
  /-- It is no frame. -/
  | garbled {e : Error} {faulted : Bool} (read : Frame.decode data = .error e) :
      Takes v data { v with dead := true, faulted }
  /-- It is a unit. -/
  | unit {seq : Nat} {payload : Bytes} {r : Receipt}
      (read : Frame.decode data = .ok (.chunk seq payload))
      (taken : v.receiver.chunk v.ackFrequency seq payload = .ok r) : Takes v data (v.receipt r)
  /-- It is a unit that follows the end marker. -/
  | afterEnd {seq : Nat} {payload : Bytes} {e : Error} {faulted : Bool}
      (read : Frame.decode data = .ok (.chunk seq payload))
      (refused : v.receiver.chunk v.ackFrequency seq payload = .error e) :
      Takes v data { v with dead := true, faulted }
  /-- It is a count that releases units. -/
  | count {count cursor : Nat}
      (read : Frame.decode data = .ok (.sync count) ∧ cursor = count ∨
        Frame.decode data = .ok (.ack count) ∧ cursor = max v.cursor count)
      (alive : v.dead = false) (lower : v.acked ≤ count) (upper : count ≤ v.log.length) :
      Takes v data { v with acked := count, cursor, heard := v.heard ++ [count] }
  /-- It is a count that the peer cannot have reached. -/
  | outside {count : Nat} {faulted : Bool}
      (read : Frame.decode data = .ok (.sync count) ∨ Frame.decode data = .ok (.ack count))
      (outside : count < v.acked ∨ v.log.length < count) :
      Takes v data { v with dead := true, faulted, heard := v.heard ++ [count] }
  /-- It is a count that comes after the end's death. -/
  | late {count : Nat}
      (read : Frame.decode data = .ok (.sync count) ∨ Frame.decode data = .ok (.ack count))
      (dead : v.dead = true) : Takes v data { v with heard := v.heard ++ [count] }

/-- What an event does to the end it happens at, to the other end, and to the links cut. -/
inductive Exchange : View → View → List LinkId → View → View → List LinkId → Prop where
  | acts {v v' w : View} {cut cut' : List LinkId} (more : cut ⊆ cut') (act : Acts cut' v v') :
      Exchange v w cut v' w cut'
  /-- The oldest message on the link that the end reads arrives. -/
  | takes {v v' w : View} {cut : List LinkId} {data : Bytes} {front back : List (LinkId × Bytes)}
      (inFlight : w.outgoing = front ++ (v.stitched, data) :: back)
      (first : ∀ x ∈ front, x.1 ≠ v.stitched) (act : Takes v data v') :
      Exchange v w cut v' { w with outgoing := front ++ back } cut

theorem Acts.idle (cut : List LinkId) (v : View) : Acts cut v v :=
  .fades (List.Sublist.refl _) (fun _ _ => rfl) (.inl rfl) id

theorem Acts.dying (cut : List LinkId) (v : View) : Acts cut v { v with dead := true } :=
  .fades (List.Sublist.refl _) (fun _ _ => rfl) (.inl rfl) fun _ => rfl

end View

end Tether.Stream
