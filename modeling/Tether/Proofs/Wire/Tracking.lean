import Tether.Proofs.Wire.Window
import Tether.Proofs.Wire.Skipping

/-!
# Reads in place do what reads do

A read over a window ends as the read of its bytes ends, and leaves the bytes that that one leaves, at
the end of the same window. It is shown read by read, along the sequence of its parts: what a part gives
and where it stops is what the next one may assume. No case is left in which a bound was not in range.
With it goes where each part lies: a value takes at least its tag, and what is inside of it lies between
the tag and what is left.
-/

namespace Tether.Wire

variable {input : Bytes} {α β γ δ : Type}

namespace Window

/-- What is left of a window after a read: its end part. -/
structure Leaves (w left : Window input) : Prop where
  onward : w.start ≤ left.start
  stop : left.stop = w.stop

theorem Leaves.refl (w : Window input) : w.Leaves w :=
  ⟨Nat.le_refl _, rfl⟩

/-- What a read took is in range. -/
theorem Leaves.room {w left : Window input} (h : w.Leaves left) :
    w.start + (left.start - w.start) ≤ w.stop := by
  have := h.onward
  have := h.stop
  have := left.ordered
  omega

theorem Leaves.eq_back {w left : Window input} (h : w.Leaves left) : left = w.back _ h.room := by
  have onward := h.onward
  have ends := h.stop
  obtain ⟨start, stop, _, _⟩ := left
  simp only at onward ends
  simp only [back, mk.injEq]
  omega

theorem Leaves.isSuffix {w left : Window input} (h : w.Leaves left) : left.view <:+ w.view := by
  rw [h.eq_back, view_back]
  exact List.drop_suffix _ _

theorem Leaves.length_le {w left : Window input} (h : w.Leaves left) : left.length ≤ w.length := by
  have := h.onward
  have := h.stop
  unfold Window.length
  omega

theorem Leaves.length_sub {w left : Window input} (h : w.Leaves left) :
    w.length - left.length = left.start - w.start := by
  have := h.onward
  have := h.stop
  have := left.ordered
  unfold Window.length
  omega

theorem Leaves.trans {w mid left : Window input} (h : w.Leaves mid) (h' : mid.Leaves left) :
    w.Leaves left :=
  ⟨Nat.le_trans h.onward h'.onward, h'.stop.trans h.stop⟩

/-- A part that a read took lies behind the tag, up to what is left. -/
structure Holds (w left part : Window input) : Prop where
  behind : w.start < part.start
  upTo : part.stop = left.start

/-- Such a read consumed at least the tag. -/
theorem Holds.consumed {w left part : Window input} (holds : w.Holds left part) :
    w.start < left.start :=
  holds.upTo ▸ Nat.lt_of_lt_of_le holds.behind part.ordered

/-- A part keeps its place when it is read on. -/
theorem Holds.inner {w left part rest : Window input} (holds : w.Holds left part)
    (leaves : part.Leaves rest) : w.Holds left rest :=
  ⟨Nat.lt_of_lt_of_le holds.behind leaves.onward, leaves.stop.trans holds.upTo⟩

end Window

open Window

/-! ## Reads that end alike -/

/-- How a read over a window and one of its bytes end alike. -/
inductive Alike (w : Window input) (same : Window input → α → β → Prop) :
    EStateM.Result Stop (Window input) α → EStateM.Result Error Bytes β → Prop where
  | ok {left : Window input} {a : α} {b : β} (leaves : w.Leaves left) (given : same left a b) :
    Alike w same (.ok a left) (.ok b left.view)
  | error {left : Window input} {e : Error} (leaves : w.Leaves left) :
    Alike w same (.error (.failed e) left) (.error e left.view)

/-- Over the window, `x` does what `y` does on its bytes, and what they give is related. -/
def Tracks (w : Window input) (x : Scan input α) (y : Decode β)
    (same : Window input → α → β → Prop) : Prop :=
  Alike w same (x w) (y w.view)

namespace Tracks

variable {w : Window input} {x : Scan input α} {y : Decode β}
  {same same' : Window input → α → β → Prop} {after : Window input → γ → δ → Prop}

theorem imp (h : Tracks w x y same)
    (weaker : ∀ left a b, w.Leaves left → same left a b → same' left a b) :
    Tracks w x y same' := by
  unfold Tracks at *
  generalize x w = ended, y w.view = ended' at *
  cases h with
  | ok leaves given => exact .ok leaves (weaker _ _ _ leaves given)
  | error leaves => exact .error leaves

/-- Two reads in turn. -/
theorem bind (h : Tracks w x y same) {f : α → Scan input γ} {g : β → Decode δ}
    (h' : ∀ left a b, w.Leaves left → same left a b → Tracks left (f a) (g b) after) :
    Tracks w (x >>= f) (y >>= g) after := by
  unfold Tracks at h
  change Alike w after (EStateM.bind x f w) (EStateM.bind y g w.view)
  unfold EStateM.bind
  generalize x w = ended, y w.view = ended' at h
  cases h with
  | @ok left a b leaves given =>
    -- The second read starts on what the first one left, here and there the same bytes.
    have second := h' left a b leaves given
    unfold Tracks at second
    change Alike w after (f a left) (g b left.view)
    generalize f a left = ended, g b left.view = ended' at *
    cases second with
    | ok leaves' given' => exact .ok (leaves.trans leaves') given'
    | error leaves' => exact .error (leaves.trans leaves')
  | error leaves => exact .error leaves

theorem pure {a : α} {b : β} (given : same w a b) :
    Tracks w (Pure.pure a) (Pure.pure b) same :=
  .ok (.refl w) given

theorem throw (e : Error) :
    Tracks w (throwThe Stop (.failed e)) (throwThe Error e) same :=
  .error (.refl w)

end Tracks

/-! ## Read by read -/

namespace Scan

variable {w : Window input} {n : Nat}

theorem split_eq_ok (room : w.start + n ≤ w.stop) :
    split n w = .ok (w.front n room) (w.back n room) :=
  dif_pos room

theorem pass_eq_ok (room : w.start + n ≤ w.stop) : pass n w = .ok () (w.back n room) := by
  change EStateM.bind (split n) (fun _ => Pure.pure ()) w = _
  rw [EStateM.bind, split_eq_ok room]
  rfl

/-- A look is in step with a read that consumes nothing. -/
theorem tracks_look {read : Decode α} (still : Reader.left (read w.view) = w.view) :
    Tracks w (look read) read fun left a b => a = b ∧ left = w ∧ read w.view = .ok b w.view := by
  unfold Tracks look
  cases given : read w.view with
  | ok a rest =>
    obtain rfl : rest = w.view := by rw [given] at still; exact still
    exact .ok (.refl w) ⟨rfl, rfl, rfl⟩
  | error e rest =>
    obtain rfl : rest = w.view := by rw [given] at still; exact still
    exact .error (.refl w)

theorem left_peekTag (view : Bytes) : Reader.left (Decode.peekTag view) = view := by
  unfold Decode.peekTag
  split
  · rfl
  · split <;> rfl

/-- Where there is a tag, there is a byte. -/
theorem tracks_peekTag :
    Tracks w (look Decode.peekTag) Decode.peekTag fun left a b =>
      a = b ∧ left = w ∧ w.start + 1 ≤ w.stop := by
  refine (tracks_look (left_peekTag _)).imp fun left a b _ ⟨same, still, given⟩ => ⟨same, still, ?_⟩
  have filled := List.length_pos_iff.mpr (Decode.peekTag_view given).2
  rw [length_view, Window.length] at filled
  omega

theorem tracks_skipByte (room : w.start + 1 ≤ w.stop) :
    Tracks w (pass 1) Decode.skipByte fun left _ _ => w.start < left.start := by
  unfold Tracks Decode.skipByte
  rw [pass_eq_ok room, ← view_back]
  exact .ok ⟨Nat.le_succ _, rfl⟩ (Nat.lt_succ_self _)

theorem take_eq_ok (room : w.start + n ≤ w.stop) :
    take n w = .ok (w.front n room) (w.back n room) := by
  have enough : ¬w.length < n := by
    unfold Window.length
    omega
  rw [take, if_neg enough, split_eq_ok room]

theorem tracks_take :
    Tracks w (take n) (Decode.take n) fun left part data =>
      part.view = data ∧ part.start = w.start ∧ part.stop = left.start ∧ data.length = n := by
  unfold Tracks Decode.take
  rw [length_view]
  have ordered := w.ordered
  by_cases enough : n ≤ w.length
  · have room : w.start + n ≤ w.stop := by
      unfold Window.length at enough
      omega
    rw [if_pos enough, take_eq_ok room, ← view_front w room, ← view_back w room]
    refine .ok ⟨Nat.le_add_right _ _, rfl⟩ ⟨rfl, rfl, rfl, ?_⟩
    rw [length_view]
    exact Nat.add_sub_cancel_left _ _
  · rw [take, if_pos (Nat.not_le.mp enough), if_neg enough]
    exact .error (.refl w)

theorem tracks_varint :
    Tracks w varint Decode.varint fun _ a b => a = b := by
  unfold Tracks varint Decode.varint
  cases read : Varint.decode w.view with
  | error e => exact .error (.refl w)
  | ok number =>
    obtain ⟨n, used⟩ := number
    obtain ⟨digits, rest, whole, rfl, -⟩ := Varint.decode_eq_ok_iff.mp read
    have room : w.start + digits.length ≤ w.stop := by
      have := congrArg List.length whole
      rw [length_view, List.length_append, Window.length] at this
      have := w.ordered
      omega
    change Alike w _ (EStateM.bind (pass digits.length) (fun _ => Pure.pure n) w) _
    rw [EStateM.bind, pass_eq_ok room]
    change Alike w _ (.ok n (w.back digits.length room)) (.ok n (w.view.drop digits.length))
    rw [← view_back w room]
    exact .ok ⟨Nat.le_add_right _ _, rfl⟩ rfl

/-- The four bytes of a length that were taken are there. -/
theorem tracks_lengthField :
    Tracks w lengthField (Decode.take 4) fun _ length field => length = Bytes.toLength field := by
  rw [← bind_pure (Decode.take 4)]
  refine tracks_take.bind fun left field data _ given => ?_
  obtain ⟨rfl, -, -, four⟩ := given
  match field.view, four with
  | [a, b, c, d], _ => exact .pure rfl

theorem tracks_expectTag (tag : Tag) :
    Tracks w (expectTag tag) (Decode.expectTag tag) fun left _ _ => w.start < left.start := by
  refine tracks_peekTag.bind fun _ found _ _ given => ?_
  obtain ⟨rfl, rfl, room⟩ := given
  split
  · exact tracks_skipByte room
  · exact .throw _

theorem tracks_blob (tag : Tag) :
    Tracks w (blob tag) (Decode.blob tag) fun left part data =>
      part.view = data ∧ w.Holds left part := by
  refine (tracks_expectTag tag).bind fun mid _ _ _ tagged => ?_
  refine tracks_varint.bind fun mid' _ length onward same => ?_
  obtain rfl := same
  refine tracks_take.imp fun left part data _ given => ?_
  obtain ⟨same, start, stop, -⟩ := given
  exact ⟨same, start ▸ Nat.lt_of_lt_of_le tagged onward.onward, stop⟩

theorem tracks_container (tag : Tag) :
    Tracks w (container tag) (Decode.container tag) fun left part data =>
      part.view = data ∧ w.Holds left part := by
  refine (tracks_expectTag tag).bind fun mid _ _ _ tagged => ?_
  refine tracks_lengthField.bind fun mid' _ field onward same => ?_
  obtain rfl := same
  refine tracks_take.imp fun left part data _ given => ?_
  obtain ⟨same, start, stop, -⟩ := given
  exact ⟨same, start ▸ Nat.lt_of_lt_of_le tagged onward.onward, stop⟩

theorem tracks_skip : Tracks w skip Decode.skip fun left _ _ => w.start < left.start := by
  have thrown {x : Scan input (Window input)} {y : Decode Bytes}
      (h : Tracks w x y fun left part data => part.view = data ∧ w.Holds left part) :
      Tracks w (do let _ ← x) (do let _ ← y) fun left (_ _ : Unit) => w.start < left.start :=
    h.bind fun left part data _ given => .pure (given.2.consumed)
  refine tracks_peekTag.bind fun _ tag _ _ given => ?_
  obtain ⟨rfl, rfl, room⟩ := given
  cases tag with
  | unit | boolTrue | boolFalse | optionNone => exact tracks_skipByte room
  | uint =>
    refine (tracks_skipByte room).bind fun mid _ _ _ tagged => ?_
    exact tracks_varint.bind fun left _ _ onward _ => .pure (Nat.lt_of_lt_of_le tagged onward.onward)
  | string | bytes => exact thrown (tracks_blob _)
  | list | optionSome | variant => exact thrown (tracks_container _)

theorem tracks_bool :
    Tracks w bool Decode.bool fun left a b => a = b ∧ w.start < left.start := by
  refine tracks_peekTag.bind fun _ tag _ _ given => ?_
  obtain ⟨rfl, rfl, room⟩ := given
  have shown (b : Bool) :
      Tracks _ (do pass 1; return b) (do Decode.skipByte; return b)
        fun left a c => a = c ∧ _ < left.start :=
    (tracks_skipByte room).bind fun left _ _ _ tagged => .pure ⟨rfl, tagged⟩
  cases tag with
  | boolTrue => exact shown true
  | boolFalse => exact shown false
  | _ => exact .throw _

theorem tracks_uint :
    Tracks w uint Decode.uint fun left a b => a = b ∧ w.start < left.start := by
  refine (tracks_expectTag .uint).bind fun mid _ _ _ tagged => ?_
  refine tracks_varint.bind fun left n _ onward same => ?_
  obtain rfl := same
  exact .pure ⟨rfl, Nat.lt_of_lt_of_le tagged onward.onward⟩

theorem tracks_str :
    Tracks w str Decode.str fun left a b => a = b ∧ w.start < left.start := by
  refine (tracks_blob .string).bind fun mid part _ _ given => ?_
  obtain ⟨rfl, holds⟩ := given
  have still : Reader.left (Decode.text part.view mid.view) = mid.view := by
    unfold Decode.text
    cases Bytes.toText? part.view <;> rfl
  refine (tracks_look still).imp fun left _ _ _ given => ?_
  obtain ⟨same, rfl, -⟩ := given
  exact ⟨same, holds.consumed⟩

theorem tracks_option :
    Tracks w option Decode.option fun left content content' =>
      w.start < left.start ∧ content.map view = content' ∧ ∀ body ∈ content, w.Holds left body := by
  refine tracks_peekTag.bind fun _ tag _ _ given => ?_
  obtain ⟨rfl, rfl, room⟩ := given
  cases tag with
  | optionNone =>
    exact (tracks_skipByte room).bind fun left _ _ _ tagged => .pure ⟨tagged, rfl, nofun⟩
  | optionSome =>
    refine (tracks_container .optionSome).bind fun left body _ _ given => ?_
    obtain ⟨rfl, holds⟩ := given
    refine .pure ⟨holds.consumed, rfl, fun part mem => ?_⟩
    obtain rfl := Option.mem_some.mp mem
    exact holds
  | _ => exact .throw _

theorem tracks_variant :
    Tracks w variant Decode.variant fun left named named' =>
      (named.1, named.2.view) = named' ∧ w.Holds left named.2 := by
  refine (tracks_container .variant).bind fun mid body _ _ given => ?_
  obtain ⟨rfl, holds⟩ := given
  have name : Tracks body str Decode.str _ := tracks_str
  unfold Tracks at *
  unfold within Decode.named
  generalize str body = ended, Decode.str body.view = ended' at *
  cases name with
  | ok leaves given =>
    obtain ⟨rfl, -⟩ := given
    exact .ok (.refl mid) ⟨rfl, holds.inner leaves⟩
  | error => exact .error (.refl mid)

/-- The item is what the step over a copy took; what the copy still holds is not more than the list. -/
theorem nextItem_eq_ok {probe : Window input} (filled : w.length ≠ 0) (stepped : skip w = .ok () probe)
    (leaves : w.Leaves probe) : nextItem w = .ok (some (w.front _ leaves.room)) probe := by
  have cut : (do return some (← take (probe.start - w.start)) : Scan input _) w =
      .ok (some (w.front _ leaves.room)) (w.back _ leaves.room) := by
    change EStateM.bind (take _) (fun part => Pure.pure (some part)) w = _
    rw [EStateM.bind, take_eq_ok leaves.room]
    rfl
  rw [nextItem, if_neg filled, stepped]
  dsimp only
  rw [if_pos leaves.length_le, leaves.length_sub, cut, ← leaves.eq_back]

theorem nextItem_eq_error {probe : Window input} {stop : Stop} (filled : w.length ≠ 0)
    (stepped : skip w = .error stop probe) : nextItem w = .error stop w := by
  rw [nextItem, if_neg filled, stepped]

theorem tracks_nextItem :
    Tracks w nextItem Decode.nextItem fun left item item' =>
      item.map view = item' ∧
        ∀ part ∈ item, w.start < left.start ∧ part.start = w.start ∧ part.stop = left.start := by
  have length := length_view w
  by_cases filled : w.length = 0
  · have none : w.view = [] := List.eq_nil_of_length_eq_zero (length.trans filled)
    unfold Tracks nextItem
    rw [if_pos filled, Decode.nextItem_eq_none.mpr ⟨none, none⟩]
    exact .ok (.refl w) ⟨rfl, nofun⟩
  · have some : w.view ≠ [] := fun none => filled (by rw [← length, none]; rfl)
    have stepped : Tracks w skip Decode.skip _ := tracks_skip
    unfold Tracks at *
    rw [Decode.nextItem_of_ne_nil some]
    generalize stepping : skip w = ended, Decode.skip w.view = ended' at stepped ⊢
    cases stepped with
    | error =>
      rw [nextItem_eq_error filled stepping]
      exact .error (.refl w)
    | @ok probe _ _ leaves shorter =>
      dsimp only
      rw [nextItem_eq_ok filled stepping leaves, length_view, length_view, leaves.length_sub,
        ← view_front w leaves.room, ← view_back w leaves.room, ← leaves.eq_back]
      refine .ok leaves ⟨rfl, fun part mem => ?_⟩
      obtain rfl := Option.mem_some.mp mem
      exact ⟨shorter, rfl, Nat.add_sub_of_le leaves.onward⟩

end Scan

end Tether.Wire
