import Tether.Wire.Decoder

/-!
# Views shrink

Each read that succeeds leaves a shorter view, and the view of a nested value and the view behind it
lie side by side in the one before. These are the facts by which every recursive reader ends.
-/

namespace Tether.Wire

namespace Decode

/-- A sequence of two reads succeeds exactly if both do, one after the other. -/
theorem bind_eq_ok {α β : Type} {x : Decode α} {f : α → Decode β} {view rest : Bytes} {b : β} :
    (x >>= f) view = .ok b rest ↔ ∃ a mid, x view = .ok a mid ∧ f a mid = .ok b rest := by
  constructor
  · intro h
    cases hx : x view with
    | ok a mid => exact ⟨a, mid, rfl, by simpa [bind, EStateM.bind, hx] using h⟩
    | error e mid => simp [bind, EStateM.bind, hx] at h
  · rintro ⟨a, mid, hx, h⟩
    simpa [bind, EStateM.bind, hx] using h

theorem pure_eq_ok {α : Type} {a b : α} {view rest : Bytes} :
    (pure a : Decode α) view = .ok b rest ↔ a = b ∧ view = rest := by
  simp [pure, EStateM.pure]

theorem peekTag_view {tag : Tag} {view rest : Bytes} (h : peekTag view = .ok tag rest) :
    view = rest ∧ view ≠ [] := by
  unfold peekTag at h
  split at h
  · cases h
  · split at h
    · injection h with _ h
      simp [← h]
    · cases h

theorem expectTag_length {tag : Tag} {view rest : Bytes} {u : Unit}
    (h : expectTag tag view = .ok u rest) : rest.length < view.length := by
  obtain ⟨t, mid, h₁, h⟩ := bind_eq_ok.mp h
  obtain ⟨rfl, hne⟩ := peekTag_view h₁
  split at h
  · injection h with _ h
    rw [← h, List.length_drop]
    have := List.length_pos_iff.mpr hne
    omega
  · cases h

theorem take_length {n : Nat} {view data rest : Bytes} (h : take n view = .ok data rest) :
    data.length + rest.length = view.length := by
  unfold take at h
  split at h
  · next hn =>
    injection h with hd hr
    simp [← hd, ← hr]
    omega
  · cases h

theorem varint_length {view rest : Bytes} {n : Nat} (h : varint view = .ok n rest) :
    rest.length ≤ view.length := by
  unfold varint at h
  split at h
  · injection h with _ hr
    simp [← hr]
  · cases h

theorem blob_length {tag : Tag} {view data rest : Bytes} (h : blob tag view = .ok data rest) :
    data.length + rest.length < view.length := by
  obtain ⟨_, _, h₁, h⟩ := bind_eq_ok.mp h
  obtain ⟨_, _, h₂, h⟩ := bind_eq_ok.mp h
  have := expectTag_length h₁
  have := varint_length h₂
  have := take_length h
  omega

theorem container_length {tag : Tag} {view body rest : Bytes}
    (h : container tag view = .ok body rest) : body.length + rest.length < view.length := by
  obtain ⟨_, _, h₁, h⟩ := bind_eq_ok.mp h
  obtain ⟨_, _, h₂, h⟩ := bind_eq_ok.mp h
  have := expectTag_length h₁
  have := take_length h₂
  have := take_length h
  omega

theorem str_length {view rest : Bytes} {text : String} (h : str view = .ok text rest) :
    rest.length < view.length := by
  obtain ⟨_, _, h₁, h⟩ := bind_eq_ok.mp h
  have := blob_length h₁
  unfold Decode.text at h
  cases ht : Bytes.toText? _ <;> rw [ht] at h
  · cases h
  · obtain ⟨_, rfl⟩ := pure_eq_ok.mp h
    omega

theorem variant_length {view body rest : Bytes} {name : String}
    (h : variant view = .ok (name, body) rest) : body.length + rest.length < view.length := by
  obtain ⟨inner, _, h₁, h⟩ := bind_eq_ok.mp h
  have := container_length h₁
  unfold named at h
  cases h₂ : str inner <;> rw [h₂] at h
  · obtain ⟨h, rfl⟩ := pure_eq_ok.mp h
    cases h
    have := str_length h₂
    omega
  · cases h

theorem bool_length {view rest : Bytes} {b : Bool} (h : bool view = .ok b rest) :
    rest.length < view.length := by
  obtain ⟨tag, _, h₁, h⟩ := bind_eq_ok.mp h
  obtain ⟨rfl, hne⟩ := peekTag_view h₁
  have hpos := List.length_pos_iff.mpr hne
  split at h
  iterate 2
    obtain ⟨_, _, h₂, h⟩ := bind_eq_ok.mp h
    obtain ⟨_, rfl⟩ := pure_eq_ok.mp h
    injection h₂ with _ h₂
    rw [← h₂, List.length_drop]
    omega
  · cases h

theorem uint_length {view rest : Bytes} {n : UInt64} (h : uint view = .ok n rest) :
    rest.length < view.length := by
  obtain ⟨_, _, h₁, h⟩ := bind_eq_ok.mp h
  obtain ⟨_, _, h₂, h⟩ := bind_eq_ok.mp h
  have := expectTag_length h₁
  have := varint_length h₂
  obtain ⟨_, rfl⟩ := pure_eq_ok.mp h
  omega

theorem option_length {view rest : Bytes} {content : Option Bytes}
    (h : option view = .ok content rest) :
    (content.getD []).length + rest.length < view.length := by
  obtain ⟨tag, _, h₁, h⟩ := bind_eq_ok.mp h
  obtain ⟨rfl, hne⟩ := peekTag_view h₁
  split at h
  · obtain ⟨_, _, h₂, h⟩ := bind_eq_ok.mp h
    obtain ⟨rfl, rfl⟩ := pure_eq_ok.mp h
    have hpos := List.length_pos_iff.mpr hne
    injection h₂ with _ h₂
    rw [← h₂, List.length_drop, Option.getD_none, List.length_nil]
    omega
  · obtain ⟨_, _, h₂, h⟩ := bind_eq_ok.mp h
    have := container_length h₂
    obtain ⟨rfl, rfl⟩ := pure_eq_ok.mp h
    rw [Option.getD_some]
    omega
  · cases h

theorem nextItem_length {items item rest : Bytes}
    (h : nextItem items = .ok (some item) rest) : item.length + rest.length = items.length := by
  unfold nextItem at h
  split at h
  · simp at h
  · split at h
    · injection h with h₁ h₂
      injection h₁ with h₁
      simp only [← h₁, ← h₂, List.length_take, List.length_drop]
      omega
    · cases h

theorem skip_length {view rest : Bytes} {u : Unit} (h : skip view = .ok u rest) :
    rest.length < view.length := by
  obtain ⟨tag, _, h₁, h⟩ := bind_eq_ok.mp h
  obtain ⟨rfl, hne⟩ := peekTag_view h₁
  have hpos := List.length_pos_iff.mpr hne
  have one : ∀ {v w : Bytes} {u : Unit}, v ≠ [] → skipByte v = .ok u w → w.length < v.length := by
    intro v w u hv hs
    injection hs with _ hs
    have := List.length_pos_iff.mpr hv
    rw [← hs, List.length_drop]
    omega
  cases tag <;> simp only at h
  case unit | boolTrue | boolFalse | optionNone => exact one hne h
  case uint =>
    obtain ⟨_, _, h₂, h⟩ := bind_eq_ok.mp h
    obtain ⟨_, _, h₃, h⟩ := bind_eq_ok.mp h
    have := one hne h₂
    have := varint_length h₃
    obtain ⟨_, rfl⟩ := pure_eq_ok.mp h
    omega
  case string | bytes =>
    obtain ⟨_, _, h₂, h⟩ := bind_eq_ok.mp h
    have := blob_length h₂
    obtain ⟨_, rfl⟩ := pure_eq_ok.mp h
    omega
  case list | optionSome | variant =>
    obtain ⟨_, _, h₂, h⟩ := bind_eq_ok.mp h
    have := container_length h₂
    obtain ⟨_, rfl⟩ := pure_eq_ok.mp h
    omega

/-- An item takes at least one byte of the list. -/
theorem nextItem_rest_length {items item rest : Bytes}
    (h : nextItem items = .ok (some item) rest) : rest.length < items.length := by
  unfold nextItem at h
  split at h
  · simp at h
  · split at h
    · next hs =>
      have := skip_length hs
      injection h with _ h
      simp only [← h, List.length_drop]
      omega
    · cases h

end Decode

end Tether.Wire
