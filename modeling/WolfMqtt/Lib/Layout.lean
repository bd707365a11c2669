import Mathlib.Data.List.Basic

/-! Blocks in a buffer.

`At xs pos b` says that `b` stands at offset `pos`. Blocks that follow each other stand where the ones
in front of them end (`at_append`), so that a layout is read off as a list of such facts. `Reads` says
of a scanner that it reads one kind of block, from any offset: all of them and nothing else. -/
namespace Layout

variable {α : Type} {xs a b : List α} {pos : Nat}

def At (xs : List α) (pos : Nat) (b : List α) : Prop := b <+: xs.drop pos

theorem at_iff : At xs pos b ↔ ∃ rest, xs.drop pos = b ++ rest := by
  unfold At
  exact exists_congr fun rest => eq_comm

@[simp]
theorem at_nil : At xs pos [] := List.nil_prefix

theorem at_append : At xs pos (a ++ b) ↔ At xs pos a ∧ At xs (pos + a.length) b := by
  rw [at_iff, at_iff, at_iff]
  constructor
  · rintro ⟨rest, h⟩
    rw [List.append_assoc] at h
    exact ⟨⟨b ++ rest, h⟩, rest, by rw [← List.drop_drop, h, List.drop_left]⟩
  · rintro ⟨⟨rest, h⟩, rest', h'⟩
    rw [← List.drop_drop, h, List.drop_left] at h'
    exact ⟨rest', by rw [h, h', List.append_assoc]⟩

/-- A block that stands in a buffer ends in it. -/
theorem At.le (h : At xs pos b) (hpos : pos ≤ xs.length) : pos + b.length ≤ xs.length := by
  have hlen := h.length_le
  rw [List.length_drop] at hlen
  omega

theorem At.take_drop (h : At xs pos b) : (xs.drop pos).take b.length = b := by
  obtain ⟨rest, h⟩ := at_iff.mp h
  rw [h, List.take_left]

/-- Two blocks of one length at one place are the same. -/
theorem At.unique (ha : At xs pos a) (hb : At xs pos b) (hlen : a.length = b.length) : a = b := by
  rw [← ha.take_drop, ← hb.take_drop, hlen]

/-- What stands at a place is what is read there. -/
theorem at_take_drop {n : Nat} : At xs pos ((xs.drop pos).take n) := List.take_prefix _ _

/-! ### Scanners -/

/-- The scanner reads the blocks that `wire` writes for the values `Ok` allows, if they end by `limit`. What it
gives for one that ends at `n` `Shows n` the value. -/
structure Reads {ε β γ : Type} (xs : List α) (limit : Nat) (scan : Nat → Except ε (β × Nat)) (Ok : γ → Prop)
    (wire : γ → List α) (Shows : Nat → β → γ → Prop) : Prop where
  sound : ∀ {pos : Nat} {x : β} {next : Nat}, pos ≤ xs.length → scan pos = .ok (x, next) →
    ∃ v, Ok v ∧ At xs pos (wire v) ∧ next = pos + (wire v).length ∧ Shows next x v
  complete : ∀ {pos : Nat} {v : γ}, pos ≤ xs.length → Ok v → At xs pos (wire v) → pos + (wire v).length ≤ limit →
    ∃ x, scan pos = .ok (x, pos + (wire v).length) ∧ Shows (pos + (wire v).length) x v

end Layout
