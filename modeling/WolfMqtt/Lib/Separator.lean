import Mathlib.Data.List.Infix

/-! Words that end with a separator they do not contain.

Where one such word stands in front of anything, no other does. -/
namespace Separator

variable {α : Type} {z : α} {a b x y : List α}

/-- The first separator ends the word in front. -/
theorem append_inj (ha : z ∉ a) (hb : z ∉ b) (h : a ++ z :: x = b ++ z :: y) : a = b ∧ x = y := by
  induction a generalizing b with
  | nil =>
    cases b with
    | nil => exact ⟨rfl, (List.cons.inj h).2⟩
    | cons c b => exact absurd ((List.cons.inj h).1 ▸ List.mem_cons_self) hb
  | cons c a ih =>
    cases b with
    | nil => exact absurd ((List.cons.inj h).1 ▸ List.mem_cons_self) ha
    | cons d b =>
      obtain ⟨rfl, htail⟩ := List.cons.inj h
      obtain ⟨rfl, hxy⟩ := ih (List.not_mem_of_not_mem_cons ha) (List.not_mem_of_not_mem_cons hb) htail
      exact ⟨rfl, hxy⟩

theorem prefix_iff (ha : z ∉ a) (hb : z ∉ b) : (a ++ [z]) <+: (b ++ z :: y) ↔ a = b := by
  constructor
  · rintro ⟨t, ht⟩
    rw [List.append_assoc] at ht
    exact (append_inj ha hb ht).1
  · rintro rfl
    exact ⟨y, by rw [List.append_assoc]; rfl⟩

/-- How a prefix that ends with a separator is looked for: the word, and then the separator. -/
theorem prefix_iff_take : (a ++ [z]) <+: x ↔ x.take a.length = a ∧ x[a.length]? = some z := by
  constructor
  · rintro ⟨t, rfl⟩
    rw [List.append_assoc]
    exact ⟨List.take_left, by rw [List.getElem?_append_right (le_refl _), Nat.sub_self]; rfl⟩
  · rintro ⟨htake, hz⟩
    have hpre : (a ++ [z]) = x.take (a.length + 1) := by rw [List.take_add_one, htake, hz]; rfl
    exact hpre ▸ List.take_prefix _ _

end Separator
