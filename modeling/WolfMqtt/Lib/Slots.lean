import Mathlib.Data.List.Basic

/-! A fixed array of slots that are found by a key.

A free slot has key 0. A value is put into the first slot with a key, or into the first free one, and
a slot is freed by overwriting it; as long as no key but 0 is in two slots, the slots in use are a
finite map. -/
namespace Slots

variable {α : Type} {key : α → Nat} {xs : List α} {i k : Nat} {x y : α}

/-- The first slot with a key. -/
def find (key : α → Nat) (xs : List α) (k : Nat) : Option Nat := xs.findIdx? (fun x => key x = k)

/-- No key but that of a free slot is in two slots. -/
def Distinct (key : α → Nat) (xs : List α) : Prop :=
  ∀ (i j : Nat) (x y : α), xs[i]? = some x → xs[j]? = some y → key x = key y → key x ≠ 0 → i = j

theorem find_some (h : find key xs k = some i) : ∃ x, xs[i]? = some x ∧ key x = k := by
  obtain ⟨hi, hx, -⟩ := List.findIdx?_eq_some_iff_getElem.mp h
  exact ⟨xs[i], List.getElem?_eq_getElem hi, of_decide_eq_true hx⟩

theorem find_none (h : find key xs k = none) : ∀ x ∈ xs, key x ≠ k := by
  intro x hx
  exact of_decide_eq_false (List.findIdx?_eq_none_iff.mp h x hx)

theorem Distinct.eq (h : Distinct key xs) (hx : x ∈ xs) (hy : y ∈ xs) (hkey : key x = key y) (hused : key x ≠ 0) :
    x = y := by
  obtain ⟨i, hi⟩ := List.mem_iff_getElem?.mp hx
  obtain ⟨j, hj⟩ := List.mem_iff_getElem?.mp hy
  have hij := h i j x y hi hj hkey hused
  subst hij
  exact Option.some.inj (hi.symm.trans hj)

theorem Distinct.replicate (n : Nat) (hx : key x = 0) : Distinct key (List.replicate n x) := by
  intro i j a b ha _ _ hused
  rw [List.eq_of_mem_replicate (List.mem_of_getElem? ha)] at hused
  exact absurd hx hused

/-- What overwriting slot `i` leaves in place. -/
theorem mem_set_of_ne (hx : x ∈ xs) (hi : xs[i]? = some y) (hne : x ≠ y) (z : α) : x ∈ xs.set i z := by
  obtain ⟨j, hj⟩ := List.mem_iff_getElem?.mp hx
  have hij : i ≠ j := by
    rintro rfl
    exact hne (Option.some.inj (hj.symm.trans hi))
  exact List.mem_iff_getElem?.mpr ⟨j, by rw [List.getElem?_set_ne hij]; exact hj⟩

theorem mem_set_self (hi : xs[i]? = some y) (z : α) : z ∈ xs.set i z := by
  obtain ⟨hlt, -⟩ := List.getElem?_eq_some_iff.mp hi
  exact List.mem_iff_getElem?.mpr ⟨i, List.getElem?_set_self hlt⟩

/-- A slot may be overwritten by a value whose key no other slot has. -/
theorem Distinct.set (h : Distinct key xs) {z : α}
    (hz : key z ≠ 0 → ∀ (j : Nat) (x : α), j ≠ i → xs[j]? = some x → key x ≠ key z) : Distinct key (xs.set i z) := by
  have hget : ∀ {j a}, (xs.set i z)[j]? = some a → (j = i ∧ a = z) ∨ (j ≠ i ∧ xs[j]? = some a) := by
    intro j a ha
    by_cases hj : i = j
    · subst hj
      rw [List.getElem?_set_self'] at ha
      obtain ⟨b, -, hb⟩ := Option.map_eq_some_iff.mp ha
      exact .inl ⟨rfl, hb.symm⟩
    · rw [List.getElem?_set_ne hj] at ha
      exact .inr ⟨fun heq => hj heq.symm, ha⟩
  intro j j' a b ha hb hkey hused
  rcases hget ha with ⟨hj, hza⟩ | ⟨hj, hold⟩
  · rcases hget hb with ⟨hj', -⟩ | ⟨hj', hold'⟩
    · rw [hj, hj']
    · exact absurd (hza ▸ hkey.symm) (hz (hza ▸ hused) j' b hj' hold')
  · rcases hget hb with ⟨-, hzb⟩ | ⟨-, hold'⟩
    · exact absurd (hzb ▸ hkey) (hz (hzb ▸ hkey ▸ hused) j a hj hold)
    · exact h j j' a b hold hold' hkey hused

theorem Distinct.set_free (h : Distinct key xs) {z : α} (hz : key z = 0) : Distinct key (xs.set i z) :=
  h.set fun hused => absurd hz hused

theorem Distinct.set_new (h : Distinct key xs) {z : α} (hz : ∀ x ∈ xs, key x ≠ key z) : Distinct key (xs.set i z) :=
  h.set fun _ _ x _ hx => hz x (List.mem_of_getElem? hx)

theorem Distinct.set_same (h : Distinct key xs) (hi : xs[i]? = some y) {z : α} (hz : key z = key y) :
    Distinct key (xs.set i z) := by
  refine h.set fun hused j x hj hx hkey => hj ?_
  exact h j i x y hx hi (hkey.trans hz) (hkey ▸ hused)

/-- A change of every slot that keeps the keys or frees. -/
theorem Distinct.map (h : Distinct key xs) {f : α → α} (hf : ∀ x, key (f x) = key x ∨ key (f x) = 0) :
    Distinct key (xs.map f) := by
  intro i j a b ha hb hkey hused
  rw [List.getElem?_map] at ha hb
  obtain ⟨x, hx, rfl⟩ := Option.map_eq_some_iff.mp ha
  obtain ⟨y, hy, rfl⟩ := Option.map_eq_some_iff.mp hb
  have hx' := (hf x).resolve_right hused
  have hy' := (hf y).resolve_right (hkey ▸ hused)
  exact h i j x y hx hy (by rw [← hx', ← hy', hkey]) (hx' ▸ hused)

theorem modify_eq_set (hi : xs[i]? = some x) (f : α → α) : xs.modify i f = xs.set i (f x) := by
  refine List.ext_getElem? fun j => ?_
  rw [List.getElem?_modify, List.getElem?_set]
  obtain ⟨hlt, hx⟩ := List.getElem?_eq_some_iff.mp hi
  by_cases hij : i = j
  · subst hij
    simp [hlt, hx]
  · simp [hij]

end Slots
