import Mathlib.Data.List.Forall2

/-! A fixed array and how many of its cells are in use.

The cells in use stand at the front, in order. Taking one out moves the ones behind it
down by one, a cell at a time, and clears the cell that comes free. `live` is the list
the array stands for; every operation is a plain list operation on it. -/
namespace Row

/-- An array `cells` with `count` cells in use. -/
structure Cells (α : Type) where
  cells : List α
  count : Int
deriving Repr, DecidableEq

variable {α : Type}

/-- The cells in use. -/
def Cells.live (r : Cells α) : List α := r.cells.take r.count.toNat

/-- The count is one the array can have. -/
structure Cells.Ok (r : Cells α) : Prop where
  nonneg : 0 ≤ r.count
  fits : r.count ≤ r.cells.length

/-- Move the `n` cells behind `i` down by one. -/
def shiftDown (cells : List α) (i : Nat) : Nat → List α
  | 0 => cells
  | n + 1 =>
    match cells[i + 1]? with
    | none => cells
    | some x => shiftDown (cells.set i x) (i + 1) n

/-- Take out cell `i`: nothing happens when it is not in use. -/
def Cells.removeAt (blank : α) (i : Nat) (r : Cells α) : Cells α :=
  if (i : Int) ≥ r.count then r
  else
    { cells := (shiftDown r.cells i (r.count.toNat - 1 - i)).set (r.count.toNat - 1) blank
      count := r.count - 1 }

/-- Put a value into the first free cell. -/
def Cells.push (x : α) (r : Cells α) : Cells α :=
  { cells := r.cells.set r.count.toNat x
    count := r.count + 1 }

/-- Write to cell `i`. -/
def Cells.modify (i : Nat) (f : α → α) (r : Cells α) : Cells α :=
  {r with cells := r.cells.modify i f}

/-- Write to every cell in use. -/
def Cells.map (f : α → α) (r : Cells α) : Cells α :=
  {r with cells := r.live.map f ++ r.cells.drop r.count.toNat}

/-! ### Size -/

@[simp]
theorem length_shiftDown (cells : List α) (i n : Nat) : (shiftDown cells i n).length = cells.length := by
  induction n generalizing cells i with
  | zero => rfl
  | succ n ih =>
    unfold shiftDown
    split
    · rfl
    · rw [ih, List.length_set]

theorem Cells.Ok.length_live {r : Cells α} (h : r.Ok) : (r.live.length : Int) = r.count := by
  have := h.fits
  have := h.nonneg
  rw [live, List.length_take]
  omega

@[simp]
theorem Cells.length_cells_removeAt (blank : α) (i : Nat) (r : Cells α) :
    (r.removeAt blank i).cells.length = r.cells.length := by
  unfold removeAt
  split
  · rfl
  · simp

@[simp]
theorem Cells.length_cells_push (x : α) (r : Cells α) : (r.push x).cells.length = r.cells.length :=
  List.length_set

@[simp]
theorem Cells.length_cells_modify (i : Nat) (f : α → α) (r : Cells α) : (r.modify i f).cells.length = r.cells.length :=
  List.length_modify ..

@[simp]
theorem Cells.length_cells_map (f : α → α) (r : Cells α) : (r.map f).cells.length = r.cells.length := by
  show (r.live.map f ++ r.cells.drop r.count.toNat).length = _
  rw [List.length_append, List.length_map, live, List.length_take, List.length_drop]
  omega

theorem Cells.Ok.removeAt {r : Cells α} (h : r.Ok) (blank : α) (i : Nat) : (r.removeAt blank i).Ok := by
  have := h.fits
  have := h.nonneg
  unfold Cells.removeAt
  split
  · exact h
  · refine ⟨?_, ?_⟩
    · show 0 ≤ r.count - 1
      omega
    · show r.count - 1 ≤ (((shiftDown r.cells i _).set _ blank).length : Int)
      rw [List.length_set, length_shiftDown]
      omega

theorem Cells.Ok.push {r : Cells α} (h : r.Ok) (hroom : r.count < r.cells.length) (x : α) : (r.push x).Ok := by
  have := h.nonneg
  refine ⟨?_, ?_⟩
  · show 0 ≤ r.count + 1
    omega
  · show r.count + 1 ≤ ((r.cells.set r.count.toNat x).length : Int)
    rw [List.length_set]
    omega

theorem Cells.Ok.modify {r : Cells α} (h : r.Ok) (i : Nat) (f : α → α) : (r.modify i f).Ok :=
  ⟨h.nonneg, by rw [length_cells_modify]; exact h.fits⟩

theorem Cells.Ok.map {r : Cells α} (h : r.Ok) (f : α → α) : (r.map f).Ok :=
  ⟨h.nonneg, by rw [length_cells_map]; exact h.fits⟩

/-! ### The list -/

/-- Moving the cells behind `i` down takes cell `i` out of the front. -/
theorem take_shiftDown (cells : List α) (i n : Nat) (hfits : i + n < cells.length) :
    (shiftDown cells i n).take (i + n) = (cells.take (i + n + 1)).eraseIdx i := by
  induction n generalizing cells i with
  | zero =>
    show cells.take (i + 0) = _
    rw [List.eraseIdx_eq_take_drop_succ, List.take_take, List.drop_take]
    simp
  | succ n ih =>
    have hi : i + 1 < cells.length := by omega
    rw [shiftDown, List.getElem?_eq_getElem hi]
    show (shiftDown (cells.set i cells[i + 1]) (i + 1) n).take (i + (n + 1)) = _
    have hstep := ih (cells.set i cells[i + 1]) (i + 1) (by rw [List.length_set]; omega)
    rw [show i + (n + 1) = i + 1 + n from by omega, hstep]
    apply List.ext_getElem?
    intro k
    rw [List.getElem?_eraseIdx, List.getElem?_eraseIdx]
    simp only [List.getElem?_take, List.getElem?_set]
    by_cases hk : k < i
    · rw [if_pos (by omega), if_pos hk]
      simp only [show ¬ i = k from by omega, if_false]
    · rw [if_neg hk]
      by_cases hki : k = i
      · subst hki
        simp [show k < k + 1 + n + 1 from by omega, show k + 1 < k + 1 + n + 1 from by omega, hi,
          show k < cells.length from by omega]
      · rw [if_neg (by omega)]
        simp only [show ¬ i = k + 1 from by omega, if_false]

theorem Cells.Ok.live_removeAt {r : Cells α} (h : r.Ok) (blank : α) (i : Nat) :
    (r.removeAt blank i).live = r.live.eraseIdx i := by
  have hfits := h.fits
  have hnonneg := h.nonneg
  have hlen := h.length_live
  unfold Cells.removeAt
  split
  · rename_i hi
    rw [List.eraseIdx_of_length_le (by omega)]
  · rename_i hi
    show ((shiftDown r.cells i (r.count.toNat - 1 - i)).set (r.count.toNat - 1) blank).take (r.count - 1).toNat = _
    rw [show (r.count - 1).toNat = r.count.toNat - 1 from by omega, List.take_set_of_le (Nat.le_refl _)]
    have htake := take_shiftDown r.cells i (r.count.toNat - 1 - i) (by omega)
    rw [show i + (r.count.toNat - 1 - i) = r.count.toNat - 1 from by omega] at htake
    rw [htake, show r.count.toNat - 1 + 1 = r.count.toNat from by omega]
    rfl

theorem Cells.Ok.live_push {r : Cells α} (h : r.Ok) (hroom : r.count < r.cells.length) (x : α) :
    (r.push x).live = r.live ++ [x] := by
  have hnonneg := h.nonneg
  show (r.cells.set r.count.toNat x).take (r.count + 1).toNat = r.cells.take r.count.toNat ++ [x]
  rw [show (r.count + 1).toNat = r.count.toNat + 1 from by omega, List.take_add_one,
    List.take_set_of_le (Nat.le_refl _), List.getElem?_set_self (by omega)]
  rfl

theorem Cells.live_modify (i : Nat) (f : α → α) (r : Cells α) : (r.modify i f).live = r.live.modify i f :=
  List.take_modify ..

theorem Cells.Ok.live_map {r : Cells α} (h : r.Ok) (f : α → α) : (r.map f).live = r.live.map f := by
  have hlen := h.length_live
  show (r.live.map f ++ r.cells.drop r.count.toNat).take r.count.toNat = _
  rw [List.take_append_of_le_length (by rw [List.length_map]; omega), List.take_of_length_le (by rw [List.length_map]; omega)]

/-- Moving cells down writes nothing new. -/
theorem mem_take_shiftDown {cells : List α} {i n m : Nat} {x : α} (h : x ∈ (shiftDown cells i n).take m) : x ∈ cells.take (m + 1) := by
  have hcell : ∀ j, (shiftDown cells i n)[j]? = some x → ∃ k ≤ j + 1, cells[k]? = some x ∧ (j < i → k = j) := by
    clear h
    induction n generalizing cells i with
    | zero => exact fun j hj => ⟨j, Nat.le_succ j, hj, fun _ => rfl⟩
    | succ n ih =>
      intro j hj
      rw [shiftDown] at hj
      split at hj
      · exact ⟨j, Nat.le_succ j, hj, fun _ => rfl⟩
      next y hy =>
      obtain ⟨k, hk, hx, hfix⟩ := ih j hj
      rw [List.getElem?_set] at hx
      split at hx
      · next hik =>
        split at hx
        · cases hx
          refine ⟨i + 1, ?_, hy, fun hji => ?_⟩
          · have := fun hji : j < i + 1 => hfix hji
            omega
          · have := hfix (by omega)
            omega
        · cases hx
      · exact ⟨k, hk, hx, fun hji => hfix (by omega)⟩
  obtain ⟨j, hj⟩ := List.mem_iff_getElem?.mp h
  rw [List.getElem?_take] at hj
  split at hj
  · next hjm =>
    obtain ⟨k, hk, hx, -⟩ := hcell j hj
    exact List.mem_iff_getElem?.mpr ⟨k, by rw [List.getElem?_take, if_pos (by omega), hx]⟩
  · cases hj

theorem Cells.mem_of_mem_removeAt {r : Cells α} {blank x : α} {i : Nat} (h : x ∈ (r.removeAt blank i).live) : x ∈ r.live := by
  unfold Cells.removeAt at h
  split at h
  · exact h
  · next hi =>
    unfold Cells.live at h ⊢
    dsimp only at h
    rw [show (r.count - 1).toNat = r.count.toNat - 1 from by omega, List.take_set_of_le (Nat.le_refl _)] at h
    have hmem := mem_take_shiftDown h
    rwa [show r.count.toNat - 1 + 1 = r.count.toNat from by omega] at hmem

theorem Cells.mem_of_mem_push {r : Cells α} {x y : α} (h : y ∈ (r.push x).live) : y ∈ r.live ∨ y = x := by
  unfold Cells.push Cells.live at h
  unfold Cells.live
  dsimp only at h
  obtain ⟨j, hj⟩ := List.mem_iff_getElem?.mp h
  rw [List.getElem?_take] at hj
  split at hj
  · next hlt =>
    rw [List.getElem?_set] at hj
    split at hj
    · split at hj
      · exact .inr (Option.some.inj hj).symm
      · cases hj
    · exact .inl (List.mem_iff_getElem?.mpr ⟨j, by rw [List.getElem?_take, if_pos (by omega), hj]⟩)
  · cases hj

theorem Cells.mem_of_mem_map {r : Cells α} {f : α → α} {y : α} (h : y ∈ (r.map f).live) : y ∈ r.live.map f := by
  unfold Cells.map Cells.live at h
  unfold Cells.live
  dsimp only at h
  by_cases hfits : r.count.toNat ≤ r.cells.length
  · have htake : ((r.cells.take r.count.toNat).map f).length ≤ r.count.toNat := by
      rw [List.length_map]
      exact List.length_take_le _ _
    rwa [List.take_append_of_le_length (by simp [hfits]), List.take_of_length_le htake] at h
  · rw [List.drop_of_length_le (by omega), List.append_nil] at h
    exact List.mem_of_mem_take h

/-- A list around one of its elements. -/
theorem split_at {l : List α} {i : Nat} {x : α} (h : l[i]? = some x) :
    ∃ pre post, l = pre ++ x :: post ∧ l.eraseIdx i = pre ++ post ∧ ∀ f, l.modify i f = pre ++ f x :: post := by
  obtain ⟨hi, rfl⟩ := List.getElem?_eq_some_iff.mp h
  refine ⟨l.take i, l.drop (i + 1), ?_, List.eraseIdx_eq_take_drop_succ .., fun f => ?_⟩
  · rw [List.getElem_cons_drop, List.take_append_drop]
  · rw [List.modify_eq_take_cons_drop hi]

/-- The first element that satisfies a predicate. -/
theorem split_findIdx? {l : List α} {p : α → Bool} {i : Nat} (h : l.findIdx? p = some i) :
    ∃ x, l[i]? = some x ∧ p x = true := by
  obtain ⟨hi, hp, -⟩ := List.findIdx?_eq_some_iff_getElem.mp h
  exact ⟨_, List.getElem?_eq_getElem hi, hp⟩

/-- Two lists alike but for one element. -/
theorem forall₂_modify {R : α → α → Prop} (hrefl : ∀ x, R x x) {l : List α} {i : Nat} {f : α → α}
    (h : ∀ x, l[i]? = some x → R x (f x)) : List.Forall₂ R l (l.modify i f) := by
  induction l generalizing i with
  | nil => simp
  | cons x rest ih =>
    cases i with
    | zero =>
      rw [List.modify_zero_cons]
      exact .cons (h x rfl) (List.forall₂_same.mpr fun y _ => hrefl y)
    | succ i =>
      rw [List.modify_succ_cons]
      exact .cons (hrefl x) (ih h)

end Row
