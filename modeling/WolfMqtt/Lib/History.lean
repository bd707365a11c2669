import Mathlib.Data.List.Basic

/-! Positions in a list that grows at its end.

Read as a history, the last element of a kind stands for what holds now, and what follows
it has happened since. Elements added at the end change neither the first element of a
kind nor, when they are of another kind, the last. -/
namespace History

variable {α : Type} {p : α → Prop} {l m later later' : List α} {x y : α}

/-- Every element of a list fits what is before it. -/
def Each (P : List α → α → Prop) (l : List α) : Prop := ∀ pre x post, l = pre ++ x :: post → P pre x

/-- The last element of a kind, and what follows it. -/
structure Last (p : α → Prop) (l : List α) (x : α) (later : List α) : Prop where
  holds : p x
  others : ∀ y ∈ later, ¬p y
  split : ∃ before, l = before ++ x :: later

/-- The first element of a kind. -/
def First (p : α → Prop) (l : List α) (x : α) : Prop := p x ∧ ∃ before after, l = before ++ x :: after ∧ ∀ y ∈ before, ¬p y

/-! ### Each -/

theorem each_nil {P : List α → α → Prop} : Each P [] := by
  intro pre x post heq
  cases pre <;> cases heq

theorem Each.append {P : List α → α → Prop} (hl : Each P l) (hm : ∀ pre x post, m = pre ++ x :: post → P (l ++ pre) x) :
    Each P (l ++ m) := by
  intro pre x post heq
  rcases List.append_eq_append_iff.mp heq with ⟨mid, rfl, rfl⟩ | ⟨mid, rfl, hmid⟩
  · exact hm mid x post rfl
  · cases mid with
    | nil =>
      have h := hm [] x post hmid.symm
      rwa [List.append_nil, List.append_nil] at h
    | cons y mid =>
      obtain ⟨rfl, -⟩ := List.cons.inj hmid
      exact hl pre x mid rfl

theorem Each.concat {P : List α → α → Prop} (hl : Each P l) (hx : P l x) : Each P (l ++ [x]) := by
  refine hl.append fun pre y post heq => ?_
  obtain ⟨rfl, heq⟩ | ⟨z, rfl, heq⟩ := List.cons_eq_append_iff.mp heq
  · obtain ⟨rfl, -⟩ := List.cons.inj heq
    rwa [List.append_nil]
  · simp at heq

/-! ### The last of a kind -/

theorem Last.append (h : Last p l x later) (hm : ∀ y ∈ m, ¬p y) : Last p (l ++ m) x (later ++ m) := by
  obtain ⟨before, rfl⟩ := h.split
  refine ⟨h.holds, fun y hy => ?_, before, ?_⟩
  · exact (List.mem_append.mp hy).elim (h.others y) (hm y)
  · rw [List.append_assoc, List.cons_append]

/-- The last of the elements added is the last of all. -/
theorem Last.behind (h : Last p m x later) (l : List α) : Last p (l ++ m) x later := by
  obtain ⟨before, rfl⟩ := h.split
  exact ⟨h.holds, h.others, l ++ before, (List.append_assoc ..).symm⟩

theorem last_singleton (h : p x) : Last p [x] x [] := ⟨h, nofun, [], rfl⟩

theorem Last.mem (h : Last p l x later) : x ∈ l := by
  obtain ⟨before, rfl⟩ := h.split
  exact List.mem_append_right _ List.mem_cons_self

theorem Last.unique (h : Last p l x later) (h' : Last p l y later') : x = y ∧ later = later' := by
  obtain ⟨before, rfl⟩ := h.split
  obtain ⟨before', heq⟩ := h'.split
  rcases List.append_eq_append_iff.mp heq with ⟨mid, -, hmid⟩ | ⟨mid, -, hmid⟩
  · cases mid with
    | nil => exact List.cons.inj hmid
    | cons z mid =>
      obtain ⟨rfl, rfl⟩ := List.cons.inj hmid
      exact absurd h'.holds (h.others y (List.mem_append_right _ List.mem_cons_self))
  · cases mid with
    | nil =>
      obtain ⟨rfl, rfl⟩ := List.cons.inj hmid
      exact ⟨rfl, rfl⟩
    | cons z mid =>
      obtain ⟨rfl, rfl⟩ := List.cons.inj hmid
      exact absurd h.holds (h'.others x (List.mem_append_right _ List.mem_cons_self))

/-! ### The first of a kind -/

theorem First.append (h : First p l x) (m : List α) : First p (l ++ m) x := by
  obtain ⟨hx, before, after, rfl, hnone⟩ := h
  exact ⟨hx, before, after ++ m, by rw [List.append_assoc, List.cons_append], hnone⟩

theorem First.behind (h : First p m x) (hl : ∀ y ∈ l, ¬p y) : First p (l ++ m) x := by
  obtain ⟨hx, before, after, rfl, hnone⟩ := h
  refine ⟨hx, l ++ before, after, (List.append_assoc ..).symm, fun y hy => ?_⟩
  exact (List.mem_append.mp hy).elim (hl y) (hnone y)

theorem first_singleton (h : p x) : First p [x] x := ⟨h, [], [], rfl, nofun⟩

theorem First.mem (h : First p l x) : x ∈ l := by
  obtain ⟨-, before, after, rfl, -⟩ := h
  exact List.mem_append_right _ List.mem_cons_self

theorem First.unique (h : First p l x) (h' : First p l y) : x = y := by
  obtain ⟨hx, before, after, rfl, hnone⟩ := h
  obtain ⟨hy, before', after', heq, hnone'⟩ := h'
  rcases List.append_eq_append_iff.mp heq with ⟨mid, hpre, hmid⟩ | ⟨mid, hpre, hmid⟩
  · cases mid with
    | nil => exact (List.cons.inj hmid).1
    | cons z mid =>
      obtain ⟨rfl, -⟩ := List.cons.inj hmid
      exact absurd hx (hnone' x (hpre ▸ List.mem_append_right _ List.mem_cons_self))
  · cases mid with
    | nil => exact (List.cons.inj hmid).1.symm
    | cons z mid =>
      obtain ⟨rfl, -⟩ := List.cons.inj hmid
      exact absurd hy (hnone y (hpre ▸ List.mem_append_right _ List.mem_cons_self))

end History
