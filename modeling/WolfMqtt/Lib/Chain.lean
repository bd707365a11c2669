import Mathlib.Data.List.Nodup
import Mathlib.Data.List.Forall2

/-! Linked lists of nodes that live at addresses.

A pointer to a node is its address. Following one is a search from the head, and a write
or an unlinking through one reaches the first node there. -/

/-- A node that lives at an address. -/
class Node (α : Type) where
  addr : α → Nat

namespace Chain
variable {α β : Type} [Node α] [Node β]

/-- The node at an address. -/
def at? (xs : List α) (a : Nat) : Option α := xs.find? (fun x => Node.addr x = a)

/-- Write to the node at an address. -/
def writeAt (a : Nat) (f : α → α) : List α → List α
  | [] => []
  | x :: xs => if Node.addr x = a then f x :: xs else x :: writeAt a f xs

/-- Unlink the node at an address. -/
def removeAt (a : Nat) (xs : List α) : List α := xs.eraseP (fun x => Node.addr x = a)

/-! ### Looking up -/

theorem at?_addr {xs : List α} {a : Nat} {x : α} (h : at? xs a = some x) : Node.addr x = a := by
  simpa using List.find?_some h

theorem at?_mem {xs : List α} {a : Nat} {x : α} (h : at? xs a = some x) : x ∈ xs :=
  List.mem_of_find?_eq_some h

theorem at?_cons_self (x : α) (xs : List α) : at? (x :: xs) (Node.addr x) = some x := by
  simp [at?]

theorem at?_cons_ne {x : α} {a : Nat} (h : Node.addr x ≠ a) (xs : List α) : at? (x :: xs) a = at? xs a := by
  simp [at?, h]

theorem at?_isSome {xs : List α} {a : Nat} (h : a ∈ xs.map Node.addr) : ∃ x, at? xs a = some x := by
  induction xs with
  | nil => cases h
  | cons x xs ih =>
    by_cases hx : Node.addr x = a
    · exact ⟨x, hx ▸ at?_cons_self x xs⟩
    · rw [at?_cons_ne hx]
      refine ih ?_
      simpa [Ne.symm hx] using h

/-- Where no two nodes share an address, each is found at its own. -/
theorem at?_of_mem {xs : List α} (hnodup : (xs.map Node.addr).Nodup) {x : α} (h : x ∈ xs) :
    at? xs (Node.addr x) = some x := by
  obtain ⟨y, hy⟩ := at?_isSome (List.mem_map_of_mem (f := Node.addr) h)
  rw [hy, List.inj_on_of_nodup_map hnodup (at?_mem hy) h (at?_addr hy)]

theorem at?_map (g : α → β) (hg : ∀ x, Node.addr (g x) = Node.addr x) (xs : List α) (a : Nat) :
    at? (xs.map g) a = (at? xs a).map g := by
  simp only [at?, List.find?_map]
  congr 2
  funext x
  simp [hg]

/-! ### Writing -/

section writing
variable {a b : Nat} {f g : α → α} {xs : List α}

theorem writeAt_cons_self (x : α) (xs : List α) (f : α → α) : writeAt (Node.addr x) f (x :: xs) = f x :: xs := by
  simp [writeAt]

theorem writeAt_cons_ne {x : α} (h : Node.addr x ≠ a) (xs : List α) (f : α → α) :
    writeAt a f (x :: xs) = x :: writeAt a f xs := by
  simp [writeAt, h]

theorem writeAt_none (h : at? xs a = none) (f : α → α) : writeAt a f xs = xs := by
  induction xs with
  | nil => rfl
  | cons x xs ih =>
    by_cases hx : Node.addr x = a
    · rw [← hx, at?_cons_self] at h
      cases h
    · rw [at?_cons_ne hx] at h
      rw [writeAt_cons_ne hx, ih h]

/-- Only the node found there matters to a write. -/
theorem writeAt_congr {x : α} (h : at? xs a = some x) (hfg : f x = g x) : writeAt a f xs = writeAt a g xs := by
  induction xs with
  | nil => rfl
  | cons y ys ih =>
    by_cases hy : Node.addr y = a
    · rw [← hy, at?_cons_self] at h
      cases h
      rw [← hy, writeAt_cons_self, writeAt_cons_self, hfg]
    · rw [at?_cons_ne hy] at h
      rw [writeAt_cons_ne hy, writeAt_cons_ne hy, ih h]

theorem writeAt_eq_self {x : α} (h : at? xs a = some x) (hf : f x = x) : writeAt a f xs = xs := by
  induction xs with
  | nil => rfl
  | cons y ys ih =>
    by_cases hy : Node.addr y = a
    · rw [← hy, at?_cons_self] at h
      cases h
      rw [← hy, writeAt_cons_self, hf]
    · rw [at?_cons_ne hy] at h
      rw [writeAt_cons_ne hy, ih h]

theorem at?_writeAt_self {x : α} (h : at? xs a = some x) (hf : Node.addr (f x) = a) :
    at? (writeAt a f xs) a = some (f x) := by
  induction xs with
  | nil => cases h
  | cons y ys ih =>
    by_cases hy : Node.addr y = a
    · rw [← hy, at?_cons_self] at h
      cases h
      rw [← hy, writeAt_cons_self, hy, ← hf, at?_cons_self]
    · rw [at?_cons_ne hy] at h
      rw [writeAt_cons_ne hy, at?_cons_ne hy, ih h]

theorem at?_writeAt_ne (hf : ∀ x, Node.addr x = a → Node.addr (f x) = a) (hb : b ≠ a) :
    at? (writeAt a f xs) b = at? xs b := by
  induction xs with
  | nil => rfl
  | cons y ys ih =>
    by_cases hy : Node.addr y = a
    · have hfy : Node.addr (f y) ≠ b := by rw [hf y hy]; exact Ne.symm hb
      rw [← hy, writeAt_cons_self, at?_cons_ne hfy, at?_cons_ne (by rw [hy]; exact Ne.symm hb)]
    · rw [writeAt_cons_ne hy]
      by_cases hyb : Node.addr y = b
      · rw [← hyb, at?_cons_self, at?_cons_self]
      · rw [at?_cons_ne hyb, at?_cons_ne hyb, ih]

/-- The same, when only the node that is written to is known. -/
theorem at?_writeAt_ne_of (hf : ∀ x, at? xs a = some x → Node.addr (f x) = a) (hb : b ≠ a) :
    at? (writeAt a f xs) b = at? xs b := by
  cases h : at? xs a with
  | none => rw [writeAt_none h]
  | some x =>
    rw [writeAt_congr (g := fun _ => f x) h rfl]
    exact at?_writeAt_ne (fun _ _ => hf x h) hb

theorem writeAt_writeAt (hf : ∀ x, Node.addr x = a → Node.addr (f x) = a) :
    writeAt a g (writeAt a f xs) = writeAt a (g ∘ f) xs := by
  induction xs with
  | nil => rfl
  | cons y ys ih =>
    by_cases hy : Node.addr y = a
    · have hfy : Node.addr (f y) = Node.addr y := (hf y hy).trans hy.symm
      rw [← hy, writeAt_cons_self, ← hfy, writeAt_cons_self, hfy, writeAt_cons_self]
      rfl
    · rw [writeAt_cons_ne hy, writeAt_cons_ne hy, writeAt_cons_ne hy, ih]

/-- A write, seen through a function of the nodes. -/
theorem map_writeAt {γ : Type} (p : α → γ) (h : ∀ x, at? xs a = some x → p (f x) = p x) :
    (writeAt a f xs).map p = xs.map p := by
  induction xs with
  | nil => rfl
  | cons y ys ih =>
    by_cases hy : Node.addr y = a
    · rw [← hy, writeAt_cons_self, List.map_cons, List.map_cons, h y (by rw [← hy, at?_cons_self])]
    · rw [writeAt_cons_ne hy, List.map_cons, List.map_cons, ih fun x hx => h x (by rw [at?_cons_ne hy, hx])]

theorem map_writeAt_comm (p : α → β) (hp : ∀ x, Node.addr (p x) = Node.addr x) (f' : β → β)
    (h : ∀ x, Node.addr x = a → p (f x) = f' (p x)) : (writeAt a f xs).map p = writeAt a f' (xs.map p) := by
  induction xs with
  | nil => rfl
  | cons y ys ih =>
    by_cases hy : Node.addr y = a
    · have hpy : Node.addr (p y) = a := (hp y).trans hy
      rw [← hy, writeAt_cons_self, List.map_cons, List.map_cons, h y hy, hy, ← hpy, writeAt_cons_self]
    · rw [writeAt_cons_ne hy, List.map_cons, List.map_cons, writeAt_cons_ne (by rw [hp]; exact hy), ih]

theorem mem_writeAt {y : α} (h : y ∈ writeAt a f xs) : y ∈ xs ∨ ∃ x, at? xs a = some x ∧ y = f x := by
  induction xs with
  | nil => cases h
  | cons z zs ih =>
    by_cases hz : Node.addr z = a
    · rw [← hz, writeAt_cons_self] at h
      rcases List.mem_cons.mp h with rfl | h
      · exact .inr ⟨z, by rw [← hz, at?_cons_self], rfl⟩
      · exact .inl (List.mem_cons_of_mem _ h)
    · rw [writeAt_cons_ne hz] at h
      rcases List.mem_cons.mp h with rfl | h
      · exact .inl List.mem_cons_self
      · rcases ih h with h | ⟨x, hx, rfl⟩
        · exact .inl (List.mem_cons_of_mem _ h)
        · exact .inr ⟨x, by rw [at?_cons_ne hz, hx], rfl⟩

/-- Where no two nodes share an address, the nodes a write does not reach lie elsewhere. -/
theorem mem_writeAt_nodup (hnodup : (xs.map Node.addr).Nodup) {y : α} (h : y ∈ writeAt a f xs) :
    (y ∈ xs ∧ Node.addr y ≠ a) ∨ ∃ x, at? xs a = some x ∧ y = f x := by
  induction xs with
  | nil => cases h
  | cons z zs ih =>
    obtain ⟨hout, hnodup⟩ := List.nodup_cons.mp hnodup
    by_cases hz : Node.addr z = a
    · rw [← hz, writeAt_cons_self] at h
      rcases List.mem_cons.mp h with rfl | h
      · exact .inr ⟨z, by rw [← hz, at?_cons_self], rfl⟩
      · refine .inl ⟨List.mem_cons_of_mem _ h, fun hy => hout ?_⟩
        exact List.mem_map.mpr ⟨y, h, hy.trans hz.symm⟩
    · rw [writeAt_cons_ne hz] at h
      rcases List.mem_cons.mp h with rfl | h
      · exact .inl ⟨List.mem_cons_self, hz⟩
      · rcases ih hnodup h with ⟨h, hne⟩ | ⟨x, hx, rfl⟩
        · exact .inl ⟨List.mem_cons_of_mem _ h, hne⟩
        · exact .inr ⟨x, by rw [at?_cons_ne hz, hx], rfl⟩

/-- A write that keeps a node's address loses no node. -/
theorem at?_writeAt_isSome (hf : ∀ x, at? xs a = some x → Node.addr (f x) = a) {x : α} (h : at? xs b = some x) :
    ∃ y, at? (writeAt a f xs) b = some y := by
  refine at?_isSome ?_
  have hmem : b ∈ xs.map Node.addr := List.mem_map.mpr ⟨x, at?_mem h, at?_addr h⟩
  have hmap : (writeAt a f xs).map Node.addr = xs.map Node.addr :=
    map_writeAt Node.addr fun x hx => (hf x hx).trans (at?_addr hx).symm
  rw [hmap]
  exact hmem

/-- A search that passes the node over does not see what is written to it. -/
theorem find?_writeAt {p : α → Bool} (hp : ∀ x, Node.addr x = a → p x = false)
    (hf : ∀ x, Node.addr x = a → Node.addr (f x) = a) : (writeAt a f xs).find? p = xs.find? p := by
  induction xs with
  | nil => rfl
  | cons y ys ih =>
    by_cases hy : Node.addr y = a
    · rw [← hy, writeAt_cons_self, List.find?_cons, List.find?_cons, hp y hy, hp (f y) (hf y hy)]
    · rw [writeAt_cons_ne hy, List.find?_cons, List.find?_cons, ih]

/-- A property of the nodes survives a write that keeps it at the node written to. -/
theorem forall_writeAt {P : α → Prop} (h : ∀ x ∈ xs, P x) (hf : ∀ x, at? xs a = some x → P (f x)) :
    ∀ y ∈ writeAt a f xs, P y := by
  intro y hy
  rcases mem_writeAt hy with hy | ⟨x, hx, rfl⟩
  · exact h y hy
  · exact hf x hx

end writing

/-! ### Lists that agree node by node -/

section agreeing
variable {R : α → α → Prop} {xs ys : List α} {a : Nat}

/-- A node is found where its counterpart is. -/
theorem forall₂_at? (hR : ∀ x y, R x y → Node.addr y = Node.addr x) (h : List.Forall₂ R xs ys) :
    (at? xs a = none ∧ at? ys a = none) ∨ ∃ x y, at? xs a = some x ∧ at? ys a = some y ∧ R x y := by
  induction h with
  | nil => exact .inl ⟨rfl, rfl⟩
  | cons hxy hrest ih =>
    rename_i x y xs ys
    by_cases hx : Node.addr x = a
    · have hy : Node.addr y = a := (hR x y hxy).trans hx
      exact .inr ⟨x, y, by rw [← hx, at?_cons_self], by rw [← hy, at?_cons_self], hxy⟩
    · have hy : Node.addr y ≠ a := fun hy => hx ((hR x y hxy).symm.trans hy)
      rw [at?_cons_ne hx, at?_cons_ne hy]
      exact ih

omit [Node α] in
theorem forall₂_trans (hR : ∀ x y z, R x y → R y z → R x z) {zs : List α} (h : List.Forall₂ R xs ys)
    (h' : List.Forall₂ R ys zs) : List.Forall₂ R xs zs := by
  induction h generalizing zs with
  | nil => exact h'
  | cons hxy _ ih =>
    cases h' with
    | cons hyz hrest => exact .cons (hR _ _ _ hxy hyz) (ih hrest)

omit [Node α] in
/-- Each node has a counterpart. -/
theorem exists_of_mem_right (h : List.Forall₂ R xs ys) {y : α} (hy : y ∈ ys) : ∃ x ∈ xs, R x y := by
  induction h with
  | nil => cases hy
  | cons hxy _ ih =>
    rcases List.mem_cons.mp hy with rfl | hy
    · exact ⟨_, List.mem_cons_self, hxy⟩
    · obtain ⟨x, hx, hR⟩ := ih hy
      exact ⟨x, List.mem_cons_of_mem _ hx, hR⟩

omit [Node α] in
theorem forall₂_imp_mem {S : α → α → Prop} (h : List.Forall₂ R xs ys) (hRS : ∀ x y, x ∈ xs → R x y → S x y) :
    List.Forall₂ S xs ys := by
  induction h with
  | nil => exact .nil
  | cons hxy _ ih =>
    exact .cons (hRS _ _ List.mem_cons_self hxy) (ih fun x y hx => hRS x y (List.mem_cons_of_mem _ hx))

/-- A write relates the list to what it was. -/
theorem forall₂_writeAt (hrefl : ∀ x, R x x) {f : α → α} (hf : ∀ x, at? xs a = some x → R x (f x)) :
    List.Forall₂ R xs (writeAt a f xs) := by
  induction xs with
  | nil => exact .nil
  | cons x xs ih =>
    by_cases hx : Node.addr x = a
    · subst hx
      rw [writeAt_cons_self]
      exact .cons (hf x (at?_cons_self x xs)) (List.forall₂_same.mpr fun y _ => hrefl y)
    · rw [writeAt_cons_ne hx]
      exact .cons (hrefl x) (ih fun y hy => hf y (by rw [at?_cons_ne hx, hy]))

end agreeing

/-! ### Unlinking -/

theorem mem_of_mem_removeAt {xs : List α} {a : Nat} {x : α} (h : x ∈ removeAt a xs) : x ∈ xs :=
  List.mem_of_mem_eraseP h

theorem mem_removeAt {xs : List α} (hnodup : (xs.map Node.addr).Nodup) {a : Nat} {x : α} :
    x ∈ removeAt a xs ↔ x ∈ xs ∧ Node.addr x ≠ a := by
  simp only [removeAt]
  induction xs with
  | nil => simp
  | cons y ys ih =>
    have hy := List.nodup_cons.mp hnodup
    by_cases hya : Node.addr y = a
    · have hout : ∀ z ∈ ys, Node.addr z ≠ a := fun z hz heq =>
        hy.1 (List.mem_map.mpr ⟨z, hz, heq.trans hya.symm⟩)
      rw [List.eraseP_cons_of_pos (by simp [hya]), List.mem_cons]
      constructor
      · exact fun hx => ⟨.inr hx, hout x hx⟩
      · rintro ⟨rfl | hx, hne⟩
        · exact absurd hya hne
        · exact hx
    · rw [List.eraseP_cons_of_neg (by simp [hya]), List.mem_cons, List.mem_cons, ih hy.2]
      constructor
      · rintro (rfl | hx)
        · exact ⟨.inl rfl, hya⟩
        · exact ⟨.inr hx.1, hx.2⟩
      · rintro ⟨rfl | hx, hne⟩
        · exact .inl rfl
        · exact .inr ⟨hx, hne⟩

theorem map_addr_removeAt (xs : List α) (a : Nat) :
    (removeAt a xs).map Node.addr = (xs.map Node.addr).erase a := by
  simp only [removeAt]
  induction xs with
  | nil => rfl
  | cons x xs ih =>
    by_cases hx : Node.addr x = a
    · simp [hx]
    · simp [hx, ih]

theorem nodup_removeAt {xs : List α} (h : (xs.map Node.addr).Nodup) (a : Nat) :
    ((removeAt a xs).map Node.addr).Nodup := by
  rw [map_addr_removeAt]
  exact h.erase a

theorem at?_removeAt_ne {xs : List α} {a b : Nat} (hb : b ≠ a) : at? (removeAt a xs) b = at? xs b := by
  simp only [removeAt]
  induction xs with
  | nil => rfl
  | cons y ys ih =>
    by_cases hy : Node.addr y = a
    · rw [List.eraseP_cons_of_pos (by simp [hy]), at?_cons_ne (by rw [hy]; exact Ne.symm hb)]
    · rw [List.eraseP_cons_of_neg (by simp [hy])]
      by_cases hyb : Node.addr y = b
      · rw [← hyb, at?_cons_self, at?_cons_self]
      · rw [at?_cons_ne hyb, at?_cons_ne hyb, ih]

theorem removeAt_eq_filter {xs : List α} (hnodup : (xs.map Node.addr).Nodup) (a : Nat) :
    removeAt a xs = xs.filter (fun x => Node.addr x ≠ a) := by
  induction xs with
  | nil => rfl
  | cons x xs ih =>
    obtain ⟨hout, hnodup⟩ := List.nodup_cons.mp hnodup
    by_cases hx : Node.addr x = a
    · have hrest : xs.filter (fun y => Node.addr y ≠ a) = xs := by
        refine List.filter_eq_self.mpr ?_
        intro y hy
        refine decide_eq_true ?_
        intro hya
        exact hout (List.mem_map.mpr ⟨y, hy, hya.trans hx.symm⟩)
      rw [removeAt, List.eraseP_cons_of_pos (by simpa using hx), List.filter_cons_of_neg (by simpa using hx), hrest]
    · rw [removeAt, List.eraseP_cons_of_neg (by simpa using hx), List.filter_cons_of_pos (by simpa using hx), ← ih hnodup]
      rfl

theorem removeAt_none {xs : List α} {a : Nat} (h : at? xs a = none) : removeAt a xs = xs := by
  refine List.eraseP_of_forall_not (fun x hx => ?_)
  exact List.find?_eq_none.mp h x hx

/-- What was written to a node is gone with it. -/
theorem removeAt_writeAt {xs : List α} {a : Nat} {f : α → α} (hf : ∀ x, at? xs a = some x → Node.addr (f x) = a) :
    removeAt a (writeAt a f xs) = removeAt a xs := by
  simp only [removeAt]
  induction xs with
  | nil => rfl
  | cons x xs ih =>
    by_cases hx : Node.addr x = a
    · subst hx
      have hfx : Node.addr (f x) = Node.addr x := hf x (at?_cons_self x xs)
      rw [writeAt_cons_self, List.eraseP_cons_of_pos (by simp [hfx]), List.eraseP_cons_of_pos (by simp)]
    · rw [writeAt_cons_ne hx, List.eraseP_cons_of_neg (by simp [hx]), List.eraseP_cons_of_neg (by simp [hx]),
        ih fun y hy => hf y (by rw [at?_cons_ne hx, hy])]

/-- A node is unlinked whatever is written to another. -/
theorem removeAt_writeAt_ne {xs : List α} {a b : Nat} {f : α → α} (hf : ∀ x, Node.addr x = a → Node.addr (f x) = a) (hb : b ≠ a) :
    removeAt b (writeAt a f xs) = writeAt a f (removeAt b xs) := by
  simp only [removeAt]
  induction xs with
  | nil => rfl
  | cons x xs ih =>
    by_cases ha : Node.addr x = a
    · have hx : Node.addr x ≠ b := fun h => hb (h.symm.trans ha)
      have hfx : Node.addr (f x) ≠ b := fun h => hb (h.symm.trans (hf x ha))
      subst ha
      rw [writeAt_cons_self, List.eraseP_cons_of_neg (by simpa using hfx), List.eraseP_cons_of_neg (by simpa using hx),
        writeAt_cons_self]
    · by_cases hx : Node.addr x = b
      · rw [writeAt_cons_ne ha, List.eraseP_cons_of_pos (by simpa using hx), List.eraseP_cons_of_pos (by simpa using hx)]
      · rw [writeAt_cons_ne ha, List.eraseP_cons_of_neg (by simpa using hx), List.eraseP_cons_of_neg (by simpa using hx),
          writeAt_cons_ne ha, ih]

theorem map_removeAt (p : α → β) (hp : ∀ x, Node.addr (p x) = Node.addr x) (a : Nat) (xs : List α) :
    (removeAt a xs).map p = removeAt a (xs.map p) := by
  simp only [removeAt]
  induction xs with
  | nil => rfl
  | cons x xs ih =>
    by_cases hx : Node.addr x = a
    · simp [hx, hp]
    · simp [hx, hp, ih]

/-! ### Walking -/

section walking
variable {a : Nat} {rest : List Nat} {f : α → α} {xs pre post : List α} {e : α}

theorem at?_append_left (h : at? pre a = some e) : at? (pre ++ post) a = some e := by
  rw [at?, List.find?_append, show pre.find? _ = some e from h]
  rfl

theorem at?_append_right (h : at? pre a = none) : at? (pre ++ post) a = at? post a := by
  rw [at?, List.find?_append, show pre.find? _ = none from h]
  rfl

theorem writeAt_append_left (h : at? pre a = some e) (f : α → α) : writeAt a f (pre ++ post) = writeAt a f pre ++ post := by
  induction pre with
  | nil => cases h
  | cons x pre ih =>
    by_cases hx : Node.addr x = a
    · subst hx
      rw [List.cons_append, writeAt_cons_self, writeAt_cons_self, List.cons_append]
    · rw [at?_cons_ne hx] at h
      rw [List.cons_append, writeAt_cons_ne hx, writeAt_cons_ne hx, ih h, List.cons_append]

theorem writeAt_append_right (h : at? pre a = none) (f : α → α) : writeAt a f (pre ++ post) = pre ++ writeAt a f post := by
  induction pre with
  | nil => rfl
  | cons x pre ih =>
    have hx : Node.addr x ≠ a := by
      rintro rfl
      rw [at?_cons_self] at h
      cases h
    rw [at?_cons_ne hx] at h
    rw [List.cons_append, writeAt_cons_ne hx, ih h, List.cons_append]

theorem addr_ne_of_at?_none (h : at? pre a = none) : ∀ x ∈ pre, Node.addr x ≠ a := by
  intro x hx heq
  simpa [heq] using List.find?_eq_none.mp h x hx

/-- A walk with these addresses still before it: what a look finds behind it is `ok`. -/
def Passed (ok : α → Prop) (addrs : List Nat) (xs : List α) : Prop :=
  ∃ pre post, xs = pre ++ post ∧ post.map Node.addr = addrs ∧ ∀ a z, at? pre a = some z → ok z

variable {ok : α → Prop}

theorem passed_start (xs : List α) : Passed ok (xs.map Node.addr) xs :=
  ⟨[], xs, rfl, rfl, nofun⟩

/-- The node whose turn it is stands first of what is left, unless one behind hides it. -/
theorem Passed.split (h : Passed ok (a :: rest) xs) (he : at? xs a = some e) :
    ∃ pre x post, xs = pre ++ x :: post ∧ post.map Node.addr = rest ∧ Node.addr x = a ∧ (∀ b z, at? pre b = some z → ok z) ∧
      (at? pre a = some e ∨ (at? pre a = none ∧ x = e)) := by
  obtain ⟨pre, post, rfl, haddrs, hok⟩ := h
  cases post with
  | nil => cases haddrs
  | cons x post =>
    obtain ⟨hx, hpost⟩ := List.cons.inj haddrs
    refine ⟨pre, x, post, rfl, hpost, hx, hok, ?_⟩
    cases hpre : at? pre a with
    | some z =>
      rw [at?_append_left hpre] at he
      exact .inl he
    | none =>
      rw [at?_append_right hpre, ← hx, at?_cons_self] at he
      exact .inr ⟨rfl, Option.some.inj he⟩

theorem Passed.found (h : Passed ok (a :: rest) xs) : ∃ e, at? xs a = some e := by
  obtain ⟨pre, post, rfl, haddrs, -⟩ := h
  refine at?_isSome ?_
  rw [List.map_append, haddrs]
  exact List.mem_append_right _ List.mem_cons_self

/-- Before a node that is not `ok` there are only such that are. -/
theorem Passed.behind (h : Passed ok (a :: rest) xs) (he : at? xs a = some e) (hne : ¬ok e) (hnodup : (xs.map Node.addr).Nodup) :
    ∀ x ∈ xs.takeWhile (fun x => decide (Node.addr x ≠ a)), ok x := by
  obtain ⟨pre, x, post, rfl, -, hx, hok, hpre | ⟨hpre, rfl⟩⟩ := h.split he
  · exact absurd (hok a e hpre) hne
  · have hall : ∀ y ∈ pre, decide (Node.addr y ≠ a) = true := by simpa using addr_ne_of_at?_none hpre
    intro y hy
    rw [List.takeWhile_append_of_pos hall, List.takeWhile_cons_of_neg (by simpa using hx), List.append_nil] at hy
    rw [List.map_append] at hnodup
    exact hok _ y (at?_of_mem (List.nodup_append.mp hnodup).1 hy)

/-- A look behind, after one more node. -/
theorem ok_concat {x : α} (hok : ∀ b z, at? pre b = some z → ok z) (hx : at? pre (Node.addr x) = none → ok x) {b : Nat} {z : α}
    (hz : at? (pre ++ [x]) b = some z) : ok z := by
  cases hpre : at? pre b with
  | some y =>
    rw [at?_append_left hpre] at hz
    cases hz
    exact hok b _ hpre
  | none =>
    rw [at?_append_right hpre] at hz
    have hb : Node.addr z = b := at?_addr hz
    have hmem := at?_mem hz
    rw [List.mem_singleton] at hmem
    subst hmem
    exact hx (hb ▸ hpre)

theorem Passed.skip (h : Passed ok (a :: rest) xs) (he : at? xs a = some e) (hok : ok e) : Passed ok rest xs := by
  obtain ⟨pre, x, post, rfl, hpost, hx, hpast, hpre⟩ := h.split he
  refine ⟨pre ++ [x], post, by simp, hpost, fun b z hz => ok_concat hpast (fun hnone => ?_) hz⟩
  rcases hpre with hpre | ⟨-, rfl⟩
  · rw [hx, hpre] at hnone
    cases hnone
  · exact hok

theorem Passed.write (h : Passed ok (a :: rest) xs) (he : at? xs a = some e) (hf : Node.addr (f e) = a) (hok : ok (f e)) :
    Passed ok rest (writeAt a f xs) := by
  obtain ⟨pre, x, post, rfl, hpost, hx, hpast, hpre⟩ := h.split he
  rcases hpre with hpre | ⟨hpre, rfl⟩
  · refine ⟨writeAt a f pre ++ [x], post, ?_, hpost, fun b z hz => ok_concat (fun b z hz => ?_) (fun hnone => ?_) hz⟩
    · rw [writeAt_append_left hpre, List.append_assoc]
      rfl
    · by_cases hb : b = a
      · rw [hb, at?_writeAt_self hpre hf] at hz
        cases hz
        exact hok
      · refine hpast b z ?_
        rwa [at?_writeAt_ne_of (fun y hy => by cases hpre.symm.trans hy; exact hf) hb] at hz
    · rw [hx, at?_writeAt_self hpre hf] at hnone
      cases hnone
  · refine ⟨pre ++ [f x], post, ?_, hpost, fun b z hz => ok_concat hpast (fun _ => hok) hz⟩
    rw [writeAt_append_right hpre, ← hx, writeAt_cons_self, List.append_assoc]
    rfl

theorem Passed.remove (h : Passed ok (a :: rest) xs) (he : at? xs a = some e) (hne : ¬ok e) : Passed ok rest (removeAt a xs) := by
  obtain ⟨pre, x, post, rfl, hpost, hx, hpast, hpre | ⟨hpre, rfl⟩⟩ := h.split he
  · exact absurd (hpast a e hpre) hne
  · refine ⟨pre, post, ?_, hpost, hpast⟩
    have hall : ∀ y ∈ pre, ¬decide (Node.addr y = a) = true := by simpa using addr_ne_of_at?_none hpre
    rw [removeAt, List.eraseP_append_right _ hall, List.eraseP_cons_of_pos (by simpa using hx)]

end walking

end Chain
