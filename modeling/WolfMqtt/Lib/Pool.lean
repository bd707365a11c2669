import Mathlib.Data.List.Nodup
import Mathlib.Data.List.Perm.Subperm

/-! Lists threaded through a pool of cells.

A cell has an item and a pointer to the next one. A list is a pointer to its first cell, and which cells
it has is read off the pool (`Linked`): at most one list of cells, so none with a cycle. Walking along
takes fuel; a list never needs more than the pool has cells. -/
namespace Pool

structure Cell (α : Type) where
  item : α
  next : Option Nat := none
deriving Repr, DecidableEq

variable {α : Type} {p q : List (Cell α)} {head : Option Nat} {l l' : List Nat} {i : Nat}

/-- A pointer leads to these cells, in this order, and then to nothing. -/
def Linked (p : List (Cell α)) : Option Nat → List Nat → Prop
  | head, [] => head = none
  | head, i :: l => head = some i ∧ ∃ c, p[i]? = some c ∧ Linked p c.next l

theorem Linked.unique (h : Linked p head l) (h' : Linked p head l') : l = l' := by
  induction l generalizing head l' with
  | nil =>
    cases l' with
    | nil => rfl
    | cons j l' => cases h.symm.trans h'.1
  | cons i l ih =>
    obtain ⟨rfl, c, hc, hrest⟩ := h
    cases l' with
    | nil => cases h'
    | cons j l' =>
      obtain ⟨hj, d, hd, hrest'⟩ := h'
      cases hj
      cases hc.symm.trans hd
      rw [ih hrest hrest']

/-- The cells from one of them on. -/
theorem Linked.drop {a b : List Nat} (h : Linked p head (a ++ i :: b)) : Linked p (some i) (i :: b) := by
  induction a generalizing head with
  | nil =>
    obtain ⟨rfl, hrest⟩ := h
    exact ⟨rfl, hrest⟩
  | cons j a ih =>
    obtain ⟨-, c, -, hrest⟩ := h
    exact ih hrest

/-- A list has no cycle. -/
theorem Linked.nodup (h : Linked p head l) : l.Nodup := by
  induction l generalizing head with
  | nil => exact List.nodup_nil
  | cons i l ih =>
    obtain ⟨-, c, -, hrest⟩ := id h
    rw [List.nodup_cons]
    refine ⟨fun hmem => ?_, ih hrest⟩
    obtain ⟨a, b, rfl⟩ := List.append_of_mem hmem
    rw [h.1] at h
    have hlen := congrArg List.length (h.unique hrest.drop)
    simp at hlen
    omega

theorem Linked.lt (h : Linked p head l) : ∀ i ∈ l, i < p.length := by
  induction l generalizing head with
  | nil => simp
  | cons j l ih =>
    obtain ⟨-, c, hc, hrest⟩ := h
    intro i hi
    rcases List.mem_cons.mp hi with rfl | hi
    · exact (List.getElem?_eq_some_iff.mp hc).1
    · exact ih hrest i hi

theorem Linked.length_le (h : Linked p head l) : l.length ≤ p.length := by
  have hsub : l ⊆ List.range p.length := fun i hi => List.mem_range.mpr (h.lt i hi)
  simpa using (h.nodup.subperm hsub).length_le

/-- A list is where its cells lead. -/
theorem Linked.congr (h : Linked p head l) (hsame : ∀ i ∈ l, q[i]?.map Cell.next = p[i]?.map Cell.next) :
    Linked q head l := by
  induction l generalizing head with
  | nil => exact h
  | cons i l ih =>
    obtain ⟨rfl, c, hc, hrest⟩ := h
    have hi := hsame i List.mem_cons_self
    rw [hc, Option.map_some, Option.map_eq_some_iff] at hi
    obtain ⟨d, hd, hnext⟩ := hi
    refine ⟨rfl, d, hd, ?_⟩
    rw [hnext]
    exact ih hrest fun j hj => hsame j (List.mem_cons_of_mem i hj)

/-! ### The end of a list -/

/-- The last cell from `cur` on, `prev` standing in front of it. -/
def lastFrom (p : List (Cell α)) : Nat → Option Nat → Option Nat → Option Nat
  | _, prev, none => prev
  | 0, prev, some _ => prev
  | fuel + 1, _, some i => lastFrom p fuel (some i) (p[i]?.bind Cell.next)

theorem lastFrom_eq {fuel : Nat} {prev : Option Nat} (h : Linked p head l) (hfuel : l.length ≤ fuel) :
    lastFrom p fuel prev head = l.getLast?.or prev := by
  induction l generalizing head fuel prev with
  | nil =>
    rw [show head = none from h]
    cases fuel <;> rfl
  | cons i l ih =>
    obtain ⟨rfl, c, hc, hrest⟩ := h
    cases fuel with
    | zero => cases hfuel
    | succ fuel =>
      have hnext : p[i]?.bind Cell.next = c.next := by rw [hc, Option.bind_some]
      rw [lastFrom, hnext, ih hrest (Nat.le_of_succ_le_succ hfuel), List.getLast?_cons]
      cases l.getLast? <;> rfl

/-- Put cell `i` behind the last cell: the list's pointer and the pool then. -/
def link (i : Nat) (last head : Option Nat) (p : List (Cell α)) : Option Nat × List (Cell α) :=
  match last with
  | none => (some i, p)
  | some j => (head, p.modify j fun c => {c with next := some i})

theorem link_length {last : Option Nat} : (link i last head p).2.length = p.length := by
  cases last with
  | none => rfl
  | some j => exact List.length_modify _ _ _

/-- Only the last cell is written to, and only its pointer. -/
theorem link_getElem? {last : Option Nat} {j : Nat} (h : last ≠ some j) : (link i last head p).2[j]? = p[j]? := by
  cases last with
  | none => rfl
  | some k =>
    have hne : k ≠ j := fun hkj => h (by rw [hkj])
    exact List.getElem?_modify_ne _ _ hne

theorem link_item {last : Option Nat} (j : Nat) :
    (link i last head p).2[j]?.map Cell.item = p[j]?.map Cell.item := by
  cases last with
  | none => rfl
  | some k =>
    rw [link, List.getElem?_modify]
    cases p[j]? with
    | none => rfl
    | some c =>
      simp only [Option.map_some]
      split <;> rfl

theorem Linked.link {c : Cell α} (h : Linked p head l) (hi : p[i]? = some c) (hc : c.next = none) (hnot : i ∉ l) :
    Linked (link i l.getLast? head p).2 (link i l.getLast? head p).1 (l ++ [i]) := by
  have hone : Linked p (some i) [i] := ⟨rfl, c, hi, hc⟩
  induction l generalizing head with
  | nil => exact hone
  | cons j l ih =>
    have hnodup := h.nodup
    obtain ⟨rfl, d, hd, hrest⟩ := h
    rw [List.mem_cons, not_or] at hnot
    cases l with
    | nil =>
      have hset : (p.modify j fun c => {c with next := some i})[j]? = some {d with next := some i} := by
        rw [List.getElem?_modify_eq, hd]
        rfl
      have hother : (p.modify j fun c => {c with next := some i})[i]? = some c :=
        (List.getElem?_modify_ne _ _ (Ne.symm hnot.1)).trans hi
      exact ⟨rfl, _, hset, rfl, c, hother, hc⟩
    | cons k l =>
      have hlast : (j :: k :: l).getLast? = (k :: l).getLast? := by rw [List.getLast?_cons_cons]
      obtain ⟨m, hm⟩ : ∃ m, (k :: l).getLast? = some m := ⟨_, List.getLast?_eq_some_getLast (List.cons_ne_nil k l)⟩
      have hmem : m ∈ k :: l := List.mem_of_getLast? hm
      have hrec := ih hrest hnot.2
      rw [hlast]
      rw [hm] at hrec ⊢
      refine ⟨rfl, d, ?_, hrec⟩
      have hne : m ≠ j := by
        rintro rfl
        exact (List.nodup_cons.mp hnodup).1 hmem
      exact (List.getElem?_modify_ne _ _ hne).trans hd

/-- The items along a list. -/
def items (p : List (Cell α)) : Nat → Option Nat → List α
  | _, none => []
  | 0, some _ => []
  | fuel + 1, some i =>
    match p[i]? with
    | none => []
    | some c => c.item :: items p fuel c.next

theorem items_eq {fuel : Nat} (h : Linked p head l) (hfuel : l.length ≤ fuel) :
    (items p fuel head).map some = l.map fun i => p[i]?.map Cell.item := by
  induction l generalizing head fuel with
  | nil =>
    rw [show head = none from h]
    cases fuel <;> rfl
  | cons i l ih =>
    obtain ⟨rfl, c, hc, hrest⟩ := h
    cases fuel with
    | zero => cases hfuel
    | succ fuel =>
      have hitems : items p (fuel + 1) (some i) = c.item :: items p fuel c.next := by rw [items, hc]
      rw [hitems, List.map_cons, List.map_cons, ih hrest (Nat.le_of_succ_le_succ hfuel), hc, Option.map_some]

/-! ### Giving a list back -/

/-- Rewrite the items from a pointer on. -/
def release (f : α → α) : Nat → Option Nat → List (Cell α) → List (Cell α)
  | _, none, p => p
  | 0, some _, p => p
  | fuel + 1, some i, p => release f fuel (p[i]?.bind Cell.next) (p.modify i fun c => {c with item := f c.item})

theorem release_length (f : α → α) (fuel : Nat) (head : Option Nat) (p : List (Cell α)) :
    (release f fuel head p).length = p.length := by
  induction fuel generalizing head p with
  | zero => cases head <;> rfl
  | succ fuel ih =>
    cases head with
    | none => rfl
    | some i => rw [release, ih, List.length_modify]

/-- The cells of the list are rewritten, and no others. -/
theorem release_getElem? {f : α → α} {fuel : Nat} (h : Linked p head l) (hfuel : l.length ≤ fuel) (j : Nat) :
    (release f fuel head p)[j]? = if j ∈ l then p[j]?.map (fun c => {c with item := f c.item}) else p[j]? := by
  induction l generalizing head fuel p with
  | nil =>
    rw [show head = none from h, if_neg List.not_mem_nil]
    cases fuel <;> rfl
  | cons i l ih =>
    have hnodup := h.nodup
    obtain ⟨rfl, c, hc, hrest⟩ := h
    cases fuel with
    | zero => cases hfuel
    | succ fuel =>
      have hrest' : Linked (p.modify i fun c => {c with item := f c.item}) c.next l := by
        refine hrest.congr fun k hk => ?_
        rw [List.getElem?_modify]
        cases p[k]? with
        | none => rfl
        | some d =>
          simp only [Option.map_some]
          split <;> rfl
      have hnext : p[i]?.bind Cell.next = c.next := by rw [hc, Option.bind_some]
      rw [release, hnext, ih hrest' (Nat.le_of_succ_le_succ hfuel), List.getElem?_modify]
      by_cases hji : i = j
      · subst hji
        simp [(List.nodup_cons.mp hnodup).1]
      · have hmem : j ∈ i :: l ↔ j ∈ l := by simp [Ne.symm hji]
        simp [hmem, hji]

/-! ### Free cells -/

/-- The number of cells with a free item. -/
def freeCount (free : α → Bool) (p : List (Cell α)) : Nat := p.countP fun c => free c.item

theorem freeCount_eq_zero {free : α → Bool} :
    p.findIdx? (fun c => free c.item) = none ↔ freeCount free p = 0 := by
  rw [List.findIdx?_eq_none_iff, freeCount, List.countP_eq_zero]
  simp

/-- Taking a free cell leaves one less. -/
theorem freeCount_set {free : α → Bool} {c d : Cell α} (hi : p[i]? = some c) (hc : free c.item = true)
    (hd : free d.item = false) : freeCount free (p.set i d) + 1 = freeCount free p := by
  obtain ⟨hlt, hget⟩ := List.getElem?_eq_some_iff.mp hi
  have hpos : 0 < p.countP fun c => free c.item := by
    rw [List.countP_pos_iff]
    exact ⟨c, List.mem_of_getElem? hi, hc⟩
  rw [freeCount, List.countP_set hlt, hget, hc, hd, if_pos rfl]
  simp only [Bool.false_eq_true, if_false, freeCount]
  omega

theorem freeCount_of_free {free : α → Bool} (h : p.map (fun c => free c.item) = q.map fun c => free c.item) :
    freeCount free p = freeCount free q := by
  have hmap : ∀ r : List (Cell α), freeCount free r = (r.map fun c => free c.item).countP id := by
    intro r
    rw [List.countP_map]
    rfl
  rw [hmap, hmap, h]

theorem freeCount_congr {free : α → Bool} (h : p.map Cell.item = q.map Cell.item) :
    freeCount free p = freeCount free q := by
  have hmap := congrArg (List.map free) h
  rw [List.map_map, List.map_map] at hmap
  exact freeCount_of_free hmap

end Pool
