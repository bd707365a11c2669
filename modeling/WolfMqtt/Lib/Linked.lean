import Mathlib.Data.List.Nodup
import Mathlib.Logic.Function.Basic

/-! Doubly linked lists in a memory of nodes.

A memory gives every node its two links, whether the node is in a list or not. A `Table` holds the nodes of a list where
its ends are those of the list and every node of it points to its neighbours; nothing is said of other nodes. -/
namespace Linked

variable {ν : Type}

structure Links (ν : Type) where
  prev : Option ν := none
  next : Option ν := none

/-- The ends of a list, and the memory. -/
structure Table (ν : Type) where
  first : Option ν := none
  last : Option ν := none
  links : ν → Links ν

/-- The nodes of a list point to their neighbours, the first one to `before` and the last one to `after`. -/
def Joined (m : ν → Links ν) : Option ν → List ν → Option ν → Prop
  | _, [], _ => True
  | before, x :: l, after => (m x).prev = before ∧ (m x).next = l.head?.or after ∧ Joined m (some x) l after

structure Holds (t : Table ν) (l : List ν) : Prop where
  first : t.first = l.head?
  last : t.last = l.getLast?
  joined : Joined t.links none l none
  nodup : l.Nodup

/-! ### Joined nodes -/

section Joined
variable {m m' : ν → Links ν} {before after : Option ν} {l a b : List ν}

theorem Joined.congr (h : Joined m before l after) (hsame : ∀ x ∈ l, m' x = m x) : Joined m' before l after := by
  induction l generalizing before with
  | nil => trivial
  | cons x l ih =>
    obtain ⟨hprev, hnext, hrest⟩ := h
    rw [Joined, hsame x List.mem_cons_self]
    exact ⟨hprev, hnext, ih hrest fun y hy => hsame y (List.mem_cons_of_mem x hy)⟩

theorem joined_append :
    Joined m before (a ++ b) after ↔ Joined m before a (b.head?.or after) ∧ Joined m (a.getLast?.or before) b after := by
  induction a generalizing before with
  | nil => exact ⟨fun h => ⟨trivial, h⟩, fun h => h.2⟩
  | cons x a ih =>
    have hhead : (a ++ b).head?.or after = a.head?.or (b.head?.or after) := by
      rw [List.head?_append, Option.or_assoc]
    have hlast : (x :: a).getLast?.or before = a.getLast?.or (some x) := by
      rw [List.getLast?_cons, Option.some_or]
      cases a.getLast? <;> rfl
    rw [List.cons_append, Joined, Joined, ih, hhead, hlast, and_assoc, and_assoc]

/-- The link behind a node, and the link in front of it, by its place. -/
theorem Joined.at {i : Nat} {x : ν} (h : Joined m none l none) (hx : l[i]? = some x) :
    (m x).next = l[i + 1]? ∧ (m x).prev = if i = 0 then none else l[i - 1]? := by
  obtain ⟨hi, hget⟩ := List.getElem?_eq_some_iff.mp hx
  have hsplit : l = l.take i ++ x :: l.drop (i + 1) := by
    rw [← hget, List.getElem_cons_drop hi, List.take_append_drop]
  rw [hsplit, joined_append] at h
  obtain ⟨-, hprev, hnext, -⟩ := h
  rw [Option.or_none] at hprev hnext
  refine ⟨by rw [hnext, List.head?_drop], ?_⟩
  rw [hprev]
  split
  next hzero => rw [hzero, List.take_zero]; rfl
  next hpos => rw [List.getLast?_take, if_neg hpos, List.getElem?_eq_getElem (by omega)]; rfl

end Joined

/-! ### Writing links -/

section Write
variable [DecidableEq ν] {m : ν → Links ν} {before after v : Option ν} {l : List ν}

/-- Set the link in front of a node, where there is one. -/
def setPrev (m : ν → Links ν) (y v : Option ν) : ν → Links ν :=
  match y with
  | none => m
  | some y => Function.update m y {m y with prev := v}

/-- Set the link behind a node, where there is one. -/
def setNext (m : ν → Links ν) (y v : Option ν) : ν → Links ν :=
  match y with
  | none => m
  | some y => Function.update m y {m y with next := v}

theorem setPrev_of_ne {x : ν} {y : Option ν} (h : y ≠ some x) : setPrev m y v x = m x := by
  cases y with
  | none => rfl
  | some y => exact Function.update_of_ne (fun heq : x = y => h (congrArg some heq.symm)) _ _

theorem setNext_of_ne {x : ν} {y : Option ν} (h : y ≠ some x) : setNext m y v x = m x := by
  cases y with
  | none => rfl
  | some y => exact Function.update_of_ne (fun heq : x = y => h (congrArg some heq.symm)) _ _

/-- Nodes that are led up to from another place. -/
theorem Joined.setPrev_head (h : Joined m before l after) (hl : l.Nodup) : Joined (setPrev m l.head? v) v l after := by
  cases l with
  | nil => trivial
  | cons x l =>
    obtain ⟨-, hnext, hrest⟩ := h
    have hsame : setPrev m (some x) v x = {m x with prev := v} := Function.update_self ..
    rw [List.head?_cons, Joined, hsame]
    refine ⟨rfl, hnext, hrest.congr fun y hy => setPrev_of_ne ?_⟩
    intro heq
    exact (List.nodup_cons.mp hl).1 (Option.some.inj heq ▸ hy)

/-- Nodes that lead on to another place. -/
theorem Joined.setNext_last (h : Joined m before l after) (hl : l.Nodup) : Joined (setNext m l.getLast? v) before l v := by
  rcases List.eq_nil_or_concat l with rfl | ⟨l, z, rfl⟩
  · trivial
  rw [List.concat_eq_append] at h hl ⊢
  rw [joined_append] at h
  obtain ⟨hl', hprev, -, -⟩ := h
  have hsame : setNext m (some z) v z = {m z with next := v} := Function.update_self ..
  rw [List.getLast?_concat, joined_append, Joined, hsame]
  refine ⟨hl'.congr fun y hy => setNext_of_ne fun heq => ?_, hprev, rfl, trivial⟩
  exact (List.nodup_append.mp hl).2.2 y hy z List.mem_cons_self (Option.some.inj heq).symm

end Write

/-! ### Operations -/

namespace Table
variable [DecidableEq ν]

/-- Put a node behind the last one. -/
def append (t : Table ν) (x : ν) : Table ν :=
  match t.last with
  | none => {first := some x, last := some x, links := Function.update t.links x {}}
  | some z => {t with last := some x, links := setNext (Function.update t.links x {prev := some z}) (some z) (some x)}

/-- Take a node out. -/
def unlink (t : Table ν) (x : ν) : Table ν :=
  let first := if t.first = some x then (t.links x).next else t.first
  let last := if t.last = some x then (t.links x).prev else t.last
  let links := setPrev t.links (t.links x).next (t.links x).prev
  {first, last, links := setNext links (links x).prev (links x).next}

/-- Follow the links behind the nodes to the first node that `p` holds of; none when that has not ended after `fuel`
nodes. -/
def search (m : ν → Links ν) (p : ν → Bool) : Nat → Option ν → Option (Option ν)
  | 0, _ => none
  | _ + 1, none => some none
  | fuel + 1, some x => if p x then some (some x) else search m p fuel (m x).next

end Table

section Operations
variable {t : Table ν} {x : ν} {l a b : List ν}

theorem Holds.empty (links : ν → Links ν) : Holds {links} [] := ⟨rfl, rfl, trivial, .nil⟩

/-- A link behind a node of the list has a link in front to answer it. -/
theorem Holds.next_iff (h : Holds t l) (hx : x ∈ l) (y : ν) : (t.links x).next = some y ↔ y ∈ l ∧ (t.links y).prev = some x := by
  constructor
  · intro hnext
    obtain ⟨i, hi⟩ := List.mem_iff_getElem?.mp hx
    have hy : l[i + 1]? = some y := (h.joined.at hi).1 ▸ hnext
    refine ⟨List.mem_of_getElem? hy, ?_⟩
    rw [(h.joined.at hy).2, if_neg (Nat.succ_ne_zero i), Nat.add_sub_cancel, hi]
  · rintro ⟨hy, hprev⟩
    obtain ⟨i, hi⟩ := List.mem_iff_getElem?.mp hy
    rw [(h.joined.at hi).2] at hprev
    split at hprev
    next => cases hprev
    next hpos =>
      rw [(h.joined.at hprev).1, Nat.sub_add_cancel (Nat.pos_of_ne_zero hpos), hi]

/-- The search finds what a search of the list finds. -/
theorem Joined.search {m : ν → Links ν} {before : Option ν} {p : ν → Bool} (h : Joined m before l none) {fuel : Nat}
    (hfuel : l.length < fuel) : Table.search m p fuel l.head? = some (l.find? p) := by
  induction l generalizing before fuel with
  | nil =>
    obtain ⟨fuel, rfl⟩ := Nat.exists_eq_add_one_of_ne_zero (Nat.ne_of_gt hfuel)
    rfl
  | cons x l ih =>
    obtain ⟨fuel, rfl⟩ := Nat.exists_eq_add_one_of_ne_zero (Nat.ne_of_gt (Nat.zero_lt_of_lt hfuel))
    obtain ⟨-, hnext, hrest⟩ := h
    rw [Option.or_none] at hnext
    rw [List.head?_cons, Table.search, List.find?_cons, hnext, ih hrest (Nat.lt_of_succ_lt_succ hfuel)]
    cases p x <;> rfl

variable [DecidableEq ν]

theorem Holds.append (h : Holds t l) (hx : x ∉ l) : Holds (t.append x) (l ++ [x]) where
  first := by
    rw [Table.append, h.last]
    rcases List.eq_nil_or_concat l with rfl | ⟨l, z, rfl⟩
    · rfl
    · rw [List.concat_eq_append, List.getLast?_concat]
      show t.first = _
      rw [h.first, List.concat_eq_append, List.append_assoc, List.head?_append, List.head?_append]
      rfl
  last := by
    rw [List.getLast?_concat, Table.append]
    split <;> rfl
  joined := by
    have hsame : ∀ y ∈ l, ∀ v, Function.update t.links x v y = t.links y := fun y hy v =>
      Function.update_of_ne (fun heq : y = x => hx (heq ▸ hy)) _ _
    rw [Table.append]
    split
    next hnone =>
      rw [h.last, List.getLast?_eq_none_iff] at hnone
      subst hnone
      simp [Joined]
    next z hz =>
      have hjoined : Joined (Function.update t.links x {prev := some z}) none l none := h.joined.congr fun y hy => hsame y hy _
      rw [h.last] at hz
      have hne : (some z : Option ν) ≠ some x := by
        rintro ⟨⟩
        exact hx (List.mem_of_getLast? hz)
      have hset := hjoined.setNext_last (v := some x) h.nodup
      rw [hz] at hset
      refine joined_append.mpr ⟨hset, ?_⟩
      show Joined (setNext (Function.update t.links x {prev := some z}) (some z) (some x)) _ [x] none
      rw [Joined, setNext_of_ne hne, Function.update_self, hz]
      exact ⟨rfl, rfl, trivial⟩
  nodup := List.nodup_append.mpr ⟨h.nodup, List.nodup_singleton x, fun y hy z hz heq =>
    hx (List.mem_singleton.mp hz ▸ heq ▸ hy)⟩

theorem Holds.unlink (h : Holds t (a ++ x :: b)) : Holds (t.unlink x) (a ++ b) := by
  obtain ⟨hfirst, hlast, hjoined, hnodup⟩ := h
  rw [joined_append] at hjoined
  obtain ⟨ha, hprev, hnext, hb⟩ := hjoined
  rw [Option.or_none] at hprev hnext
  obtain ⟨hna, hnxb, hdisjoint⟩ := List.nodup_append.mp hnodup
  obtain ⟨hxb, hnb⟩ := List.nodup_cons.mp hnxb
  have hxa : x ∉ a := fun hx => hdisjoint x hx x List.mem_cons_self rfl
  have hbx : b.head? ≠ some x := fun heq => hxb (List.mem_of_mem_head? heq)
  have hax : a.getLast? ≠ some x := fun heq => hxa (List.mem_of_getLast? heq)
  have hunlinked : (t.unlink x).links = setNext (setPrev t.links b.head? a.getLast?) a.getLast? b.head? := by
    rw [Table.unlink, hnext, hprev, setPrev_of_ne hbx, hnext, hprev]
  refine ⟨?_, ?_, ?_, List.nodup_append.mpr ⟨hna, hnb, fun y hy z hz => hdisjoint y hy z (List.mem_cons_of_mem x hz)⟩⟩
  · show (if t.first = some x then (t.links x).next else t.first) = _
    rw [hfirst, hnext, List.head?_append, List.head?_append]
    cases a with
    | nil => exact if_pos rfl
    | cons y a => exact if_neg fun heq : some y = some x => hxa (Option.some.inj heq ▸ List.mem_cons_self)
  · show (if t.last = some x then (t.links x).prev else t.last) = _
    rw [hlast, hprev]
    rcases List.eq_nil_or_concat b with rfl | ⟨b, z, rfl⟩
    · rw [List.getLast?_concat, List.append_nil, if_pos rfl]
    · rw [List.concat_eq_append, ← List.cons_append, ← List.append_assoc, ← List.append_assoc, List.getLast?_concat,
        List.getLast?_concat]
      refine if_neg fun heq : some z = some x => hxb ?_
      rw [← Option.some.inj heq, List.concat_eq_append]
      exact List.mem_append_right b List.mem_cons_self
  · rw [hunlinked, joined_append]
    constructor
    · have hkept : Joined (setPrev t.links b.head? a.getLast?) none a (some x) :=
        ha.congr fun y hy => setPrev_of_ne fun heq =>
          hdisjoint y hy y (List.mem_cons_of_mem x (List.mem_of_mem_head? heq)) rfl
      rw [Option.or_none]
      exact hkept.setNext_last hna
    · rw [Option.or_none]
      exact (hb.setPrev_head hnb).congr fun y hy => setNext_of_ne fun heq =>
        hdisjoint y (List.mem_of_getLast? heq) y (List.mem_cons_of_mem x hy) rfl


end Operations

end Linked
