import Mathlib.Data.List.Sort
import WolfMqtt.Lib.TailQueue

/-! Queues that are kept in the order of a key, by inserting in front of the first node whose key is not smaller.

Nodes of distinct keys end up in one order, whichever they are inserted in (`eq_of_perm`). -/
namespace TailQueue

variable {α : Type} {key : α → Nat}

/-- Nodes in the order of their keys, no two of which are the same. -/
def Ascending (key : α → Nat) (xs : List α) : Prop := xs.Pairwise fun x y => key x < key y

instance keyTotal (key : α → Nat) : Std.Total fun x y => key x ≤ key y := ⟨fun _ _ => Nat.le_total _ _⟩

instance keyTrans (key : α → Nat) : IsTrans α fun x y => key x ≤ key y := ⟨fun _ _ _ => Nat.le_trans⟩

/-- `e` in front of the first node whose key is not smaller. -/
abbrev ordered (key : α → Nat) (e : α) (xs : List α) : List α := xs.orderedInsert (fun x y => key x ≤ key y) e

theorem ordered_ascending {e : α} {xs : List α} (h : Ascending key xs) (hne : ∀ x ∈ xs, key x ≠ key e) :
    Ascending key (ordered key e xs) := by
  have hle : (ordered key e xs).Pairwise fun x y => key x ≤ key y :=
    List.Pairwise.orderedInsert e xs (h.imp Nat.le_of_lt)
  have hdistinct : (ordered key e xs).Pairwise fun x y => key x ≠ key y := by
    refine (List.perm_orderedInsert _ e xs).symm.pairwise ?_ fun hxy => hxy.symm
    exact List.pairwise_cons.mpr ⟨fun x hx => (hne x hx).symm, h.imp fun hlt => hlt.ne⟩
  exact (hle.and hdistinct).imp fun hxy => lt_of_le_of_ne hxy.1 hxy.2

/-- The last node after an insertion is the new one just when all others come before it. -/
theorem getLast?_ordered (e : α) (xs : List α) :
    (ordered key e xs).getLast? = if xs.all (fun x => key x < key e) then some e else xs.getLast? := by
  induction xs with
  | nil => rfl
  | cons x xs ih =>
    rw [ordered, List.orderedInsert_cons, List.all_cons]
    by_cases hle : key e ≤ key x
    · rw [if_pos hle, decide_eq_false (not_lt.mpr hle), Bool.false_and, if_neg Bool.false_ne_true, List.getLast?_cons_cons]
    · have hne : ordered key e xs ≠ [] := List.ne_nil_of_mem ((List.mem_orderedInsert _).mpr (.inl rfl))
      rw [if_neg hle, List.getLast?_cons_of_ne_nil hne, ih, decide_eq_true (not_le.mp hle), Bool.true_and]
      split
      · rfl
      next hall =>
        have hxs : xs ≠ [] := by
          rintro rfl
          exact hall rfl
        rw [List.getLast?_cons_of_ne_nil hxs]

/-- The same nodes in the order of their keys are the same list. -/
theorem Ascending.eq_of_perm {xs ys : List α} (hx : Ascending key xs) (hy : Ascending key ys) (h : xs.Perm ys) : xs = ys := by
  refine List.Perm.eq_of_pairwise (fun x y _ _ hxy hyx => ?_) hx hy h
  exact absurd (Nat.lt_trans hxy hyx) (Nat.lt_irrefl _)

section queue
variable [Node α]

/-- Insert a node in its place: it becomes the tail if all others come before it. -/
def insert (key : α → Nat) (e : α) (q : TailQueue α) : TailQueue α where
  chain := ordered key e q.chain
  tail := if q.chain.all (fun x => key x < key e) then some (Node.addr e) else q.tail
  count := q.count + 1

theorem insert_perm (key : α → Nat) (e : α) (q : TailQueue α) : (q.insert key e).chain.Perm (e :: q.chain) :=
  List.perm_orderedInsert _ e q.chain

theorem insert_wf {q : TailQueue α} {e : α} (h : q.WF) (hfresh : Node.addr e ∉ q.chain.map Node.addr) :
    (q.insert key e).WF where
  tail := by
    show (if q.chain.all (fun x => key x < key e) then some (Node.addr e) else q.tail) =
      (ordered key e q.chain).getLast?.map Node.addr
    rw [getLast?_ordered, h.tail]
    split <;> rfl
  count := by
    rw [(insert_perm key e q).length_eq, List.length_cons]
    show q.count + 1 = _
    rw [h.count]
    rfl
  nodup := ((insert_perm key e q).map Node.addr).nodup_iff.mpr (List.nodup_cons.mpr ⟨hfresh, h.nodup⟩)

end queue

end TailQueue
