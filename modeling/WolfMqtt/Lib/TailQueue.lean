import WolfMqtt.Lib.Chain

/-! Singly linked queues with a tail pointer and a count.

The nodes reachable from the head are a list, each with an address. The tail pointer
and the count are kept by hand beside it, so the operations are given for every value
of the three: appending through a tail pointer that is not the last node cuts the
chain there, or loses the new node. `WF` says that the three agree, and under it the
operations are those of a list. -/

structure TailQueue (α : Type) where
  /-- The nodes reachable from the head. -/
  chain : List α := []
  tail : Option Nat := none
  count : Int := 0
deriving Repr, DecidableEq

namespace TailQueue
variable {α : Type} [Node α]

/-- The chain after `t->next = e`, for the node `t` at address `t`. -/
def linkAfter (t : Nat) (e : α) : List α → List α
  | [] => []
  | x :: xs => if Node.addr x = t then [x, e] else x :: linkAfter t e xs

/-- Append `e` at the tail pointer. -/
def enqueue (q : TailQueue α) (e : α) : TailQueue α where
  chain := match q.tail with
    | none => [e]
    | some t => linkAfter t e q.chain
  tail := some (Node.addr e)
  count := q.count + 1

/-- The address of the node before the one at `a`. -/
def predOf (a : Nat) : List α → Option Nat
  | x :: y :: rest => if Node.addr y = a then some (Node.addr x) else predOf a (y :: rest)
  | _ => none

/-- Unlink the node at `a`: the tail moves to its predecessor if it was the tail. -/
def unlink (q : TailQueue α) (a : Nat) : TailQueue α where
  chain := Chain.removeAt a q.chain
  tail := if q.tail = some a then predOf a q.chain else q.tail
  count := q.count - 1

/-- Write to the node at `a` in place. -/
def update (q : TailQueue α) (a : Nat) (f : α → α) : TailQueue α :=
  {q with chain := Chain.writeAt a f q.chain}

/-- Write to every node in place. -/
def updateAll (q : TailQueue α) (f : α → α) : TailQueue α := {q with chain := q.chain.map f}

/-- The tail pointer is the last node, the count is the length, and no two nodes share an
address. -/
structure WF (q : TailQueue α) : Prop where
  tail : q.tail = q.chain.getLast?.map Node.addr
  count : q.count = q.chain.length
  nodup : (q.chain.map Node.addr).Nodup

theorem empty_wf : WF ({} : TailQueue α) := ⟨rfl, rfl, List.nodup_nil⟩

/-! ### Appending -/

theorem linkAfter_last (e : α) (xs : List α) (x : α) (h : ((xs ++ [x]).map Node.addr).Nodup) :
    linkAfter (Node.addr x) e (xs ++ [x]) = xs ++ [x, e] := by
  induction xs with
  | nil => simp [linkAfter]
  | cons y ys ih =>
    have hne : Node.addr y ≠ Node.addr x := by
      intro heq
      simp [heq] at h
    have hys : ((ys ++ [x]).map Node.addr).Nodup := (List.nodup_cons.mp h).2
    simp [linkAfter, hne, ih hys]

theorem enqueue_chain (q : TailQueue α) (e : α) (h : q.WF) : (q.enqueue e).chain = q.chain ++ [e] := by
  rcases List.eq_nil_or_concat' q.chain with hnil | ⟨xs, x, hx⟩
  · have htail : q.tail = none := by rw [h.tail, hnil]; rfl
    simp [enqueue, htail, hnil]
  · have htail : q.tail = some (Node.addr x) := by rw [h.tail, hx]; simp
    have hnodup := h.nodup
    rw [hx] at hnodup
    simp only [enqueue, htail, hx, linkAfter_last e xs x hnodup, List.append_assoc, List.singleton_append]

theorem enqueue_wf (q : TailQueue α) (e : α) (h : q.WF) (hfresh : Node.addr e ∉ q.chain.map Node.addr) :
    (q.enqueue e).WF := by
  have hchain := enqueue_chain q e h
  refine ⟨?_, ?_, ?_⟩
  · rw [hchain]
    simp [enqueue]
  · rw [hchain]
    simp [enqueue, h.count]
  · rw [hchain, List.map_append, List.nodup_append]
    refine ⟨h.nodup, by simp, ?_⟩
    intro a ha b hb
    simp only [List.map_cons, List.map_nil, List.mem_singleton] at hb
    subst hb
    exact fun heq => hfresh (heq ▸ ha)

/-! ### Unlinking -/

theorem predOf_last (xs : List α) (x : α) (h : ((xs ++ [x]).map Node.addr).Nodup) :
    predOf (Node.addr x) (xs ++ [x]) = xs.getLast?.map Node.addr := by
  induction xs with
  | nil => simp [predOf]
  | cons y ys ih =>
    have hys : ((ys ++ [x]).map Node.addr).Nodup := (List.nodup_cons.mp h).2
    cases ys with
    | nil => simp [predOf]
    | cons z zs =>
      have hne : Node.addr z ≠ Node.addr x := by
        intro heq
        simp [heq] at hys
      have := ih hys
      simp only [List.cons_append] at this ⊢
      rw [predOf, if_neg hne, this]
      simp

theorem removeAt_last (a : Nat) (xs : List α) (x : α) (h : ((xs ++ [x]).map Node.addr).Nodup)
    (hx : Node.addr x = a) : Chain.removeAt a (xs ++ [x]) = xs := by
  have hnot : ∀ y ∈ xs, ¬(decide (Node.addr y = a) = true) := by
    intro y hy
    rw [List.map_append, List.nodup_append] at h
    have := h.2.2 (Node.addr y) (List.mem_map_of_mem hy) (Node.addr x) (by simp)
    simpa [hx] using this
  rw [Chain.removeAt, List.eraseP_append_right _ hnot]
  simp [hx]

theorem unlink_wf (q : TailQueue α) (a : Nat) (h : q.WF) (hmem : a ∈ q.chain.map Node.addr) :
    (q.unlink a).WF := by
  obtain ⟨y, hy, hya⟩ := List.mem_map.mp hmem
  refine ⟨?_, ?_, ?_⟩
  · rcases List.eq_nil_or_concat' q.chain with hnil | ⟨xs, x, hx⟩
    · rw [hnil] at hy
      cases hy
    · have hnodup := h.nodup
      rw [hx] at hnodup
      have htail : q.tail = some (Node.addr x) := by rw [h.tail, hx]; simp
      by_cases hxa : Node.addr x = a
      · simp only [unlink, htail, hxa, if_pos, hx]
        rw [removeAt_last a xs x hnodup hxa, ← hxa, predOf_last xs x hnodup]
      · have hsome : some (Node.addr x) ≠ some a := by simpa using hxa
        have hyx : y ∈ xs := by
          rw [hx] at hy
          rcases List.mem_append.mp hy with hy | hy
          · exact hy
          · simp only [List.mem_singleton] at hy
            exact absurd (hy ▸ hya) hxa
        simp only [unlink, htail, if_neg hsome, hx]
        rw [Chain.removeAt, List.eraseP_append_left (a := y) (by simp [hya]) _ hyx]
        simp
  · have hlen := List.length_eraseP_of_mem (p := fun x => decide (Node.addr x = a)) hy (by simp [hya])
    have hpos := List.length_pos_of_mem hy
    simp only [unlink, Chain.removeAt, h.count, hlen]
    omega
  · exact Chain.nodup_removeAt h.nodup a

theorem mem_unlink (q : TailQueue α) (a : Nat) (h : q.WF) (x : α) :
    x ∈ (q.unlink a).chain ↔ x ∈ q.chain ∧ Node.addr x ≠ a := Chain.mem_removeAt h.nodup

/-! ### Writing to nodes -/

/-- Well-formedness is a matter of the addresses. -/
theorem WF.of_addrs {q q' : TailQueue α} (h : q.WF) (htail : q'.tail = q.tail) (hcount : q'.count = q.count)
    (haddr : q'.chain.map Node.addr = q.chain.map Node.addr) : q'.WF := by
  have hlast : q'.chain.getLast?.map Node.addr = q.chain.getLast?.map Node.addr := by
    rw [← List.getLast?_map, haddr, List.getLast?_map]
  have hlen : q'.chain.length = q.chain.length := by simpa using congrArg List.length haddr
  exact ⟨by rw [htail, h.tail, hlast], by rw [hcount, h.count, hlen], by rw [haddr]; exact h.nodup⟩

/-- In a well-formed queue an entry is found at its address. -/
theorem WF.at? {q : TailQueue α} (h : q.WF) {x : α} (hx : x ∈ q.chain) :
    Chain.at? q.chain (Node.addr x) = some x := Chain.at?_of_mem h.nodup hx

/-! ### Counting -/

/-- Unlinking a node takes it out of every count. -/
theorem countP_unlink (q : TailQueue α) (p : α → Bool) (h : q.WF) (x : α) (hx : x ∈ q.chain) :
    (q.unlink (Node.addr x)).chain.countP p + (if p x then 1 else 0) = q.chain.countP p := by
  have hat := h.at? hx
  simp only [unlink]
  generalize q.chain = xs at hat ⊢
  induction xs with
  | nil => cases hat
  | cons y ys ih =>
    by_cases hy : Node.addr y = Node.addr x
    · rw [← hy, Chain.at?_cons_self] at hat
      cases hat
      simp [Chain.removeAt, List.countP_cons]
    · rw [Chain.at?_cons_ne hy] at hat
      have := ih hat
      simp only [Chain.removeAt] at this ⊢
      rw [List.eraseP_cons_of_neg (by simp [hy]), List.countP_cons, List.countP_cons]
      omega

/-- Writing to a node changes a count by that node only. -/
theorem countP_update (q : TailQueue α) (p : α → Bool) (f : α → α) (h : q.WF) (x : α) (hx : x ∈ q.chain) :
    (q.update (Node.addr x) f).chain.countP p + (if p x then 1 else 0) =
      q.chain.countP p + (if p (f x) then 1 else 0) := by
  have hat := h.at? hx
  simp only [update]
  generalize q.chain = xs at hat ⊢
  induction xs with
  | nil => cases hat
  | cons y ys ih =>
    by_cases hy : Node.addr y = Node.addr x
    · rw [← hy, Chain.at?_cons_self] at hat
      cases hat
      rw [Chain.writeAt_cons_self, List.countP_cons, List.countP_cons]
      omega
    · rw [Chain.at?_cons_ne hy] at hat
      have := ih hat
      rw [Chain.writeAt_cons_ne hy, List.countP_cons, List.countP_cons]
      omega

end TailQueue
