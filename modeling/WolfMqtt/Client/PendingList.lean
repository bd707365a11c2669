import WolfMqtt.Client.State
import WolfMqtt.Lib.Linked

/-! The list of pending responses, as links in the objects of the callers.

A node is the `MqttPendResp` of a message object. It keeps its links when it leaves the list and is zeroed when it comes
in again. What the operations do to the links is what they do to a list of entries, the oldest first (`Entry`). -/
namespace WolfMqtt.Pending

open Linked (Table Holds)

/-! ### Nodes and operations -/

/-- `MqttPendResp` without its links. `α` are the addresses of message objects. -/
structure Members (α : Type) where
  packetId : Nat := 0
  packetType : Nat := 0
  packetRet : Int := 0
  packetObj : Option α := none
  packetDone : Bool := false
  packetProcessing : Bool := false
  recvQuotaStat : Option α := none

/-- The part of `MqttClient` and of the callers' objects that the list is made of. `ν` are the addresses of pending
responses, and `recvQuotaHeld` is a member of every message object. -/
structure Client (ν α : Type) where
  list : Table ν
  resp : ν → Members α
  recvQuotaHeld : α → Bool

section Operations
variable {ν α : Type} [DecidableEq ν] [DecidableEq α]

namespace Client

/-- Change the members of one node. -/
def modify (s : Client ν α) (x : ν) (f : Members α → Members α) : Client ν α :=
  {s with resp := Function.update s.resp x (f (s.resp x))}

/-- The loops over the list. None when the loop has not ended after `fuel` turns, and none inside when it comes to the
end of the list. -/
def search (s : Client ν α) (fuel : Nat) (p : ν → Bool) : Option (Option ν) :=
  Table.search s.list.links p fuel s.list.first

/-- `MqttClient_RespList_Add` -/
def add (s : Client ν α) (fuel : Nat) (packetType packetId : Nat) (newResp : ν) (packetObj : Option α) :
    Option (Int × Client ν α) :=
  match s.search fuel (fun x => x = newResp || (packetId ≠ 0 && (s.resp x).packetId = packetId)) with
  | none => none
  | some (some x) => some (if x = newResp then Code.badArg else Code.packetId, s)
  | some none =>
    some (Code.success, {s.modify newResp (fun _ => {packetId, packetType, packetObj}) with list := s.list.append newResp})

/-- `MqttClient_RespList_Remove` -/
def remove (s : Client ν α) (fuel : Nat) (rmResp : ν) : Option (Client ν α) :=
  match s.search fuel (· = rmResp) with
  | none => none
  | some none => some s
  | some (some x) => some {s.modify x (fun r => {r with recvQuotaStat := none}) with list := s.list.unlink x}

/-- `MqttClient_RespList_Find` -/
def find (s : Client ν α) (fuel : Nat) (packetType packetId : Nat) : Option (Option ν) :=
  s.search fuel fun x => packetType = (s.resp x).packetType && packetId = (s.resp x).packetId

/-- `MqttClient_CheckPendResp`, with what `wm_SemLock` returns. -/
def check (s : Client ν α) (fuel : Nat) (lock : Int) (waitType waitPacketId : Nat) : Option (Int × Client ν α) :=
  if lock ≠ 0 then some (lock, s)
  else
    match s.find fuel waitType waitPacketId with
    | none => none
    | some none => some (Code.notFound, s)
    | some (some x) =>
      if (s.resp x).packetDone then (s.remove fuel x).map fun s' => ((s.resp x).packetRet, s')
      else some (Code.continue, s)

/-- `recvQuotaHeld` of a message object is dropped. -/
def dropQuota (s : Client ν α) (msg : Option α) : Client ν α :=
  match msg with
  | none => s
  | some msg => {s with recvQuotaHeld := Function.update s.recvQuotaHeld msg false}

/-- What `MqttClient_CancelMessage` does to the list. `msgOf` is the address that lies `OFFSETOF(MqttMessage, pendResp)`
in front of a node. -/
def cancelMessage (s : Client ν α) (fuel : Nat) (msgOf : ν → α) (lock : Int) (msg : α) : Option (Int × Client ν α) :=
  let s := s.dropQuota (some msg)
  if lock ≠ 0 then some (lock, s)
  else
    match s.search fuel (fun x => (s.resp x).packetObj = some msg || msgOf x = msg) with
    | none => none
    | some none => some (Code.success, s)
    | some (some x) => (s.remove fuel x).map fun s => (Code.success, s)

/-- The loop of `MqttClient_NetDisconnect`, at `tmpResp`, with `turns` turns left. -/
def clearFrom (fuel : Nat) : Nat → Option ν → Client ν α → Option (Client ν α)
  | 0, _, _ => none
  | _ + 1, none, s => some s
  | turns + 1, some tmpResp, s =>
    let nextResp := (s.list.links tmpResp).next
    match (s.dropQuota (s.resp tmpResp).recvQuotaStat).remove fuel tmpResp with
    | none => none
    | some s => clearFrom fuel turns nextResp s

/-- What `MqttClient_NetDisconnect` does to the list. -/
def netDisconnect (s : Client ν α) (fuel : Nat) (lock : Int) : Option (Int × Client ν α) :=
  if lock ≠ 0 then some (lock, s) else (clearFrom fuel fuel s.list.first s).map fun s => (Code.success, s)

end Client

/-- What happens to the list and to the nodes. Whoever reads a packet marks the node it is for (`mark`), a PUBLISH puts
its quota there (`reserve`), and the owner of a node that is not in the list may write anything over it (`reuse`). -/
inductive Op (ν α : Type) where
  | add (packetType packetId : Nat) (newResp : ν) (packetObj : Option α)
  | remove (rmResp : ν)
  | check (lock : Int) (waitType waitPacketId : Nat)
  | cancelMessage (lock : Int) (msg : α)
  | netDisconnect (lock : Int)
  | mark (x : ν) (processing done : Bool) (ret : Int)
  | reserve (x : ν) (stat : Option α)
  | reuse (x : ν) (links : Linked.Links ν) (members : Members α)

/-- The node is marked. -/
def Members.mark (r : Members α) (processing done : Bool) (ret : Int) : Members α :=
  {r with packetProcessing := processing, packetDone := done, packetRet := ret}

/-- One of them happens, with what it returns where it returns something. -/
def step (msgOf : ν → α) (fuel : Nat) (s : Client ν α) : Op ν α → Option (Int × Client ν α)
  | .add packetType packetId newResp packetObj => s.add fuel packetType packetId newResp packetObj
  | .remove rmResp => (s.remove fuel rmResp).map fun s => (0, s)
  | .check lock waitType waitPacketId => s.check fuel lock waitType waitPacketId
  | .cancelMessage lock msg => s.cancelMessage fuel msgOf lock msg
  | .netDisconnect lock => s.netDisconnect fuel lock
  | .mark x processing done ret => some (0, s.modify x (·.mark processing done ret))
  | .reserve x stat => some (0, s.modify x fun r => {r with recvQuotaStat := stat})
  | .reuse x links members =>
    match s.search fuel (· = x) with
    | none => none
    | some (some _) => some (0, s)
    | some none =>
      some (0, {s.modify x (fun _ => members) with
        list := {s.list with links := Function.update s.list.links x links}})

def run (msgOf : ν → α) (fuel : Nat) : List (Op ν α) → Client ν α → Option (Client ν α)
  | [], s => some s
  | op :: ops, s =>
    match step msgOf fuel s op with
    | none => none
    | some (_, s) => run msgOf fuel ops s

/-! ### Entries -/

/-- An entry of the list: a node and its members. -/
abbrev Entry (ν α : Type) := ν × Members α

variable (es : List (Entry ν α))

/-- Is the node in the list, or the identifier in use? -/
def taken (packetId : Nat) (x : ν) (e : Entry ν α) : Bool :=
  e.1 = x || (packetId ≠ 0 && e.2.packetId = packetId)

def addEntry (packetType packetId : Nat) (x : ν) (packetObj : Option α) : Int × List (Entry ν α) :=
  match es.find? (taken packetId x) with
  | some e => (if e.1 = x then Code.badArg else Code.packetId, es)
  | none => (Code.success, es ++ [(x, {packetId, packetType, packetObj})])

def removeEntry (x : ν) : List (Entry ν α) := es.filter (·.1 ≠ x)

def findEntry (packetType packetId : Nat) : Option (Entry ν α) :=
  es.find? fun e => packetType = e.2.packetType && packetId = e.2.packetId

def checkEntry (waitType waitPacketId : Nat) : Int × List (Entry ν α) :=
  match findEntry es waitType waitPacketId with
  | none => (Code.notFound, es)
  | some e => if e.2.packetDone then (e.2.packetRet, removeEntry es e.1) else (Code.continue, es)

/-- Only the first entry of a message is removed. -/
def cancelEntry (msgOf : ν → α) (msg : α) : List (Entry ν α) :=
  match es.find? (fun e => e.2.packetObj = some msg || msgOf e.1 = msg) with
  | none => es
  | some e => removeEntry es e.1

def changeEntry (x : ν) (f : Members α → Members α) : List (Entry ν α) :=
  es.map fun e => if e.1 = x then (e.1, f e.2) else e

/-- What an operation does to the entries. -/
def apply (msgOf : ν → α) : Op ν α → Int × List (Entry ν α)
  | .add packetType packetId newResp packetObj => addEntry es packetType packetId newResp packetObj
  | .remove rmResp => (0, removeEntry es rmResp)
  | .check lock waitType waitPacketId => if lock ≠ 0 then (lock, es) else checkEntry es waitType waitPacketId
  | .cancelMessage lock msg => if lock ≠ 0 then (lock, es) else (Code.success, cancelEntry es msgOf msg)
  | .netDisconnect lock => if lock ≠ 0 then (lock, es) else (Code.success, [])
  | .mark x processing done ret => (0, changeEntry es x (·.mark processing done ret))
  | .reserve x stat => (0, changeEntry es x fun r => {r with recvQuotaStat := stat})
  | .reuse _ _ _ => (0, es)

/-- The entries after some operations. -/
def entriesAfter (msgOf : ν → α) (ops : List (Op ν α)) : List (Entry ν α) :=
  ops.foldl (fun es op => (apply es msgOf op).2) []

/-! ### The links hold the entries -/

/-- The list goes through the nodes of the entries, and their members are those of the entries. -/
structure Represents (s : Client ν α) (es : List (Entry ν α)) : Prop where
  holds : Holds s.list (es.map Prod.fst)
  members : ∀ e ∈ es, s.resp e.1 = e.2

end Operations

section Represents
variable {ν α : Type} {s : Client ν α} {es : List (Entry ν α)} {fuel : Nat} {x : ν}

theorem Represents.empty (links : ν → Linked.Links ν) (resp : ν → Members α) (held : α → Bool) :
    Represents ⟨{links}, resp, held⟩ [] := ⟨.empty links, nofun⟩

theorem Represents.quota (h : Represents s es) (held : α → Bool) : Represents {s with recvQuotaHeld := held} es :=
  ⟨h.holds, h.members⟩

/-- The loops find the entry that a search of the entries finds. -/
theorem Represents.search (h : Represents s es) (hfuel : es.length < fuel) {p : ν → Bool} {q : Entry ν α → Bool}
    (hpq : ∀ e ∈ es, p e.1 = q e) : s.search fuel p = some ((es.find? q).map Prod.fst) := by
  have hsearch := h.holds.joined.search (p := p) (show (es.map Prod.fst).length < fuel by rwa [List.length_map])
  have hfind : es.find? (p ∘ Prod.fst) = es.find? q := by
    clear h hfuel hsearch
    induction es with
    | nil => rfl
    | cons e es ih =>
      rw [List.find?_cons, List.find?_cons, Function.comp_apply, hpq e List.mem_cons_self,
        ih fun d hd => hpq d (List.mem_cons_of_mem e hd)]
  rw [Client.search, h.holds.first, hsearch, List.find?_map, hfind]

theorem Represents.find (h : Represents s es) (hfuel : es.length < fuel) (type id : Nat) :
    s.find fuel type id = some ((findEntry es type id).map Prod.fst) :=
  h.search hfuel fun e he => by rw [h.members e he]

variable [DecidableEq ν]

theorem removeEntry_of_absent {x : ν} (hx : ∀ e ∈ es, e.1 ≠ x) : removeEntry es x = es :=
  List.filter_eq_self.mpr fun e he => by simpa using hx e he

theorem removeEntry_middle {a b : List (Entry ν α)} {e : Entry ν α} (hnodup : ((a ++ e :: b).map Prod.fst).Nodup) :
    removeEntry (a ++ e :: b) e.1 = a ++ b := by
  rw [List.map_append, List.map_cons, List.nodup_append, List.nodup_cons] at hnodup
  obtain ⟨-, ⟨hb, -⟩, hdisjoint⟩ := hnodup
  have ha : removeEntry a e.1 = a := removeEntry_of_absent fun d hd heq =>
    hdisjoint d.1 (List.mem_map_of_mem hd) e.1 List.mem_cons_self heq
  have hb : removeEntry b e.1 = b := removeEntry_of_absent fun d hd heq => hb (heq ▸ List.mem_map_of_mem hd)
  rw [removeEntry, List.filter_append, List.filter_cons_of_neg (by simp), ← removeEntry, ← removeEntry, ha, hb]

/-- The members of a node are written over. -/
theorem Represents.modify (h : Represents s es) (f : Members α → Members α) :
    Represents (s.modify x f) (changeEntry es x f) := by
  have hfst : (changeEntry es x f).map Prod.fst = es.map Prod.fst := by
    rw [changeEntry, List.map_map]
    refine List.map_congr_left fun e _ => ?_
    rw [Function.comp_apply]
    split <;> rfl
  refine ⟨hfst ▸ h.holds, fun e he => ?_⟩
  obtain ⟨d, hd, rfl⟩ := List.mem_map.mp he
  have hmembers := h.members d hd
  split
  next heq =>
    subst heq
    show Function.update s.resp d.1 (f (s.resp d.1)) d.1 = f d.2
    rw [Function.update_self, hmembers]
  next hne => exact (Function.update_of_ne hne _ _).trans hmembers

/-- A node that is not in the list is written over. -/
theorem Represents.modify_absent (h : Represents s es) (hx : ∀ e ∈ es, e.1 ≠ x) (f : Members α → Members α) :
    Represents (s.modify x f) es :=
  ⟨h.holds, fun e he => (Function.update_of_ne (hx e he) _ _).trans (h.members e he)⟩

theorem Represents.find_node (h : Represents s es) (hfuel : es.length < fuel) :
    s.search fuel (· = x) = some ((es.find? (·.1 = x)).map Prod.fst) := h.search hfuel fun _ _ => rfl

/-- `MqttClient_RespList_Remove` of a node that is not in the list does nothing. -/
theorem Represents.remove_absent (h : Represents s es) (hfuel : es.length < fuel) (hx : ∀ e ∈ es, e.1 ≠ x) :
    s.remove fuel x = some s := by
  have hnone : es.find? (·.1 = x) = none := List.find?_eq_none.mpr fun e he => by simpa using hx e he
  rw [Client.remove, h.find_node hfuel, hnone]
  rfl

theorem Represents.remove (h : Represents s es) (hfuel : es.length < fuel) (x : ν) :
    ∃ s', s.remove fuel x = some s' ∧ Represents s' (removeEntry es x) ∧ s'.recvQuotaHeld = s.recvQuotaHeld := by
  by_cases hx : ∀ e ∈ es, e.1 ≠ x
  · exact ⟨s, h.remove_absent hfuel hx, (removeEntry_of_absent hx).symm ▸ h, rfl⟩
  obtain ⟨e, he, rfl⟩ : ∃ e ∈ es, e.1 = x := by
    by_contra hnone
    exact hx fun e he heq => hnone ⟨e, he, heq⟩
  have hfound : (es.find? (·.1 = e.1)).map Prod.fst = some e.1 := by
    cases hd : es.find? (·.1 = e.1) with
    | none => exact absurd (List.find?_eq_none.mp hd e he) (by simp)
    | some d =>
      have hsame : d.1 = e.1 := by simpa using List.find?_some hd
      rw [Option.map_some, hsame]
  have hrun : s.remove fuel e.1 =
      some {s.modify e.1 (fun r => {r with recvQuotaStat := none}) with list := s.list.unlink e.1} := by
    rw [Client.remove, h.find_node hfuel, hfound]
  refine ⟨_, hrun, ?_, rfl⟩
  obtain ⟨a, b, rfl⟩ := List.append_of_mem he
  have hnodup := h.holds.nodup
  have hholds := h.holds
  rw [List.map_append, List.map_cons] at hholds
  rw [removeEntry_middle hnodup]
  refine ⟨by rw [List.map_append]; exact hholds.unlink, fun d hd => ?_⟩
  have hne : d.1 ≠ e.1 := by
    rw [List.map_append, List.map_cons, List.nodup_append, List.nodup_cons] at hnodup
    obtain ⟨-, ⟨hb, -⟩, hdisjoint⟩ := hnodup
    rcases List.mem_append.mp hd with hd | hd
    · exact hdisjoint d.1 (List.mem_map_of_mem hd) e.1 List.mem_cons_self
    · exact fun heq => hb (heq ▸ List.mem_map_of_mem hd)
  have hd : d ∈ a ++ e :: b := by
    rw [List.mem_append, List.mem_cons]
    exact (List.mem_append.mp hd).imp_right .inr
  exact (Function.update_of_ne hne _ _).trans (h.members d hd)

/-- `MqttClient_RespList_Add` of a node that is in the list, or with an identifier in use, does nothing. -/
theorem Represents.add (h : Represents s es) (hfuel : es.length < fuel) (type id : Nat) (x : ν) (obj : Option α) :
    ∃ s', s.add fuel type id x obj = some ((addEntry es type id x obj).1, s') ∧
      Represents s' (addEntry es type id x obj).2 ∧ ((addEntry es type id x obj).1 ≠ Code.success → s' = s) := by
  have hsearch := h.search hfuel (p := fun y => y = x || (id ≠ 0 && (s.resp y).packetId = id)) (q := taken id x)
    fun e he => by rw [h.members e he]; rfl
  rw [Client.add, hsearch, addEntry]
  cases hfind : es.find? (taken id x) with
  | some e => exact ⟨s, rfl, h, fun _ => rfl⟩
  | none =>
    refine ⟨_, rfl, ?_, fun hcode => absurd rfl hcode⟩
    have habsent : ∀ e ∈ es, e.1 ≠ x := by
      intro e he heq
      have hnot := List.find?_eq_none.mp hfind e he
      simp [taken, heq] at hnot
    have hx : x ∉ es.map Prod.fst := by
      intro hx
      obtain ⟨e, he, heq⟩ := List.mem_map.mp hx
      exact habsent e he heq
    refine ⟨by rw [List.map_append]; exact h.holds.append hx, fun e he => ?_⟩
    rcases List.mem_append.mp he with he | he
    · exact (h.modify_absent habsent fun _ => {packetId := id, packetType := type, packetObj := obj}).members e he
    · rw [List.mem_singleton.mp he]
      exact Function.update_self ..

theorem Represents.check (h : Represents s es) (hfuel : es.length < fuel) (type id : Nat) :
    ∃ s', s.check fuel 0 type id = some ((checkEntry es type id).1, s') ∧ Represents s' (checkEntry es type id).2 := by
  rw [Client.check, if_neg (not_not.mpr rfl), h.find hfuel, checkEntry]
  cases hfind : findEntry es type id with
  | none => exact ⟨s, rfl, h⟩
  | some e =>
    have hmembers := h.members e (List.mem_of_find?_eq_some hfind)
    dsimp only [Option.map_some]
    rw [hmembers]
    split
    · obtain ⟨s', hrun, hs', -⟩ := h.remove hfuel e.1
      rw [hrun]
      exact ⟨s', rfl, hs'⟩
    · exact ⟨s, rfl, h⟩

end Represents

/-! ### Identifiers -/

section Identifiers
variable {ν α : Type} [DecidableEq ν] {es : List (Entry ν α)}

/-- No identifier but zero is there twice. -/
def Distinct (es : List (Entry ν α)) : Prop :=
  es.Pairwise fun d e => d.2.packetId ≠ 0 → d.2.packetId ≠ e.2.packetId

theorem Distinct.remove (h : Distinct es) (x : ν) : Distinct (removeEntry es x) := List.Pairwise.filter _ h

theorem Distinct.change (h : Distinct es) {x : ν} {f : Members α → Members α} (hf : ∀ r, (f r).packetId = r.packetId) :
    Distinct (changeEntry es x f) := by
  have hid (e : Entry ν α) : (if e.1 = x then (e.1, f e.2) else e).2.packetId = e.2.packetId := by
    split
    · exact hf e.2
    · rfl
  refine List.pairwise_map.mpr (h.imp fun {d e} hde => ?_)
  rw [hid, hid]
  exact hde

theorem Distinct.add (h : Distinct es) (type id : Nat) (x : ν) (obj : Option α) :
    Distinct (addEntry es type id x obj).2 := by
  rw [addEntry]
  cases hfind : es.find? (taken id x) with
  | some e => exact h
  | none =>
    refine List.pairwise_append.mpr ⟨h, List.pairwise_singleton .., fun d hd e he hzero heq => ?_⟩
    rw [List.mem_singleton.mp he] at heq
    have hnot := List.find?_eq_none.mp hfind d hd
    simp only [taken, heq] at hnot hzero
    simp [hzero] at hnot

end Identifiers

/-- The nodes `l` are one list with two ends, in which every link has one to answer it and no identifier but zero is
there twice. -/
structure WellFormed {ν α : Type} (s : Client ν α) (l : List ν) : Prop where
  first : s.list.first = l.head?
  last : s.list.last = l.getLast?
  nodup : l.Nodup
  places : ∀ i x, l[i]? = some x →
    (s.list.links x).next = l[i + 1]? ∧ (s.list.links x).prev = if i = 0 then none else l[i - 1]?
  inverse : ∀ x ∈ l, ∀ y, (s.list.links x).next = some y ↔ y ∈ l ∧ (s.list.links y).prev = some x
  ids : l.Pairwise fun x y => (s.resp x).packetId ≠ 0 → (s.resp x).packetId ≠ (s.resp y).packetId

theorem Represents.wellFormed {ν α : Type} {s : Client ν α} {es : List (Entry ν α)} (h : Represents s es)
    (hdistinct : Distinct es) : WellFormed s (es.map Prod.fst) where
  first := h.holds.first
  last := h.holds.last
  nodup := h.holds.nodup
  places := fun _ _ hx => h.holds.joined.at hx
  inverse := fun _ hx y => h.holds.next_iff hx y
  ids := by
    refine List.pairwise_map.mpr (List.Pairwise.imp_of_mem (fun {d e} hd he hde => ?_) hdistinct)
    rw [h.members d hd, h.members e he]
    exact hde

/-! ### Runs -/

section Runs
variable {ν α : Type} [DecidableEq α]

theorem Represents.dropQuota {s : Client ν α} {es : List (Entry ν α)} (h : Represents s es) (msg : Option α) :
    Represents (s.dropQuota msg) es := by
  cases msg with
  | none => exact h
  | some msg => exact h.quota _

variable [DecidableEq ν] {s : Client ν α} {es : List (Entry ν α)} {fuel : Nat} {msgOf : ν → α}

theorem Represents.cancelMessage (h : Represents s es) (hfuel : es.length < fuel) (msg : α) :
    ∃ s', s.cancelMessage fuel msgOf 0 msg = some (Code.success, s') ∧ Represents s' (cancelEntry es msgOf msg) := by
  have h := h.dropQuota (some msg)
  rw [Client.cancelMessage]
  generalize s.dropQuota (some msg) = s at h ⊢
  have hsearch := h.search hfuel (p := fun x => (s.resp x).packetObj = some msg || msgOf x = msg)
    (q := fun e => e.2.packetObj = some msg || msgOf e.1 = msg) fun e he => by rw [h.members e he]
  rw [if_neg (not_not.mpr rfl), hsearch, cancelEntry]
  cases es.find? (fun e => e.2.packetObj = some msg || msgOf e.1 = msg) with
  | none => exact ⟨s, rfl, h⟩
  | some e =>
    obtain ⟨s', hrun, hs', -⟩ := h.remove hfuel e.1
    dsimp only [Option.map_some]
    rw [hrun]
    exact ⟨s', rfl, hs'⟩

/-- The loop of `MqttClient_NetDisconnect` takes one node after the other from the front. -/
theorem Represents.clearFrom (h : Represents s es) (hfuel : es.length < fuel) {turns : Nat} (hturns : es.length < turns) :
    ∃ s', Client.clearFrom fuel turns (es.map Prod.fst).head? s = some s' ∧ Represents s' [] := by
  induction es generalizing s turns with
  | nil =>
    obtain ⟨turns, rfl⟩ := Nat.exists_eq_add_one_of_ne_zero (Nat.ne_of_gt hturns)
    exact ⟨s, rfl, h⟩
  | cons e es ih =>
    obtain ⟨turns, rfl⟩ := Nat.exists_eq_add_one_of_ne_zero (Nat.ne_of_gt (Nat.zero_lt_of_lt hturns))
    have hnext : (s.list.links e.1).next = (es.map Prod.fst).head? := by
      have hjoined := h.holds.joined
      rw [List.map_cons, Linked.Joined, Option.or_none] at hjoined
      exact hjoined.2.1
    obtain ⟨s', hrun, hs', -⟩ := (h.dropQuota (s.resp e.1).recvQuotaStat).remove hfuel e.1
    have hmiddle : removeEntry (e :: es) e.1 = es := removeEntry_middle (a := []) h.holds.nodup
    rw [hmiddle] at hs'
    rw [List.map_cons, List.head?_cons, Client.clearFrom, hrun, hnext]
    rw [List.length_cons] at hfuel hturns
    exact ih hs' (Nat.lt_of_succ_lt hfuel) (Nat.lt_of_succ_lt_succ hturns)

theorem Represents.netDisconnect (h : Represents s es) (hfuel : es.length < fuel) :
    ∃ s', s.netDisconnect fuel 0 = some (Code.success, s') ∧ Represents s' [] := by
  obtain ⟨s', hrun, hs'⟩ := h.clearFrom hfuel hfuel
  rw [Client.netDisconnect, if_neg (not_not.mpr rfl), h.holds.first, hrun]
  exact ⟨s', rfl, hs'⟩

/-- Every operation ends, returns what it returns of the entries, and does to the links what it does to them. -/
theorem Represents.step (h : Represents s es) (msgOf : ν → α) (hfuel : es.length < fuel) (op : Op ν α) :
    ∃ s', step msgOf fuel s op = some ((apply es msgOf op).1, s') ∧ Represents s' (apply es msgOf op).2 := by
  cases op with
  | add type id x obj =>
    obtain ⟨s', hrun, hs', -⟩ := h.add hfuel type id x obj
    exact ⟨s', hrun, hs'⟩
  | remove x =>
    obtain ⟨s', hrun, hs', -⟩ := h.remove hfuel x
    exact ⟨s', by rw [Pending.step, hrun]; rfl, hs'⟩
  | check lock type id =>
    by_cases hlock : lock = 0
    · subst hlock
      exact h.check hfuel type id
    · rw [Pending.step, Client.check, if_pos hlock, apply, if_pos hlock]
      exact ⟨s, rfl, h⟩
  | cancelMessage lock msg =>
    by_cases hlock : lock = 0
    · subst hlock
      exact h.cancelMessage hfuel msg
    · rw [Pending.step, Client.cancelMessage, if_pos hlock, apply, if_pos hlock]
      exact ⟨_, rfl, h.dropQuota (some msg)⟩
  | netDisconnect lock =>
    by_cases hlock : lock = 0
    · subst hlock
      exact h.netDisconnect hfuel
    · rw [Pending.step, Client.netDisconnect, if_pos hlock, apply, if_pos hlock]
      exact ⟨s, rfl, h⟩
  | mark x processing done ret => exact ⟨_, rfl, h.modify _⟩
  | reserve x stat => exact ⟨_, rfl, h.modify _⟩
  | reuse x links members =>
    rw [Pending.step, h.find_node hfuel]
    cases hfind : es.find? (·.1 = x) with
    | some e => exact ⟨s, rfl, h⟩
    | none =>
      have habsent : ∀ e ∈ es, e.1 ≠ x := fun e he heq => by simpa [heq] using List.find?_eq_none.mp hfind e he
      refine ⟨_, rfl, ?_, (h.modify_absent habsent fun _ => members).members⟩
      obtain ⟨hfirst, hlast, hjoined, hnodup⟩ := h.holds
      refine ⟨hfirst, hlast, hjoined.congr fun y hy => ?_, hnodup⟩
      obtain ⟨e, he, rfl⟩ := List.mem_map.mp hy
      exact Function.update_of_ne (habsent e he) _ _

/-- A message has one entry at most removed. -/
theorem cancelEntry_cases (es : List (Entry ν α)) (msgOf : ν → α) (msg : α) :
    cancelEntry es msgOf msg = es ∨ ∃ x, cancelEntry es msgOf msg = removeEntry es x := by
  rw [cancelEntry]
  split
  · exact .inl rfl
  next e _ => exact .inr ⟨e.1, rfl⟩

/-- What an operation does to the entries keeps their identifiers apart, and adds at most one entry. -/
theorem Distinct.apply (h : Distinct es) (msgOf : ν → α) (op : Op ν α) :
    Distinct (apply es msgOf op).2 ∧ (apply es msgOf op).2.length ≤ es.length + 1 := by
  have hremove (x : ν) : Distinct (removeEntry es x) ∧ (removeEntry es x).length ≤ es.length + 1 :=
    ⟨h.remove x, Nat.le_succ_of_le (List.length_filter_le _ _)⟩
  have hkept : Distinct es ∧ es.length ≤ es.length + 1 := ⟨h, Nat.le_succ _⟩
  have hchange {x : ν} {f : Members α → Members α} (hf : ∀ r, (f r).packetId = r.packetId) :
      Distinct (changeEntry es x f) ∧ (changeEntry es x f).length ≤ es.length + 1 :=
    ⟨h.change hf, by rw [changeEntry, List.length_map]; exact Nat.le_succ _⟩
  cases op with
  | add type id x obj =>
    refine ⟨h.add type id x obj, ?_⟩
    rw [Pending.apply, addEntry]
    split
    · exact Nat.le_succ _
    · exact Nat.le_of_eq (by rw [List.length_append, List.length_singleton])
  | remove x => exact hremove x
  | check lock type id =>
    rw [Pending.apply, checkEntry]
    split
    · exact hkept
    split
    · exact hkept
    split
    · exact hremove _
    · exact hkept
  | cancelMessage lock msg =>
    rw [Pending.apply]
    split
    · exact hkept
    dsimp only
    obtain heq | ⟨x, heq⟩ := cancelEntry_cases es msgOf msg <;> rw [heq]
    · exact hkept
    · exact hremove x
  | netDisconnect lock =>
    rw [Pending.apply]
    split
    · exact hkept
    · exact ⟨.nil, Nat.zero_le _⟩
  | mark x processing done ret => exact hchange (f := (·.mark processing done ret)) fun _ => rfl
  | reserve x stat => exact hchange (f := fun r => {r with recvQuotaStat := stat}) fun _ => rfl
  | reuse x links members => exact hkept

/-- A run ends, and the links hold the entries that it leaves. -/
theorem Represents.run (h : Represents s es) (hdistinct : Distinct es) (msgOf : ν → α) (ops : List (Op ν α))
    (hfuel : es.length + ops.length < fuel) :
    ∃ s', run msgOf fuel ops s = some s' ∧
      Represents s' (ops.foldl (fun es op => (Pending.apply es msgOf op).2) es) ∧
      Distinct (ops.foldl (fun es op => (Pending.apply es msgOf op).2) es) ∧
      (ops.foldl (fun es op => (Pending.apply es msgOf op).2) es).length < fuel := by
  induction ops generalizing s es with
  | nil => exact ⟨s, rfl, h, hdistinct, hfuel⟩
  | cons op ops ih =>
    rw [List.length_cons] at hfuel
    obtain ⟨s', hrun, hs'⟩ := h.step msgOf (show es.length < fuel by omega) op
    obtain ⟨hdistinct', hlen⟩ := hdistinct.apply msgOf op
    have hroom : (Pending.apply es msgOf op).2.length + ops.length < fuel := by omega
    rw [Pending.run, hrun]
    exact ih hs' hdistinct' hroom

end Runs

/-- After any operations on nodes of any contents the pending responses are a well-formed list of what is waited for,
the oldest first. A node that is refused and one that is not there change nothing, and what is found is the oldest
one of its type and identifier. -/
theorem pending_wellFormed {ν α : Type} [DecidableEq ν] [DecidableEq α] (links : ν → Linked.Links ν) (resp : ν → Members α)
    (held : α → Bool) (msgOf : ν → α) (ops : List (Op ν α)) {fuel : Nat} (hfuel : ops.length < fuel) :
    ∃ s l, run msgOf fuel ops ⟨{links}, resp, held⟩ = some s ∧ WellFormed s l ∧
      l.map (fun x => (x, s.resp x)) = entriesAfter msgOf ops ∧
      (∀ type id x obj, ∃ rc s', s.add fuel type id x obj = some (rc, s') ∧ (rc ≠ Code.success → s' = s)) ∧
      (∀ x, x ∉ l → s.remove fuel x = some s) ∧
      ∀ type id, s.find fuel type id =
        some (l.find? fun x => type = (s.resp x).packetType && id = (s.resp x).packetId) := by
  obtain ⟨s, hrun, hs, hdistinct, hlen⟩ := (Represents.empty links resp held).run .nil msgOf ops
    (show [].length + ops.length < fuel by rwa [List.length_nil, Nat.zero_add])
  refine ⟨s, _, hrun, hs.wellFormed hdistinct, ?_, fun type id x obj => ?_, fun x hx => ?_, fun type id => ?_⟩
  · rw [List.map_map]
    conv_rhs => rw [← List.map_id (entriesAfter msgOf ops)]
    exact List.map_congr_left fun e he => Prod.ext rfl (hs.members e he)
  · obtain ⟨s', hadd, -, hsame⟩ := hs.add hlen type id x obj
    exact ⟨_, s', hadd, hsame⟩
  · exact hs.remove_absent hlen fun e he heq => hx (heq ▸ List.mem_map_of_mem he)
  · rw [List.find?_map]
    exact hs.search hlen fun _ _ => rfl

/-- Two nodes come in, and the first one leaves and comes in again with the links it had. -/
theorem pending_wellFormed_again : ∃ s, run (fun x : Nat => x) 5 [.add 4 1 10 none, .add 9 2 20 none, .remove 10,
    .add 9 1 10 none] ⟨{links := fun _ => {}}, fun _ => {}, fun _ : Nat => false⟩ = some s ∧ WellFormed s [20, 10] := by
  obtain ⟨s, l, hrun, hwell, hentries, -⟩ := pending_wellFormed (fun _ : Nat => {}) (fun _ => {}) (fun _ : Nat => false)
    (fun x => x) [.add 4 1 10 none, .add 9 2 20 none, .remove 10, .add 9 1 10 none] (show _ < 5 by decide)
  have hl : l = [20, 10] := by
    have := congrArg (List.map Prod.fst) hentries
    rw [List.map_map] at this
    exact (List.map_id l).symm.trans this
  exact ⟨s, hrun, hl ▸ hwell⟩

end WolfMqtt.Pending
