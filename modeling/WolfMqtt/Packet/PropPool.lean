import WolfMqtt.Lib.Attempt
import WolfMqtt.Lib.Pool
import WolfMqtt.Packet.PropScan

/-! The property pool: `clientPropStack`, and `MqttDecode_Props` on it.

A decoder runs on the pool and on the property pointers of the object it fills in, and what it has
done to them stays when it fails. `propsLoop` links one element of the pool after the other to the
list while it reads; `decodePropsM_spec` says what comes of it: it decides as `scanProps` does with as
many properties as the pool has free elements, gives all of them back when it fails, and otherwise
leaves a list of elements that were free. -/
namespace WolfMqtt

open Attempt (lift onError)
open Pool (Cell Linked)

/-! ### The pool and the pointers -/

/-- `MqttProp` as an element of the pool, without its `next`. It is free while its type is 0. `value` is
none until a value has been decoded into it. -/
structure PropItem where
  type : Nat := 0
  value : Option PropView := none
deriving Repr, DecidableEq

namespace PropItem

def isFree (x : PropItem) : Bool := x.type = 0

/-- A decoded property. -/
def of (v : PropView) : PropItem := {type := v.type.toNat, value := some v}

end PropItem

/-- `clientPropStack` -/
abbrev PropPool := List (Cell PropItem)

/-- The property lists an object has: its own, and for a CONNECT the will's. -/
inductive Whose where
  | own
  | will
deriving Repr, DecidableEq

/-- The pool, and the two pointers: none for one that the decoder has not set. -/
structure PropState where
  pool : PropPool
  props : Option (Option Nat) := none
  willProps : Option (Option Nat) := none
deriving Repr, DecidableEq

namespace PropState

/-- What a pointer points to. -/
def head (s : PropState) : Whose → Option Nat
  | .own => s.props.join
  | .will => s.willProps.join

def setHead (w : Whose) (head : Option Nat) (s : PropState) : PropState :=
  match w with
  | .own => {s with props := some head}
  | .will => {s with willProps := some head}

@[simp]
theorem head_setHead_self (w : Whose) (h : Option Nat) (s : PropState) : (s.setHead w h).head w = h := by
  cases w <;> rfl

theorem head_setHead_ne {w v : Whose} (hne : v ≠ w) (h : Option Nat) (s : PropState) :
    (s.setHead w h).head v = s.head v := by
  cases w <;> cases v <;> first | rfl | exact absurd rfl hne

@[simp]
theorem pool_setHead (w : Whose) (h : Option Nat) (s : PropState) : (s.setHead w h).pool = s.pool := by
  cases w <;> rfl

/-- The number of properties that can still be had. -/
def room (s : PropState) : Nat := Pool.freeCount PropItem.isFree s.pool

end PropState

/-! ### Decoders on the pool -/

/-- A computation that fails with a code and leaves the pool and the pointers as they are then. -/
abbrev DecodeM : Type → Type := Attempt.Prog PropState Fault

def DecodeM.fail {α : Type} (rc : Int) : DecodeM α := lift (.error (.code rc))

open DecodeM (fail)

/-- Set a pointer to NULL. -/
def nullProps (w : Whose) : DecodeM Unit := fun s => (.ok (), s.setHead w none)

/-- `MqttProps_Add`: the element, if one is free. -/
def propsAdd (w : Whose) : DecodeM (Option Nat) := fun s =>
  let last := Pool.lastFrom s.pool s.pool.length none (s.head w)
  match s.pool.findIdx? (fun c => c.item.isFree) with
  | none => (.ok none, s)
  | some i =>
    let pool := s.pool.set i {item := {type := 0xFF}}
    let linked := Pool.link i last (s.head w) pool
    (.ok (some i), PropState.setHead w linked.1 {s with pool := linked.2})

/-- `MqttProps_Free`, and the pointer set to NULL. -/
def freeProps (w : Whose) : DecodeM Unit := fun s =>
  (.ok (), PropState.setHead w none
    {s with pool := Pool.release (fun x => {x with type := 0}) s.pool.length (s.head w) s.pool})

/-- Write to an element. -/
def PropState.write (i : Nat) (f : PropItem → PropItem) (s : PropState) : PropState :=
  {s with pool := s.pool.modify i fun c => {c with item := f c.item}}

def writeProp (i : Nat) (f : PropItem → PropItem) : DecodeM Unit := fun s => (.ok (), s.write i f)

/-- The values of a list. -/
def PropState.views (w : Whose) (s : PropState) : List PropView :=
  (Pool.items s.pool s.pool.length (s.head w)).filterMap PropItem.value

def viewProps (w : Whose) : DecodeM (List PropView) := fun s => (.ok (s.views w), s)

/-! ### `MqttDecode_Props` -/

/-- Decode one property into element `i`, `at_` bytes behind `pbuf`: what has been seen then, where it
ends and what is left of the list. -/
def propsRead (packet : PacketType) (rx : Bytes) (pbuf bufLen i : Nat) (seen : SeenBits) (at_ propLen : Nat) :
    DecodeM (SeenBits × Nat × Nat) :=
  if (at_ : Int) > toInt32 bufLen then fail Code.outOfBuffer
  else do
    let (id, n) ← lift (scanVbi rx (pbuf + at_) (wordDiff bufLen at_))
    writeProp i (fun x => {x with type := id})
    let propLen := wordDiff propLen n
    if id ≥ propMatrixSize then fail Code.property
    else
      match PropType.ofNat? id with
      | none => fail Code.propertyMismatch
      | some type =>
        if !type.allowedIn packet then fail Code.propertyMismatch
        else if !propRepeats packet type && seen.has type then fail Code.property
        else do
          let (p, k) ← lift (scanPropValue rx pbuf bufLen type (at_ + n) propLen)
          writeProp i (fun x => {x with value := some p})
          pure (if propRepeats packet type then seen else seen.add type, at_ + n + k, wordDiff propLen k)

/-- The loop of `MqttDecode_Props`, with `left` properties still allowed: where it stops. -/
def propsLoop (w : Whose) (packet : PacketType) (rx : Bytes) (pbuf bufLen : Nat) :
    Nat → SeenBits → Nat → Nat → DecodeM Nat
  | 0, _, at_, propLen => if toInt32 propLen > 0 then fail Code.property else pure at_
  | left + 1, seen, at_, propLen =>
    if ¬toInt32 propLen > 0 then pure at_
    else do
      match ← propsAdd w with
      | none => fail Code.memory
      | some i =>
        let (seen, at_, propLen) ← propsRead packet rx pbuf bufLen i seen at_ propLen
        propsLoop w packet rx pbuf bufLen left seen at_ propLen

/-- `MqttDecode_Props` into a list, at offset `pbuf` of the buffer with `bufLen` bytes from there on: how
many bytes it has gone through. -/
def decodePropsM (w : Whose) (packet : PacketType) (rx : Bytes) (pbuf bufLen propLen : Nat) : DecodeM Nat :=
  onError (do
    let total ← propsLoop w packet rx pbuf bufLen maxProps {} 0 propLen
    let props ← viewProps w
    if props.any (·.type = .authData) && !props.any (·.type = .authMethod) then fail Code.property else pure total)
    (freeProps w)

/-! ### What one property does -/

/-- Element `i` is in use, or free. -/
def Used (p : PropPool) (i : Nat) : Prop := ∃ c, p[i]? = some c ∧ c.item.isFree = false

def Free (p : PropPool) (i : Nat) : Prop := ∃ c, p[i]? = some c ∧ c.item.isFree = true

theorem Used.not_free {p : PropPool} {i : Nat} (h : Used p i) : ¬Free p i := by
  obtain ⟨c, hc, hused⟩ := h
  rintro ⟨d, hd, hfree⟩
  cases hc.symm.trans hd
  rw [hused] at hfree
  cases hfree

theorem used_or_free {p : PropPool} {i : Nat} (h : i < p.length) : Used p i ∨ Free p i := by
  cases hitem : p[i].item.isFree with
  | false => exact .inl ⟨p[i], List.getElem?_eq_getElem h, hitem⟩
  | true => exact .inr ⟨p[i], List.getElem?_eq_getElem h, hitem⟩

theorem Free.congr {p q : PropPool} {i : Nat} (h : Free p i) (hitem : q[i]?.map Cell.item = p[i]?.map Cell.item) :
    Free q i := by
  obtain ⟨c, hc, hfree⟩ := h
  rw [hc, Option.map_some, Option.map_eq_some_iff] at hitem
  obtain ⟨d, hd, hsame⟩ := hitem
  exact ⟨d, hd, by rw [hsame]; exact hfree⟩

theorem Used.congr {p q : PropPool} {i : Nat} (h : Used p i) (hitem : q[i]?.map Cell.item = p[i]?.map Cell.item) :
    Used q i := by
  obtain ⟨c, hc, hused⟩ := h
  rw [hc, Option.map_some, Option.map_eq_some_iff] at hitem
  obtain ⟨d, hd, hsame⟩ := hitem
  exact ⟨d, hd, by rw [hsame]; exact hused⟩

/-- The list has got the elements `new` behind those of `l`: they were free, and nothing else has changed but
the pointer of the last of `l`. -/
structure Grows (w : Whose) (l new : List Nat) (s s' : PropState) : Prop where
  linked : Linked s'.pool (s'.head w) (l ++ new)
  fresh : ∀ i ∈ new, Free s.pool i
  items : ∀ i ∉ new, s'.pool[i]?.map Cell.item = s.pool[i]?.map Cell.item
  frame : ∀ i ∉ new, i ∉ l → s'.pool[i]? = s.pool[i]?
  other : ∀ v ≠ w, s'.head v = s.head v
  length : s'.pool.length = s.pool.length

theorem Grows.refl {w : Whose} {l : List Nat} {s : PropState} (h : Linked s.pool (s.head w) l) : Grows w l [] s s where
  linked := by rwa [List.append_nil]
  fresh := by simp
  items _ _ := rfl
  frame _ _ _ := rfl
  other _ _ := rfl
  length := rfl

theorem Grows.cons {w : Whose} {l new : List Nat} {i : Nat} {s s₁ s₂ : PropState} (h : Grows w l [i] s s₁)
    (hused : Used s₁.pool i) (h' : Grows w (l ++ [i]) new s₁ s₂) : Grows w l (i :: new) s s₂ where
  linked := by
    have hlinked := h'.linked
    rwa [List.append_assoc, List.singleton_append] at hlinked
  fresh j hj := by
    rcases List.mem_cons.mp hj with rfl | hj
    · exact h.fresh j (List.mem_singleton_self j)
    · have hfree := h'.fresh j hj
      have hne : j ≠ i := by
        rintro rfl
        exact hused.not_free hfree
      exact hfree.congr (h.items j (by simpa using hne)).symm
  items j hj := by
    rw [List.mem_cons, not_or] at hj
    exact (h'.items j hj.2).trans (h.items j (by simpa using hj.1))
  frame j hj hl := by
    rw [List.mem_cons, not_or] at hj
    exact (h'.frame j hj.2 (by simp [hl, hj.1])).trans (h.frame j (by simpa using hj.1) hl)
  other v hv := (h'.other v hv).trans (h.other v hv)
  length := h'.length.trans h.length

/-- Writing to the element that was added last. -/
theorem Grows.write {w : Whose} {l : List Nat} {i : Nat} {s s' : PropState} (h : Grows w l [i] s s')
    (f : PropItem → PropItem) :
    Grows w l [i] s (s'.write i f) where
  linked := by
    refine Linked.congr (p := s'.pool) ?_ fun j _ => ?_
    · have hhead : (s'.write i f).head w = s'.head w := by cases w <;> rfl
      rw [hhead]
      exact h.linked
    · rw [PropState.write, List.getElem?_modify]
      cases s'.pool[j]? with
      | none => rfl
      | some c =>
        simp only [Option.map_some]
        split <;> rfl
  fresh := h.fresh
  items j hj := by
    rw [PropState.write, List.getElem?_modify_ne _ _ (Ne.symm (by simpa using hj))]
    exact h.items j hj
  frame j hj hl := by
    rw [PropState.write, List.getElem?_modify_ne _ _ (Ne.symm (by simpa using hj))]
    exact h.frame j hj hl
  other v hv := by
    rw [← h.other v hv]
    cases v <;> rfl
  length := by
    rw [PropState.write, List.length_modify]
    exact h.length

theorem room_write {s : PropState} {i : Nat} {c : Cell PropItem} (hi : s.pool[i]? = some c) (f : PropItem → PropItem)
    (hsame : (f c.item).isFree = c.item.isFree) :
    (s.write i f).room = s.room := by
  have hcount : ∀ (p : PropPool) (i : Nat), (∀ c, p[i]? = some c → (f c.item).isFree = c.item.isFree) →
      Pool.freeCount PropItem.isFree (p.modify i fun c => {c with item := f c.item}) = Pool.freeCount PropItem.isFree p := by
    intro p
    induction p with
    | nil => simp
    | cons d p ih =>
      intro i hfree
      cases i with
      | zero =>
        rw [List.modify_zero_cons, Pool.freeCount, Pool.freeCount, List.countP_cons, List.countP_cons]
        rw [show (f d.item).isFree = d.item.isFree from hfree d rfl]
      | succ i =>
        rw [List.modify_succ_cons, Pool.freeCount, Pool.freeCount, List.countP_cons, List.countP_cons]
        exact congrArg (· + _) (ih i hfree)
  refine hcount s.pool i fun d hd => ?_
  cases hi.symm.trans hd
  exact hsame

/-- Adding an element: there is none, or it was free and is now at the end of the list. -/
theorem propsAdd_spec {w : Whose} {l : List Nat} {s : PropState} (h : Linked s.pool (s.head w) l)
    (hused : ∀ i ∈ l, Used s.pool i) :
    (s.room = 0 ∧ propsAdd w s = (.ok none, s)) ∨
      ∃ i s', propsAdd w s = (.ok (some i), s') ∧ Grows w l [i] s s' ∧
        s'.pool[i]?.map Cell.item = some {type := 0xFF} ∧ s'.room + 1 = s.room := by
  unfold propsAdd
  cases hfind : s.pool.findIdx? (fun c => c.item.isFree) with
  | none => exact .inl ⟨Pool.freeCount_eq_zero.mp hfind, rfl⟩
  | some i =>
    obtain ⟨hi, hfree, -⟩ := List.findIdx?_eq_some_iff_getElem.mp hfind
    have hget : s.pool[i]? = some s.pool[i] := List.getElem?_eq_getElem hi
    have hnot : i ∉ l := fun hmem => (hused i hmem).not_free ⟨_, hget, hfree⟩
    let fresh : Cell PropItem := {item := {type := 0xFF}}
    have hset : (s.pool.set i fresh)[i]? = some fresh := List.getElem?_set_self hi
    have hlinked : Linked (s.pool.set i fresh) (s.head w) l := by
      refine h.congr fun j hj => ?_
      rw [List.getElem?_set_ne (fun hij => hnot (by rw [hij]; exact hj))]
    have hlast : Pool.lastFrom s.pool s.pool.length none (s.head w) = l.getLast? := by
      rw [Pool.lastFrom_eq h h.length_le, Option.or_none]
    have hend := hlinked.link hset rfl hnot
    have hitem : ∀ j, (Pool.link i l.getLast? (s.head w) (s.pool.set i fresh)).2[j]?.map Cell.item =
        (s.pool.set i fresh)[j]?.map Cell.item := fun j => Pool.link_item j
    refine .inr ⟨i, _, rfl, ?_, ?_, ?_⟩
    · rw [hlast]
      constructor
      · rw [PropState.head_setHead_self, PropState.pool_setHead]
        exact hend
      · intro j hj
        rw [List.mem_singleton.mp hj]
        exact ⟨_, hget, hfree⟩
      · intro j hj
        rw [PropState.pool_setHead, hitem, List.getElem?_set_ne (Ne.symm (by simpa using hj))]
      · intro j hj hl
        rw [PropState.pool_setHead, Pool.link_getElem? (fun hlast => hl (List.mem_of_getLast? hlast)),
          List.getElem?_set_ne (Ne.symm (by simpa using hj))]
      · intro v hv
        rw [PropState.head_setHead_ne hv]
        cases v <;> rfl
      · rw [PropState.pool_setHead, Pool.link_length, List.length_set]
    · rw [hlast, PropState.pool_setHead, hitem, hset]
      rfl
    · have hcount := Pool.freeCount_set (d := fresh) hget hfree rfl
      rw [hlast, PropState.room, PropState.pool_setHead, PropState.room, ← hcount]
      refine congrArg (· + 1) (Pool.freeCount_congr ?_)
      refine List.ext_getElem? fun j => ?_
      rw [List.getElem?_map, List.getElem?_map]
      exact hitem j

/-- What `propsRead` reads, without the pool. -/
def scanOne (packet : PacketType) (rx : Bytes) (pbuf bufLen : Nat) (seen : SeenBits) (at_ propLen : Nat) :
    Except Fault (PropView × SeenBits × Nat × Nat) :=
  if (at_ : Int) > toInt32 bufLen then .error (.code Code.outOfBuffer)
  else do
    let (id, n) ← scanVbi rx (pbuf + at_) (wordDiff bufLen at_)
    let propLen := wordDiff propLen n
    if id ≥ propMatrixSize then .error (.code Code.property)
    else
      match PropType.ofNat? id with
      | none => .error (.code Code.propertyMismatch)
      | some type =>
        if !type.allowedIn packet then .error (.code Code.propertyMismatch)
        else if !propRepeats packet type && seen.has type then .error (.code Code.property)
        else
          let (p, k) ← scanPropValue rx pbuf bufLen type (at_ + n) propLen
          .ok (p, if propRepeats packet type then seen else seen.add type, at_ + n + k, wordDiff propLen k)

theorem scanPropsLoop_succ (packet : PacketType) (rx : Bytes) (pbuf bufLen : Nat) (seen : SeenBits)
    (room at_ propLen left : Nat) : scanPropsLoop packet rx pbuf bufLen seen room at_ propLen (left + 1) =
      if ¬toInt32 propLen > 0 then .ok ([], at_)
      else if room = 0 then .error (.code Code.memory)
      else
        scanOne packet rx pbuf bufLen seen at_ propLen >>= fun r =>
          scanPropsLoop packet rx pbuf bufLen r.2.1 (room - 1) r.2.2.1 r.2.2.2 left >>= fun rest =>
            .ok (r.1 :: rest.1, rest.2) := by
  rw [scanPropsLoop, scanOne]
  split
  · rfl
  split
  · rfl
  split
  · rfl
  cases scanVbi rx (pbuf + at_) (wordDiff bufLen at_) with
  | error e => rfl
  | ok r =>
    obtain ⟨id, n⟩ := r
    dsimp only [bind, Except.bind]
    split
    · rfl
    cases PropType.ofNat? id with
    | none => rfl
    | some type =>
      dsimp only
      split
      · rfl
      split
      · rfl
      cases scanPropValue rx pbuf bufLen type (at_ + n) (wordDiff propLen n) with
      | error e => rfl
      | ok v => rfl

theorem scanPropValue_type {rx : Bytes} {pbuf bufLen : Nat} {type : PropType} {at_ propLen : Nat} {v : PropView} {k : Nat}
    (h : scanPropValue rx pbuf bufLen type at_ propLen = .ok (v, k)) : v.type = type := by
  unfold scanPropValue at h
  cases type.dataType <;> simp only [bind, Except.bind] at h <;> (repeat' split at h) <;> cases h <;> rfl

/-- Decoding into an element: it decides as `scanOne` does, and the element then holds the property. -/
theorem propsRead_spec {packet : PacketType} {rx : Bytes} {pbuf bufLen i : Nat} {seen : SeenBits} {at_ propLen : Nat}
    {w : Whose} {l : List Nat} {s s₁ : PropState} (h : Grows w l [i] s s₁)
    (hitem : s₁.pool[i]?.map Cell.item = some {type := 0xFF}) :
    match scanOne packet rx pbuf bufLen seen at_ propLen with
    | .error e => ∃ s₂, propsRead packet rx pbuf bufLen i seen at_ propLen s₁ = (.error e, s₂) ∧ Grows w l [i] s s₂
    | .ok r => ∃ s₂, propsRead packet rx pbuf bufLen i seen at_ propLen s₁ = (.ok r.2, s₂) ∧ Grows w l [i] s s₂ ∧
        s₂.pool[i]?.map Cell.item = some (.of r.1) ∧ s₂.room = s₁.room := by
  obtain ⟨c, hc, hfresh⟩ := Option.map_eq_some_iff.mp hitem
  unfold scanOne propsRead
  by_cases hat : (at_ : Int) > toInt32 bufLen
  · rw [if_pos hat, if_pos hat]
    exact ⟨s₁, rfl, h⟩
  rw [if_neg hat, if_neg hat]
  cases hvbi : scanVbi rx (pbuf + at_) (wordDiff bufLen at_) with
  | error e => exact ⟨s₁, rfl, h⟩
  | ok r =>
    obtain ⟨id, n⟩ := r
    have htyped := h.write (fun x => {x with type := id})
    rw [Attempt.run_lift_bind rfl]
    dsimp only [bind, Except.bind]
    rw [Attempt.Prog.bind]
    dsimp only [writeProp]
    by_cases hid : id ≥ propMatrixSize
    · rw [if_pos hid, if_pos hid]
      exact ⟨_, rfl, htyped⟩
    rw [if_neg hid, if_neg hid]
    cases htype : PropType.ofNat? id with
    | none => exact ⟨_, rfl, htyped⟩
    | some type =>
      dsimp only
      by_cases hallowed : (!type.allowedIn packet) = true
      · rw [if_pos hallowed, if_pos hallowed]
        exact ⟨_, rfl, htyped⟩
      rw [if_neg hallowed, if_neg hallowed]
      by_cases hseen : (!propRepeats packet type && seen.has type) = true
      · rw [if_pos hseen, if_pos hseen]
        exact ⟨_, rfl, htyped⟩
      rw [if_neg hseen, if_neg hseen]
      cases hvalue : scanPropValue rx pbuf bufLen type (at_ + n) (wordDiff propLen n) with
      | error e => exact ⟨_, rfl, htyped⟩
      | ok v =>
        obtain ⟨p, k⟩ := v
        have hp : p.type.toNat = id := by
          rw [scanPropValue_type hvalue]
          exact PropType.toNat_of_ofNat? htype
        have hpos : id ≠ 0 := by
          rw [← hp]
          cases p.type <;> decide
        have hone : (s₁.write i fun x => {x with type := id}).pool[i]? = some {c with item := {c.item with type := id}} := by
          rw [PropState.write, List.getElem?_modify_eq, hc]
          rfl
        have htwo : ((s₁.write i fun x => {x with type := id}).write i fun x => {x with value := some p}).pool[i]? =
            some {c with item := .of p} := by
          rw [PropState.write, List.getElem?_modify_eq, hone, PropItem.of, hp]
          rfl
        refine ⟨_, rfl, htyped.write fun x => {x with value := some p}, ?_, ?_⟩
        · rw [htwo]
          rfl
        · rw [room_write hone, room_write hc]
          · rw [hfresh]
            simp [PropItem.isFree, hpos]
          · simp [PropItem.isFree]

/-- The loop decides as `scanPropsLoop` does, and the elements it has added hold the properties. -/
theorem propsLoop_spec {w : Whose} {packet : PacketType} {rx : Bytes} {pbuf bufLen : Nat} (left : Nat) {seen : SeenBits}
    {at_ propLen : Nat} {l : List Nat} {s : PropState} (h : Linked s.pool (s.head w) l) (hused : ∀ i ∈ l, Used s.pool i) :
    match scanPropsLoop packet rx pbuf bufLen seen s.room at_ propLen left with
    | .error e => ∃ new s', propsLoop w packet rx pbuf bufLen left seen at_ propLen s = (.error e, s') ∧ Grows w l new s s'
    | .ok r => ∃ new s', propsLoop w packet rx pbuf bufLen left seen at_ propLen s = (.ok r.2, s') ∧ Grows w l new s s' ∧
        new.map (fun i => s'.pool[i]?.map Cell.item) = r.1.map fun v => some (.of v) := by
  induction left generalizing seen at_ propLen l s with
  | zero =>
    rw [scanPropsLoop, propsLoop]
    by_cases hmore : toInt32 propLen > 0
    · rw [if_pos hmore, if_pos hmore]
      exact ⟨[], s, rfl, .refl h⟩
    · rw [if_neg hmore, if_neg hmore]
      exact ⟨[], s, rfl, .refl h, rfl⟩
  | succ left ih =>
    rw [scanPropsLoop_succ, propsLoop]
    by_cases hdone : ¬toInt32 propLen > 0
    · rw [if_pos hdone, if_pos hdone]
      exact ⟨[], s, rfl, .refl h, rfl⟩
    rw [if_neg hdone, if_neg hdone]
    rcases propsAdd_spec h hused with ⟨hroom, hadd⟩ | ⟨i, s₁, hadd, hgrows, hitem, hroom⟩
    · rw [if_pos hroom, Attempt.run_bind_ok hadd]
      exact ⟨[], s, rfl, .refl h⟩
    · rw [if_neg (by omega), Attempt.run_bind_ok hadd]
      dsimp only
      have hread (x) (hx : scanOne packet rx pbuf bufLen seen at_ propLen = x) := hx ▸ propsRead_spec hgrows hitem
      cases hone : scanOne packet rx pbuf bufLen seen at_ propLen with
      | error e =>
        obtain ⟨s₂, hrun, hgrows₂⟩ := hread _ hone
        rw [Attempt.run_bind_error hrun]
        exact ⟨[i], s₂, rfl, hgrows₂⟩
      | ok r =>
        obtain ⟨s₂, hrun, hgrows₂, hitem₂, hroom₂⟩ := hread _ hone
        rw [Attempt.run_bind_ok hrun]
        obtain ⟨p, seen', at', propLen'⟩ := r
        have hmember : Used s₂.pool i := by
          obtain ⟨c, hc, hof⟩ := Option.map_eq_some_iff.mp hitem₂
          refine ⟨c, hc, ?_⟩
          rw [hof]
          cases p with
          | mk type =>
            cases type <;> rfl
        have hused₂ : ∀ j ∈ l ++ [i], Used s₂.pool j := by
          intro j hj
          rcases List.mem_append.mp hj with hj | hj
          · have hfree := fun hfree => (hused j hj).not_free (hgrows₂.fresh j hfree)
            exact (hused j hj).congr (hgrows₂.items j hfree)
          · rw [List.mem_singleton.mp hj]
            exact hmember
        have hrest := @ih seen' at' propLen' _ _ hgrows₂.linked hused₂
        have hleft : s₂.room = s.room - 1 := by omega
        rw [hleft] at hrest
        rw [Agree.ok_bind]
        dsimp only
        cases hscan : scanPropsLoop packet rx pbuf bufLen seen' (s.room - 1) at' propLen' left with
        | error e =>
          rw [hscan] at hrest
          obtain ⟨new, s₃, hrun₃, hgrows₃⟩ := hrest
          exact ⟨i :: new, s₃, hrun₃, hgrows₂.cons hmember hgrows₃⟩
        | ok rest =>
          rw [hscan] at hrest
          obtain ⟨new, s₃, hrun₃, hgrows₃, hvalues⟩ := hrest
          refine ⟨i :: new, s₃, hrun₃, hgrows₂.cons hmember hgrows₃, ?_⟩
          have hnot : i ∉ new := fun hnew => hmember.not_free (hgrows₃.fresh i hnew)
          rw [List.map_cons, hgrows₃.items i hnot, hitem₂, hvalues]
          rfl

/-! ### The whole list -/

theorem views_of_items {w : Whose} {s : PropState} {l : List Nat} {vs : List PropView} (h : Linked s.pool (s.head w) l)
    (hvalues : l.map (fun i => s.pool[i]?.map Cell.item) = vs.map fun v => some (PropItem.of v)) : s.views w = vs := by
  have hitems := Pool.items_eq h h.length_le
  rw [hvalues] at hitems
  have hsame : Pool.items s.pool s.pool.length (s.head w) = vs.map PropItem.of := by
    refine List.map_injective_iff.mpr (Option.some_injective _) ?_
    rw [hitems, List.map_map]
    rfl
  rw [PropState.views, hsame, List.filterMap_map]
  exact List.filterMap_some

/-- A list that is given back: its elements are free again, and no other has changed. -/
structure Frees (w : Whose) (l : List Nat) (s s' : PropState) : Prop where
  null : s'.head w = none
  free : ∀ i ∈ l, Free s'.pool i
  frame : ∀ i ∉ l, s'.pool[i]? = s.pool[i]?
  other : ∀ v ≠ w, s'.head v = s.head v
  length : s'.pool.length = s.pool.length

theorem freeProps_spec {w : Whose} {s : PropState} {l : List Nat} (h : Linked s.pool (s.head w) l) :
    ∃ s', freeProps w s = (.ok (), s') ∧ Frees w l s s' := by
  refine ⟨_, rfl, ?_⟩
  have hget := Pool.release_getElem? (f := fun x : PropItem => {x with type := 0}) h h.length_le
  constructor
  · exact PropState.head_setHead_self w none _
  · intro i hi
    have hlt := h.lt i hi
    refine ⟨{s.pool[i] with item := {s.pool[i].item with type := 0}}, ?_, rfl⟩
    rw [PropState.pool_setHead, hget, if_pos hi, List.getElem?_eq_getElem hlt]
    rfl
  · intro i hi
    rw [PropState.pool_setHead, hget, if_neg hi]
  · intro v hv
    rw [PropState.head_setHead_ne hv]
    cases v <;> rfl
  · rw [PropState.pool_setHead, Pool.release_length]

/-- `MqttDecode_Props` decides as `scanProps` does with as many properties as are free. When it fails, all that
it has taken is free again. -/
theorem decodePropsM_spec {w : Whose} {packet : PacketType} {rx : Bytes} {pbuf bufLen propLen : Nat} {s : PropState}
    (hnull : s.head w = none) :
    match scanProps packet s.room rx pbuf bufLen propLen with
    | .error e => ∃ new s₁ s', decodePropsM w packet rx pbuf bufLen propLen s = (.error e, s') ∧
        Grows w [] new s s₁ ∧ Frees w new s₁ s'
    | .ok r => ∃ new s', decodePropsM w packet rx pbuf bufLen propLen s = (.ok r.2, s') ∧ Grows w [] new s s' ∧
        s'.views w = r.1 ∧ new.map (fun i => s'.pool[i]?.map Cell.item) = r.1.map fun v => some (.of v) := by
  have hloop := @propsLoop_spec w packet rx pbuf bufLen maxProps {} 0 propLen [] s hnull (by simp)
  rw [scanProps]
  cases hscan : scanPropsLoop packet rx pbuf bufLen {} s.room 0 propLen maxProps with
  | error e =>
    rw [hscan] at hloop
    obtain ⟨new, s₁, hrun, hgrows⟩ := hloop
    obtain ⟨s', hfree, hfrees⟩ := freeProps_spec hgrows.linked
    refine ⟨new, s₁, s', ?_, hgrows, hfrees⟩
    rw [decodePropsM, onError, Attempt.run_bind_error hrun]
    dsimp only
    rw [hfree]
  | ok r =>
    rw [hscan] at hloop
    obtain ⟨new, s₁, hrun, hgrows, hvalues⟩ := hloop
    obtain ⟨vs, total⟩ := r
    have hviews : s₁.views w = vs := views_of_items hgrows.linked hvalues
    rw [Agree.ok_bind]
    dsimp only
    by_cases hauth : (vs.any (·.type = .authData) && !vs.any (·.type = .authMethod)) = true
    · rw [if_pos hauth]
      obtain ⟨s', hfree, hfrees⟩ := freeProps_spec hgrows.linked
      refine ⟨new, s₁, s', ?_, hgrows, hfrees⟩
      rw [decodePropsM, onError, Attempt.run_bind_ok hrun, Attempt.run_bind_ok (show viewProps w s₁ = (.ok vs, s₁) by
        rw [viewProps, hviews]), if_pos hauth]
      dsimp only [fail, lift]
      rw [hfree]
    · rw [if_neg hauth]
      refine ⟨new, s₁, ?_, hgrows, hviews, hvalues⟩
      rw [decodePropsM, onError, Attempt.run_bind_ok hrun, Attempt.run_bind_ok (show viewProps w s₁ = (.ok vs, s₁) by
        rw [viewProps, hviews]), if_neg hauth]
      rfl

end WolfMqtt
