import WolfMqtt.Broker.Retained
import WolfMqtt.Lib.Ledger
import WolfMqtt.Lib.Moves

/-! The retained store as a bounded map from topics to messages.

Four functions work on the store. A build says what they do to the messages it keeps
(`RetainedBuild`), and a ledger records what was done, so that both builds are held to
one specification (`BoundedMap`). Here is the build that allocates its messages: a list
with a count beside it. -/
namespace WolfMqtt.Broker
open Ledger

/-! ### Calls -/

/-- A call into the retained store. -/
inductive RetainedCall where
  | store (topic payload : Bytes) (qos : QoS) (expirySec : Nat)
  | delete (topic : Bytes)
  | reapExpired (now : Nat)
  | deliverToClient (a : Nat) (filter : Bytes) (subQos : QoS)
deriving Repr, DecidableEq

/-- What a call did to the store: by its result, and the clock as it found it. A message is
stored with the second reading of a Store. -/
def RetainedCall.deed (env : Env) (rc : Int) : RetainedCall → Deed Bytes RetainedMsg Nat
  | store topic payload qos expirySec =>
    if rc = Code.success then
      .put env.getTime.1 {topic, payload, storeTime := env.getTime.2.getTime.1, expirySec, qos}
    else .look env.getTime.1
  | delete topic => .erase topic
  | reapExpired now => .look now
  | deliverToClient _ _ _ => .look env.getTime.1

section deed
variable {env : Env} {rc : Int} {topic payload : Bytes} {qos : QoS} {expirySec : Nat}

theorem RetainedCall.deed_stored (h : rc = Code.success) : (store topic payload qos expirySec).deed env rc =
    .put env.getTime.1 {topic, payload, storeTime := env.getTime.2.getTime.1, expirySec, qos} := if_pos h

theorem RetainedCall.deed_failed (h : rc ≠ Code.success) :
    (store topic payload qos expirySec).deed env rc = .look env.getTime.1 := if_neg h

end deed

/-- The retained store of one build. -/
structure RetainedBuild (σ : Type) where
  env : σ → Env
  entries : σ → List RetainedMsg
  /-- An empty store. -/
  Empty : Limits → σ → Prop
  exec : Limits → RetainedCall → σ → Int × σ
  /-- The rest of the broker does not touch the store. -/
  Elsewhere : σ → σ → Prop
  /-- Nothing but the capacity of the store stands in the way of storing this message. -/
  Unhindered : Limits → Bytes → Bytes → σ → Prop

/-- The states a store can be in between two calls, with the ledger of the calls so far. -/
inductive Calls {σ : Type} (B : RetainedBuild σ) (L : Limits) : List (Deed Bytes RetainedMsg Nat) → σ → Prop
  | empty {s : σ} (h : B.Empty L s) : Calls B L [] s
  | call {ledger : List (Deed Bytes RetainedMsg Nat)} {s : σ} (h : Calls B L ledger s) (c : RetainedCall) :
      Calls B L (c.deed (B.env s) (B.exec L c s).1 :: ledger) (B.exec L c s).2
  | elsewhere {ledger : List (Deed Bytes RetainedMsg Nat)} {s s' : σ} (h : Calls B L ledger s) (he : B.Elsewhere s s') :
      Calls B L ledger s'

/-- The store is a map from topics to messages with room for `maxRetained`: what it holds is what
the ledger says, a Store that fails only drops expired messages, and one for a new topic
fails for want of room only when the store is full of unexpired messages. -/
structure BoundedMap {σ : Type} (B : RetainedBuild σ) (L : Limits) (ledger : List (Deed Bytes RetainedMsg Nat)) (s : σ) :
    Prop where
  tells : Tells RetainedMsg.topic (fun now m => retainedExpired now m = true) ledger (B.entries s)
  bounded : (B.entries s).length ≤ L.maxRetained
  failed : ∀ topic payload qos expirySec, (B.exec L (.store topic payload qos expirySec) s).1 ≠ Code.success →
    ∀ m, m ∈ B.entries (B.exec L (.store topic payload qos expirySec) s).2 ↔
      m ∈ B.entries s ∧ retainedExpired (B.env s).getTime.1 m = false
  capacity : ∀ topic payload qos expirySec, (B.exec L (.store topic payload qos expirySec) s).1 ≠ Code.success →
    B.Unhindered L topic payload s →
    ((B.entries s).filter (fun m => !retainedExpired (B.env s).getTime.1 m)).length = L.maxRetained

/-! ### The store on the heap -/

def RetainedCall.exec (L : Limits) : RetainedCall → BrokerM Int
  | store topic payload qos expirySec => retainedStore L topic payload qos expirySec
  | delete topic => do
    retainedDelete topic
    return Code.success
  | reapExpired now => do
    retainedReapExpired now
    return Code.success
  | deliverToClient a filter subQos => retainedDeliverToClient L a filter subQos

/-- The dynamic-memory build: a store is unhindered when no allocation fails. -/
def heapRetained : RetainedBuild MqttBroker where
  env b := b.env
  entries b := b.retained
  Empty _ b := b.retained = [] ∧ b.retainedCount = 0
  exec L c b := c.exec L b
  Elsewhere b b' := b'.retained = b.retained ∧ b'.retainedCount = b.retainedCount
  Unhindered _ _ _ b := ∀ ok ∈ b.env.allocs, ok = true

/-- Its list and its count. -/
structure RetainedOk (L : Limits) (b : MqttBroker) : Prop where
  unique : b.retained.Pairwise (fun x y => x.topic ≠ y.topic)
  count : b.retainedCount = b.retained.length
  bounded : b.retained.length ≤ L.maxRetained

section heap
variable {L : Limits} {b : MqttBroker}

/-- What is left of the messages at a time. -/
def unexpired (now : Nat) (msgs : List RetainedMsg) : List RetainedMsg := msgs.filter (fun m => !retainedExpired now m)

theorem mem_unexpired {now : Nat} {msgs : List RetainedMsg} {m : RetainedMsg} :
    m ∈ unexpired now msgs ↔ m ∈ msgs ∧ retainedExpired now m = false := by
  simp [unexpired]

theorem RetainedOk.of_sublist (h : RetainedOk L b) {b' : MqttBroker} (hsub : b'.retained.Sublist b.retained)
    (hcount : b'.retainedCount = b'.retained.length) : RetainedOk L b' :=
  ⟨h.unique.sublist hsub, hcount, Nat.le_trans hsub.length_le h.bounded⟩

/-! ### Reaping and deleting -/

theorem retainedReapExpired_ok (h : RetainedOk L b) (now : Nat) : RetainedOk L (retainedReapExpired now b).2 := by
  refine h.of_sublist List.filter_sublist ?_
  have hsplit := List.length_eq_length_filter_add (l := b.retained) (retainedExpired now)
  show max (b.retainedCount - ((b.retained.filter (retainedExpired now)).length : Int)) (min b.retainedCount 0) =
    ((b.retained.filter (fun m => !retainedExpired now m)).length : Int)
  rw [h.count]
  omega

theorem retainedDelete_ok (h : RetainedOk L b) (topic : Bytes) : RetainedOk L (retainedDelete topic b).2 ∧
    (retainedDelete topic b).2.retained = b.retained.filter (fun m => m.topic ≠ topic) := by
  have herase := eraseP_key h.unique topic
  show RetainedOk L (whenDo (b.retained.any (fun m => m.topic = topic)) _ b).2 ∧
    (whenDo (b.retained.any (fun m => m.topic = topic)) _ b).2.retained = _
  unfold whenDo
  by_cases hany : (b.retained.any (fun m => m.topic = topic)) = true
  · rw [if_pos hany]
    refine ⟨h.of_sublist List.eraseP_sublist ?_, herase⟩
    have hlen : (b.retained.eraseP (fun m => m.topic = topic)).length = b.retained.length - 1 := by
      rw [List.length_eraseP, if_pos hany]
    have hpos : 0 < b.retained.length := by
      obtain ⟨m, hm, -⟩ := List.any_eq_true.mp hany
      exact List.length_pos_of_mem hm
    show (if b.retainedCount > 0 then b.retainedCount - 1 else b.retainedCount) =
      ((b.retained.eraseP (fun m => m.topic = topic)).length : Int)
    rw [hlen, h.count]
    split <;> omega
  · rw [if_neg hany]
    refine ⟨h, ?_⟩
    rw [← herase, List.eraseP_of_forall_not]
    · rfl
    · intro m hm hm'
      exact hany (List.any_eq_true.mpr ⟨m, hm, hm'⟩)

/-! ### Storing -/

theorem Env.getTime_congr {env env' : Env} (hclock : env'.clock = env.clock) (hnow : env'.now = env.now) :
    env'.getTime.1 = env.getTime.1 := by
  unfold Env.getTime
  rw [hclock]
  cases env.clock with
  | nil => exact hnow
  | cons t rest => rfl

theorem alloc_clock (env : Env) : env.alloc.2.getTime.1 = env.getTime.1 ∧
    ((∀ ok ∈ env.allocs, ok = true) → env.alloc.1.isSome ∧ ∀ ok ∈ env.alloc.2.allocs, ok = true) := by
  unfold Env.alloc Env.getTime
  cases hallocs : env.allocs with
  | nil =>
    refine ⟨by split <;> simp_all, fun h => ⟨rfl, ?_⟩⟩
    simp
  | cons ok rest =>
    cases ok with
    | true => exact ⟨by split <;> simp_all, fun h => ⟨rfl, fun x hx => h x (List.mem_cons_of_mem _ hx)⟩⟩
    | false => exact ⟨by split <;> simp_all, fun h => absurd (h false List.mem_cons_self) (by decide)⟩

/-- Allocations leave the store and the clock alone, and fail only if one of them does. -/
theorem allocAll_spec (n : Nat) (b : MqttBroker) : ∃ env, (allocAll n b).2 = {b with env := env} ∧
    env.getTime.1 = b.env.getTime.1 ∧ ((∀ ok ∈ b.env.allocs, ok = true) → (allocAll n b).1 = true) := by
  induction n generalizing b with
  | zero => exact ⟨b.env, rfl, rfl, fun _ => rfl⟩
  | succ n ih =>
    obtain ⟨hclock, hall⟩ := alloc_clock b.env
    have hrun : alloc b = (b.env.alloc.1, {b with env := b.env.alloc.2}) := rfl
    simp only [allocAll, run_bind, hrun]
    cases hres : b.env.alloc.1 with
    | none =>
      refine ⟨b.env.alloc.2, rfl, hclock, fun h => ?_⟩
      have hsome := (hall h).1
      rw [hres] at hsome
      cases hsome
    | some slot =>
      obtain ⟨env, hstate, htime, hok⟩ := ih {b with env := b.env.alloc.2}
      exact ⟨env, hstate, htime.trans hclock, fun h => hok (hall h).2⟩

theorem mem_retainedPut {msgs : List RetainedMsg} (h : msgs.Pairwise (fun x y => x.topic ≠ y.topic)) (m x : RetainedMsg) :
    x ∈ retainedPut m msgs ↔ x = m ∨ x ∈ msgs ∧ x.topic ≠ m.topic := by
  unfold retainedPut
  split
  · rename_i hany
    refine mem_replaceF_key h ?_ x
    simpa using hany
  · rename_i hany
    have hnew : ∀ y ∈ msgs, y.topic ≠ m.topic := by simpa using hany
    rw [List.mem_cons]
    exact or_congr_right ⟨fun hx => ⟨hx, hnew x hx⟩, And.left⟩

theorem retainedPut_unique {msgs : List RetainedMsg} (h : msgs.Pairwise (fun x y => x.topic ≠ y.topic)) (m : RetainedMsg) :
    (retainedPut m msgs).Pairwise (fun x y => x.topic ≠ y.topic) := by
  unfold retainedPut
  split
  · have hkeys := List.pairwise_map.mpr h
    rw [← map_key_replaceF msgs m] at hkeys
    exact List.pairwise_map.mp hkeys
  · rename_i hany
    refine List.pairwise_cons.mpr ⟨fun y hy => ?_, h⟩
    have hnew : ∀ y ∈ msgs, y.topic ≠ m.topic := by simpa using hany
    exact (hnew y hy).symm

/-- The store with a message in it. -/
def MqttBroker.retain (b : MqttBroker) (m : RetainedMsg) (known : Bool) : MqttBroker :=
  {b with retained := retainedPut m b.retained, retainedCount := if known then b.retainedCount else b.retainedCount + 1}

theorem retainedInsert_eq (L : Limits) (topic payload : Bytes) (qos : QoS) (expirySec : Nat) (b : MqttBroker) :
    retainedInsert L topic payload qos expirySec b =
      let known := b.retained.any (fun m => m.topic = topic)
      if !known ∧ b.retainedCount ≥ L.maxRetained then (Code.memory, b)
      else
        let r := allocAll (retainedAllocs known payload) b
        if !r.1 then (Code.memory, r.2)
        else
          let m : RetainedMsg := {topic, payload, storeTime := r.2.env.getTime.1, expirySec, qos}
          (Code.success, (persistOps [.putRetained m] (({r.2 with env := r.2.env.getTime.2} : MqttBroker).retain m known)).2) := by
  show ((if _ then _ else _ : BrokerM Int) b) = _
  dsimp only
  by_cases hfull : (!b.retained.any (fun m => m.topic = topic)) = true ∧ b.retainedCount ≥ L.maxRetained
  · rw [if_pos hfull, if_pos hfull]
    rfl
  · rw [if_neg hfull, if_neg hfull]
    show ((if _ then _ else _ : BrokerM Int) (allocAll _ b).2) = _
    generalize allocAll (retainedAllocs (b.retained.any (fun m => m.topic = topic)) payload) b = r
    by_cases hok : (!r.1) = true
    · rw [if_pos hok, if_pos hok]
      rfl
    · rw [if_neg hok, if_neg hok]
      rfl

theorem MqttBroker.retain_ok (h : RetainedOk L b) (m : RetainedMsg)
    (hroom : ¬((!b.retained.any (fun x => x.topic = m.topic)) = true ∧ b.retainedCount ≥ L.maxRetained)) :
    RetainedOk L (b.retain m (b.retained.any (fun x => x.topic = m.topic))) := by
  have hcount := h.count
  have hbounded := h.bounded
  refine ⟨retainedPut_unique h.unique m, ?_, ?_⟩ <;>
    simp only [MqttBroker.retain, retainedPut] <;>
    cases hknown : b.retained.any (fun x => x.topic = m.topic) <;>
    simp only [hknown, Bool.not_true, Bool.not_false, Bool.false_eq_true, true_and, false_and, not_false_eq_true,
      if_true, if_false, List.length_cons, List.length_replaceF] at hroom ⊢ <;>
    omega

/-- A Store either fails, when it drops expired messages only and some allocation failed or the
store is full; or it puts its message in. -/
theorem retainedStore_cases (h : RetainedOk L b) (topic payload : Bytes) (qos : QoS) (expirySec : Nat) :
    ((retainedStore L topic payload qos expirySec b).1 ≠ Code.success ∧
      RetainedOk L (retainedStore L topic payload qos expirySec b).2 ∧
      (retainedStore L topic payload qos expirySec b).2.retained = unexpired b.env.getTime.1 b.retained ∧
      ((∀ ok ∈ b.env.allocs, ok = true) → (unexpired b.env.getTime.1 b.retained).length = L.maxRetained)) ∨
    ((retainedStore L topic payload qos expirySec b).1 = Code.success ∧
      RetainedOk L (retainedStore L topic payload qos expirySec b).2 ∧
      (retainedStore L topic payload qos expirySec b).2.retained =
        retainedPut {topic, payload, storeTime := b.env.getTime.2.getTime.1, expirySec, qos}
          (unexpired b.env.getTime.1 b.retained)) := by
  have heq : retainedStore L topic payload qos expirySec b = retainedInsert L topic payload qos expirySec
    (retainedReapExpired b.env.getTime.1 {b with env := b.env.getTime.2}).2 := rfl
  rw [heq, retainedInsert_eq]
  have hreap := retainedReapExpired_ok (b := {b with env := b.env.getTime.2}) ⟨h.unique, h.count, h.bounded⟩ b.env.getTime.1
  have hkept : (retainedReapExpired b.env.getTime.1 {b with env := b.env.getTime.2}).2.retained =
      unexpired b.env.getTime.1 b.retained := rfl
  have hallocs : (retainedReapExpired b.env.getTime.1 {b with env := b.env.getTime.2}).2.env.allocs = b.env.allocs := by
    show b.env.getTime.2.allocs = b.env.allocs
    unfold Env.getTime
    split <;> rfl
  have htime : (retainedReapExpired b.env.getTime.1 {b with env := b.env.getTime.2}).2.env.getTime.1 =
      b.env.getTime.2.getTime.1 := Env.getTime_congr rfl rfl
  generalize (retainedReapExpired b.env.getTime.1 {b with env := b.env.getTime.2}).2 = b₁ at hreap hkept hallocs htime ⊢
  dsimp only
  split
  · rename_i hfull
    refine .inl ⟨?_, hreap, hkept, fun _ => ?_⟩
    · show Code.memory ≠ Code.success
      decide
    have hbounded := hreap.bounded
    have hcount := hreap.count
    rw [← hkept]
    omega
  · rename_i hroom
    obtain ⟨env, hstate, hclock, hok⟩ := allocAll_spec (retainedAllocs (b₁.retained.any (fun m => m.topic = topic)) payload) b₁
    generalize allocAll (retainedAllocs (b₁.retained.any (fun m => m.topic = topic)) payload) b₁ = r at hstate hok ⊢
    obtain ⟨ok, b₂⟩ := r
    dsimp only at hstate hok ⊢
    subst hstate
    cases ok with
    | false =>
      refine .inl ⟨?_, ⟨hreap.unique, hreap.count, hreap.bounded⟩, hkept, fun hall => ?_⟩
      · show Code.memory ≠ Code.success
        decide
      exact absurd (hok (hallocs ▸ hall)) (by decide)
    | true =>
      refine .inr ⟨rfl, ?_, ?_⟩
      · have hput := MqttBroker.retain_ok (b := {b₁ with env := env.getTime.2}) ⟨hreap.unique, hreap.count, hreap.bounded⟩
          {topic, payload, storeTime := env.getTime.1, expirySec, qos} hroom
        exact ⟨hput.unique, hput.count, hput.bounded⟩
      · show retainedPut {topic, payload, storeTime := env.getTime.1, expirySec, qos} b₁.retained = _
        rw [hclock, htime, hkept]

/-! ### Delivering -/

/-- The store is left alone. -/
def SameRetained : MqttBroker → MqttBroker → Prop := InvImage Eq (fun b => (b.retained, b.retainedCount))

instance : IsPreorder MqttBroker SameRetained := inferInstanceAs (IsPreorder MqttBroker (InvImage Eq _))

theorem onClient_sameRetained {α : Type} (a : Nat) (default : α) (m : ClientM α) :
    Moves SameRetained (onClient a default m) := by
  intro b
  unfold onClient
  split <;> rfl

theorem nextPacketIdForQueue_sameRetained (outQ : List OutPub) : Moves SameRetained (nextPacketIdForQueue outQ) := by
  intro b
  unfold nextPacketIdForQueue
  dsimp only
  split <;> rfl

theorem enqueueFor_sameRetained (a : Nat) (topic payload : Bytes) (props : List MqttProp) (qos : QoS) (retain : Bool) :
    Moves SameRetained (enqueueFor a topic payload props qos retain) := by
  have halloc : Moves SameRetained alloc := fun _ => rfl
  refine .bind halloc fun slot => ?_
  cases slot with
  | none => exact .pure _
  | some slot =>
    refine .get_bind fun b => ?_
    cases b.client? a with
    | none => exact refl b
    | some c =>
      refine Moves.ite (fun _ => ?_) (fun _ => ?_) b
      · exact .bind (onClient_sameRetained _ _ _) fun _ => .pure _
      · refine .bind (nextPacketIdForQueue_sameRetained _) fun id => .ite (fun _ => .pure _) fun _ => ?_
        exact .bind (onClient_sameRetained _ _ _) fun _ => .pure _

theorem retainedDeliverOne_sameRetained (a : Nat) (m : RetainedMsg) (subQos : QoS) :
    Moves SameRetained (retainedDeliverOne L a m subQos) := by
  refine .get_bind fun b => ?_
  cases b.client? a with
  | none => exact refl b
  | some c =>
    refine Moves.ite (fun _ => ?_) (fun _ => enqueueFor_sameRetained _ _ _ _ _ _) b
    exact .bind (onClient_sameRetained _ _ _) fun _ => .pure _

/-- Drop a message on the way. -/
def MqttBroker.dropRetained (b : MqttBroker) (m : RetainedMsg) : MqttBroker :=
  {b with retained := b.retained.eraseP (· = m)
          retainedCount := if b.retainedCount > 0 then b.retainedCount - 1 else b.retainedCount}

theorem MqttBroker.dropRetained_ok (h : RetainedOk L b) {m : RetainedMsg} (hm : m ∈ b.retained) :
    RetainedOk L (b.dropRetained m) ∧ ∀ x, x ∈ (b.dropRetained m).retained ↔ x ∈ b.retained ∧ x ≠ m := by
  have hunique : b.retained.Pairwise (fun x y => id x ≠ id y) := h.unique.imp fun hne heq => hne (congrArg _ heq)
  refine ⟨h.of_sublist List.eraseP_sublist ?_, fun x => ?_⟩
  · have hlen : (b.retained.eraseP (· = m)).length = b.retained.length - 1 :=
      List.length_eraseP_of_mem hm (decide_eq_true rfl)
    have hpos := List.length_pos_of_mem hm
    show (if b.retainedCount > 0 then b.retainedCount - 1 else b.retainedCount) = ((b.retained.eraseP (· = m)).length : Int)
    rw [hlen, h.count]
    split <;> omega
  · have herase : (b.dropRetained m).retained = b.retained.filter (fun x => x ≠ m) := eraseP_key hunique m
    rw [herase, List.mem_filter, decide_eq_true_iff]

/-- Delivery drops expired messages only, wherever it stops. -/
theorem retainedDeliverLoop_ok (a : Nat) (filter : Bytes) (subQos : QoS) (now : Nat) (ms : List RetainedMsg)
    (h : RetainedOk L b) (hms : ∀ m ∈ ms, m ∈ b.retained) (hunique : ms.Pairwise (fun x y => x.topic ≠ y.topic)) :
    RetainedOk L (retainedDeliverLoop L a filter subQos now ms b).2 ∧
      (retainedDeliverLoop L a filter subQos now ms b).2.retained.Sublist b.retained ∧
      ∀ m ∈ b.retained, m ∈ (retainedDeliverLoop L a filter subQos now ms b).2.retained ∨ retainedExpired now m = true := by
  induction ms generalizing b with
  | nil => exact ⟨h, List.Sublist.refl _, fun m hm => .inl hm⟩
  | cons m rest ih =>
    obtain ⟨hm, hrest⟩ := List.forall_mem_cons.mp hms
    obtain ⟨hne, hunique⟩ := List.pairwise_cons.mp hunique
    simp only [retainedDeliverLoop]
    by_cases hexp : retainedExpired now m = true
    · rw [if_pos hexp]
      let b₁ := (persistOps [.delRetained m.topic] b).2
      obtain ⟨hdrop, hmem⟩ := MqttBroker.dropRetained_ok (b := b₁) ⟨h.unique, h.count, h.bounded⟩ hm
      have hrest' : ∀ x ∈ rest, x ∈ (b₁.dropRetained m).retained := fun x hx =>
        (hmem x).mpr ⟨hrest x hx, fun heq => hne x hx (congrArg _ heq.symm)⟩
      obtain ⟨hok, hsub, hkept⟩ := ih hdrop hrest' hunique
      refine ⟨hok, hsub.trans List.eraseP_sublist, fun x hx => ?_⟩
      by_cases hxm : x = m
      · exact .inr (hxm ▸ hexp)
      · exact hkept x ((hmem x).mpr ⟨hx, hxm⟩)
    · rw [if_neg hexp]
      by_cases hmatch : topicMatch filter m.topic = true
      · rw [if_pos hmatch]
        have hsame : SameRetained b (retainedDeliverOne L a m subQos b).2 := retainedDeliverOne_sameRetained a m subQos b
        simp only [run_bind]
        generalize retainedDeliverOne L a m subQos b = r at hsame ⊢
        obtain ⟨rc, b₁⟩ := r
        obtain ⟨hretained, hcount⟩ := Prod.mk.inj hsame
        dsimp only at hretained hcount
        have h₁ : RetainedOk L b₁ := ⟨hretained ▸ h.unique, by rw [← hcount, ← hretained]; exact h.count, hretained ▸ h.bounded⟩
        dsimp only
        rw [hretained]
        by_cases hrc : rc ≠ Code.success
        · rw [if_pos hrc]
          exact ⟨h₁, List.Sublist.refl _, fun x hx => .inl hx⟩
        · rw [if_neg hrc]
          exact ih h₁ (hretained ▸ hrest) hunique
      · rw [if_neg hmatch]
        exact ih h hrest hunique

/-! ### The map -/

theorem heapRetained_call (h : RetainedOk L b) {ledger : List (Deed Bytes RetainedMsg Nat)}
    (htells : Tells RetainedMsg.topic (fun now m => retainedExpired now m = true) ledger b.retained) (c : RetainedCall) :
    RetainedOk L (c.exec L b).2 ∧ Tells RetainedMsg.topic (fun now m => retainedExpired now m = true)
      (c.deed b.env (c.exec L b).1 :: ledger) (c.exec L b).2.retained := by
  have hreaps : ∀ now, Tells RetainedMsg.topic (fun now m => retainedExpired now m = true) (.look now :: ledger)
      (unexpired now b.retained) := by
    refine fun now => htells.look now List.filter_sublist fun m hm => ?_
    rw [mem_unexpired]
    cases hexp : retainedExpired now m with
    | true => exact .inr rfl
    | false => exact .inl ⟨hm, rfl⟩
  cases c with
  | store topic payload qos expirySec =>
    show RetainedOk L (retainedStore L topic payload qos expirySec b).2 ∧ _
    rcases retainedStore_cases h topic payload qos expirySec with ⟨hrc, hok, hretained, -⟩ | ⟨hrc, hok, hretained⟩
    · refine ⟨hok, ?_⟩
      show Tells _ _ (RetainedCall.deed b.env (retainedStore L topic payload qos expirySec b).1 _ :: ledger)
        (retainedStore L topic payload qos expirySec b).2.retained
      rw [RetainedCall.deed_failed hrc, hretained]
      exact hreaps _
    · refine ⟨hok, ?_⟩
      show Tells _ _ (RetainedCall.deed b.env (retainedStore L topic payload qos expirySec b).1 _ :: ledger)
        (retainedStore L topic payload qos expirySec b).2.retained
      rw [RetainedCall.deed_stored hrc]
      refine htells.put _ _ hok.unique fun x => ?_
      have hunique : (unexpired b.env.getTime.1 b.retained).Pairwise (fun x y => x.topic ≠ y.topic) :=
        h.unique.sublist List.filter_sublist
      rw [hretained, mem_retainedPut hunique, mem_unexpired, and_assoc, Bool.not_eq_true]
  | delete topic =>
    obtain ⟨hok, hretained⟩ := retainedDelete_ok h topic
    refine ⟨hok, htells.erase topic hok.unique fun m => ?_⟩
    show m ∈ (retainedDelete topic b).2.retained ↔ _
    rw [hretained, List.mem_filter, decide_eq_true_iff]
  | reapExpired now => exact ⟨retainedReapExpired_ok h now, hreaps now⟩
  | deliverToClient a filter subQos =>
    obtain ⟨hok, hsub, hkept⟩ := retainedDeliverLoop_ok (b := {b with env := b.env.getTime.2}) a filter subQos b.env.getTime.1
      b.retained ⟨h.unique, h.count, h.bounded⟩ (fun m hm => hm) h.unique
    exact ⟨hok, htells.look _ hsub hkept⟩

theorem heapRetained_calls {ledger : List (Deed Bytes RetainedMsg Nat)} (h : Calls heapRetained L ledger b) :
    RetainedOk L b ∧ Tells RetainedMsg.topic (fun now m => retainedExpired now m = true) ledger b.retained := by
  induction h with
  | empty hempty =>
    obtain ⟨hnil, hzero⟩ := hempty
    refine ⟨⟨?_, ?_, ?_⟩, ?_⟩
    · rw [hnil]
      exact List.Pairwise.nil
    · rw [hnil, hzero]
      rfl
    · rw [hnil]
      exact Nat.zero_le _
    · rw [hnil]
      exact .nil
  | call _ c ih => exact heapRetained_call ih.1 ih.2 c
  | elsewhere _ he ih =>
    obtain ⟨hretained, hcount⟩ := he
    exact ⟨⟨hretained ▸ ih.1.unique, by rw [hcount, hretained]; exact ih.1.count, hretained ▸ ih.1.bounded⟩, hretained ▸ ih.2⟩

/-- The list is a bounded map, and the count is its length. -/
theorem heapRetained_boundedMap {ledger : List (Deed Bytes RetainedMsg Nat)} (h : Calls heapRetained L ledger b) :
    BoundedMap heapRetained L ledger b ∧ b.retainedCount = b.retained.length := by
  obtain ⟨hok, htells⟩ := heapRetained_calls h
  refine ⟨⟨htells, hok.bounded, fun topic payload qos expirySec hrc m => ?_, fun topic payload qos expirySec hrc hfree => ?_⟩,
    hok.count⟩
  · rcases retainedStore_cases hok topic payload qos expirySec with ⟨-, -, hretained, -⟩ | ⟨hrc', -⟩
    · show m ∈ (retainedStore L topic payload qos expirySec b).2.retained ↔ _
      rw [hretained]
      exact mem_unexpired
    · exact absurd hrc' hrc
  · rcases retainedStore_cases hok topic payload qos expirySec with ⟨-, -, -, hfull⟩ | ⟨hrc', -⟩
    · exact hfull hfree
    · exact absurd hrc' hrc

end heap

end WolfMqtt.Broker
