import WolfMqtt.Broker.Publish
import WolfMqtt.Broker.Retention
import WolfMqtt.Broker.Serve

/-! What a new subscription is sent of the retained messages.

The delivery puts its messages into the queue of the connection, all of them messages that
had not expired when it read the clock. -/
namespace WolfMqtt.Broker
open Ledger

/-- The message that a retained PUBLISH leaves in the store at a time. -/
def retainedOf (p : InPublish) (t : Nat) : RetainedMsg where
  topic := p.topicName
  payload := p.payload
  storeTime := t
  expirySec := ((findProp p.props .msgExpiryInterval).map (·.dataInt)).getD 0
  qos := p.qos

/-- The PUBLISH has a Message Expiry Interval, and this is it. -/
def CarriesExpiry (e : UInt32) (p : InPublish) : Prop :=
  (findProp p.props .msgExpiryInterval).map (·.dataInt) = some e.toNat

/-- The call that a retained PUBLISH with a payload makes. -/
def storeOfPublish (p : InPublish) : RetainedCall :=
  .store p.topicName p.payload p.qos (((findProp p.props .msgExpiryInterval).map (·.dataInt)).getD 0)

theorem retainPublish_call (L : Limits) {p : InPublish} (b : MqttBroker) (hlen : p.totalLen ≠ 0) :
    (retainPublish L p b).2 = ((storeOfPublish p).exec L b).2 := by
  rw [retainPublish, if_neg hlen]
  rfl

theorem storeOfPublish_deed (p : InPublish) (env : Env) : (storeOfPublish p).deed env Code.success =
    .put env.getTime.1 (retainedOf p env.getTime.2.getTime.1) := rfl

theorem CarriesExpiry.expirySec {e : UInt32} {p : InPublish} (h : CarriesExpiry e p) (t : Nat) :
    (retainedOf p t).expirySec = e.toNat := by
  show ((findProp p.props .msgExpiryInterval).map (·.dataInt)).getD 0 = e.toNat
  rw [h]
  rfl

/-! ### Queues -/

/-- An entry stands in the queue of a connection. -/
def InQueue (x : OutPub) (b : MqttBroker) : Prop := ∃ c ∈ b.clients, x ∈ c.outQ.chain

instance (x : OutPub) (b : MqttBroker) : Decidable (InQueue x b) :=
  inferInstanceAs (Decidable (∃ c ∈ b.clients, x ∈ c.outQ.chain))

/-- Whatever a queue has that none had before satisfies `P`. -/
def Gains (P : OutPub → Prop) (b b' : MqttBroker) : Prop := ∀ x, InQueue x b' → InQueue x b ∨ P x

section queues
variable {L : Limits} {P : OutPub → Prop}

instance : IsPreorder MqttBroker (Gains P) where
  refl _ _ h := .inl h
  trans _ _ _ h h' x hx := (h' x hx).elim (h x) .inr

/-- Nothing happens to the queues. -/
theorem gains_of_clients {b b' : MqttBroker} (h : b'.clients = b.clients) : Gains P b b' := by
  intro x hx
  rw [InQueue, h] at hx
  exact .inl hx

theorem mem_linkAfter {t : Nat} {e x : OutPub} {xs : List OutPub} (h : x ∈ TailQueue.linkAfter t e xs) : x ∈ xs ∨ x = e := by
  induction xs with
  | nil => cases h
  | cons y ys ih =>
    rw [TailQueue.linkAfter] at h
    split at h
    · rcases List.mem_cons.mp h with rfl | h
      · exact .inl List.mem_cons_self
      · exact .inr (List.mem_singleton.mp h)
    · rcases List.mem_cons.mp h with rfl | h
      · exact .inl List.mem_cons_self
      · exact (ih h).imp_left (List.mem_cons_of_mem _)

/-- An entry of a queue that another was appended to. -/
theorem mem_enqueue {q : TailQueue OutPub} {e x : OutPub} (h : x ∈ (q.enqueue e).chain) : x ∈ q.chain ∨ x = e := by
  unfold TailQueue.enqueue at h
  dsimp only at h
  split at h
  · exact .inr (List.mem_singleton.mp h)
  · exact mem_linkAfter h

/-- What is done to one connection gains what its queue does. -/
theorem onClient_gains {α : Type} (a : Nat) (default : α) {m : ClientM α}
    (hm : ∀ s, ∀ x ∈ (m s).2.c.outQ.chain, x ∈ s.c.outQ.chain ∨ P x) : Moves (Gains P) (onClient a default m) := by
  intro b
  unfold onClient
  cases hc : b.client? a with
  | none => exact refl b
  | some c =>
    rintro x ⟨c', hc', hx⟩
    rcases Chain.mem_writeAt hc' with hc' | ⟨_, -, rfl⟩
    · exact .inl ⟨c', hc', hx⟩
    · exact (hm _ x hx).imp_left fun h => ⟨c, Chain.at?_mem hc, h⟩

theorem quotaDisconnect_gains (a : Nat) : Moves (Gains P) (onClient a () (quotaDisconnect L)) := by
  refine onClient_gains a () fun s x hx => .inl ?_
  have hq := Writes.outQ (sendDisconnect_writes L Reason.quotaExceeded s)
  have hx : x ∈ (sendDisconnect L Reason.quotaExceeded s).2.c.outQ.chain := hx
  rwa [hq] at hx

/-- Whatever is queued for a connection is a message with this topic. -/
theorem enqueueFor_gains (a : Nat) (topic payload : Bytes) (props : List MqttProp) (qos : QoS) (retain : Bool) :
    Moves (Gains (·.topic = topic)) (enqueueFor a topic payload props qos retain) := by
  have hpush (e : OutPub) (he : e.topic = topic) : Moves (Gains (·.topic = topic)) (onClient a () (enqueueOutPub e)) := by
    refine onClient_gains a () fun s x (hx : x ∈ (s.c.outQ.enqueue e).chain) => (mem_enqueue hx).imp_right ?_
    rintro rfl
    exact he
  have halloc : Moves (Gains (·.topic = topic)) alloc := fun b => gains_of_clients rfl
  refine .bind halloc fun slot => ?_
  cases slot with
  | none => exact .pure _
  | some slot =>
    refine .get_bind fun b => ?_
    cases b.client? a with
    | none => exact refl b
    | some c =>
      refine Moves.ite (fun _ => ?_) (fun _ => ?_) b
      · exact .bind (hpush _ rfl) fun _ => .pure _
      · have hid : Moves (Gains (·.topic = topic)) (nextPacketIdForQueue c.outQ.chain) := by
          intro b
          unfold nextPacketIdForQueue
          dsimp only
          split <;> exact gains_of_clients rfl
        exact .bind hid fun id => .ite (fun _ => .pure _) fun _ => .bind (hpush _ rfl) fun _ => .pure _

/-- One retained message, in the queue or not. -/
theorem retainedDeliverOne_gains (a : Nat) (m : RetainedMsg) (subQos : QoS) :
    Moves (Gains (·.topic = m.topic)) (retainedDeliverOne L a m subQos) := by
  refine .get_bind fun b => ?_
  cases b.client? a with
  | none => exact refl b
  | some c =>
    refine Moves.ite (fun _ => ?_) (fun _ => enqueueFor_gains _ _ _ _ _ _) b
    exact .bind (quotaDisconnect_gains a) fun _ => .pure _

/-! ### The delivery -/

/-- Every message that is queued had not expired. -/
theorem retainedDeliverLoop_gains (a : Nat) (filter : Bytes) (subQos : QoS) (now : Nat) (ms : List RetainedMsg) :
    Moves (Gains (fun x => ∃ m ∈ ms, retainedExpired now m = false ∧ x.topic = m.topic))
      (retainedDeliverLoop L a filter subQos now ms) := by
  induction ms with
  | nil => exact .pure _
  | cons m rest ih =>
    have hrest : Moves (Gains (fun x => ∃ y ∈ m :: rest, retainedExpired now y = false ∧ x.topic = y.topic))
        (retainedDeliverLoop L a filter subQos now rest) := by
      refine ih.mono fun b b' h x hx => (h x hx).imp_right ?_
      rintro ⟨y, hy, hmsg⟩
      exact ⟨y, List.mem_cons_of_mem _ hy, hmsg⟩
    rw [retainedDeliverLoop]
    refine .ite (fun _ => ?_) fun hexp => .ite (fun _ => ?_) fun _ => hrest
    · exact .bind (fun _ => gains_of_clients rfl) fun _ => .bind (fun _ => gains_of_clients rfl) fun _ => hrest
    · have hone : Moves (Gains (fun x => ∃ y ∈ m :: rest, retainedExpired now y = false ∧ x.topic = y.topic))
          (retainedDeliverOne L a m subQos) :=
        (retainedDeliverOne_gains a m subQos).mono fun b b' h x hx =>
          (h x hx).imp_right fun htopic => ⟨m, List.mem_cons_self, Bool.not_eq_true _ ▸ hexp, htopic⟩
      exact .bind hone fun rc => .ite (fun _ => .pure _) fun _ => hrest

theorem retainedDeliverToClient_gains (a : Nat) (filter : Bytes) (subQos : QoS) (b : MqttBroker) :
    Gains (fun x => ∃ m ∈ b.retained, retainedExpired b.env.getTime.1 m = false ∧ x.topic = m.topic) b
      (retainedDeliverToClient L a filter subQos b).2 :=
  trans_of (Gains _) (gains_of_clients rfl)
    (retainedDeliverLoop_gains a filter subQos b.env.getTime.1 b.retained {b with env := b.env.getTime.2})

end queues

/-! ### Expiry -/

/-- A message has expired once its interval, not 0, is over. -/
theorem retainedExpired_iff {now : Nat} {m : RetainedMsg} :
    retainedExpired now m = true ↔ m.expirySec ≠ 0 ∧ m.storeTime + m.expirySec ≤ now := by
  simp only [retainedExpired, Bool.and_eq_true, decide_eq_true_eq]
  constructor
  · rintro ⟨⟨hpos, hle⟩, hover⟩
    exact ⟨by omega, by omega⟩
  · rintro ⟨hpos, hover⟩
    exact ⟨⟨by omega, by omega⟩, by omega⟩

/-- Once the interval of a message is over, nothing with its topic is queued. -/
theorem retainedDeliverToClient_expired {L : Limits} {b : MqttBroker} {ledger : List (Deed Bytes RetainedMsg Nat)}
    (h : Calls heapRetained L ledger b) {m : RetainedMsg} (hm : lastPut RetainedMsg.topic ledger m.topic = some m)
    (hexp : retainedExpired b.env.getTime.1 m = true) (a : Nat) (filter : Bytes) (subQos : QoS) :
    Gains (·.topic ≠ m.topic) b (retainedDeliverToClient L a filter subQos b).2 := by
  refine fun x hx => (retainedDeliverToClient_gains a filter subQos b x hx).imp_right ?_
  rintro ⟨y, hy, hfresh, htopic⟩ heq
  have hlast := (heapRetained_calls h).2.sound y hy
  rw [← htopic, heq, hm] at hlast
  cases hlast
  rw [hexp] at hfresh
  cases hfresh

end WolfMqtt.Broker
