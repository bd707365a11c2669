import WolfMqtt.Broker.Reach
import WolfMqtt.Persist.Record

/-! The stored subscriptions of a client when its SUBSCRIBE or UNSUBSCRIBE is acknowledged.

The handlers write the record once the acknowledgement is out, if the transport takes it at
once. A deferred acknowledgement is finished by `resumeDirect`, which writes no record. -/
namespace WolfMqtt.Persist

open Broker

/-! ### The record of a client -/

/-- The subscriptions that stand under a client id. -/
def subsOf (b : MqttBroker) (clientId : Bytes) : List BrokerSub := b.subs.filter (fun s => s.clientId = some clientId)

/-- The store that the broker's calls have left. -/
def storeOf (b : MqttBroker) : Kv := applyOps b.env.persist freshStore

def kvGet (ns : Ns) (key : Bytes) (kv : Kv) : Option Bytes := ((kv ns).find? (fun r => r.1 = key)).map Prod.snd

/-- The stored record is that of the subscriptions in memory; there is none if there are none. -/
def SubsStored (b : MqttBroker) (clientId : Bytes) : Prop :=
  kvGet .subs clientId (storeOf b) =
    if subsOf b clientId = [] then none else some (frameRecord .subs (subsBody (subsOf b clientId)))

instance (b : MqttBroker) (clientId : Bytes) : Decidable (SubsStored b clientId) :=
  inferInstanceAs (Decidable (_ = _))

theorem kvGet_kvPut (ns : Ns) (key blob : Bytes) (kv : Kv) : kvGet ns key (kvPut ns key blob kv) = some blob := by
  have hnone : ((kv ns).filter (fun r => r.1 ≠ key)).find? (fun r => r.1 = key) = none := by
    refine List.find?_eq_none.mpr ?_
    intro r hr
    simpa using (List.mem_filter.mp hr).2
  rw [kvGet, kvPut, Function.update_self, List.find?_append, hnone]
  simp

theorem kvGet_kvDel (ns : Ns) (key : Bytes) (kv : Kv) : kvGet ns key (kvDel ns key kv) = none := by
  have hnone : ((kv ns).filter (fun r => r.1 ≠ key)).find? (fun r => r.1 = key) = none := by
    refine List.find?_eq_none.mpr ?_
    intro r hr
    simpa using (List.mem_filter.mp hr).2
  rw [kvGet, kvDel, Function.update_self, hnone]
  rfl

theorem storeOf_persistOps (op : PersistOp) (b : MqttBroker) : storeOf (persistOps [op] b).2 = applyOp op (storeOf b) := by
  show applyOps (b.env.persist ++ [op]) freshStore = _
  rw [applyOps, List.foldl_append]
  rfl

/-- `BrokerPersist_PutSubs` stores what is in memory. -/
theorem persistPutSubs_stored (b : MqttBroker) {clientId : Bytes} (hnamed : clientId ≠ []) (hlen : clientId.length ≤ 65535) :
    SubsStored (persistPutSubs clientId b).2 clientId := by
  have hmod : clientId.take (clientId.length % 65536) = clientId := by
    rw [Nat.mod_eq_of_lt (by omega), List.take_length]
  have hput (subs : List BrokerSub) (kv : Kv) (hsubs : subs ≠ []) :
      applyOp (.putSubs clientId subs) kv = kvPut .subs clientId (frameRecord .subs (subsBody subs)) kv := by
    show putSubs clientId subs kv = _
    rw [putSubs, if_neg (by simp only [hnamed, false_or]; omega), if_neg hsubs]
  have hdel (kv : Kv) : applyOp (.delSubs clientId) kv = kvDel .subs clientId kv := by
    show delSubs clientId kv = _
    rw [delSubs, hmod]
  rw [SubsStored]
  show kvGet .subs clientId (storeOf (persistOps
      [if (subsOf b clientId).isEmpty then .delSubs clientId else .putSubs clientId (subsOf b clientId)] b).2) =
    if subsOf b clientId = [] then none else some (frameRecord .subs (subsBody (subsOf b clientId)))
  rw [storeOf_persistOps]
  by_cases hsubs : subsOf b clientId = []
  · rw [if_pos (by rw [hsubs]; rfl), hdel, if_pos hsubs, kvGet_kvDel]
  · rw [if_neg (by simpa using hsubs), hput _ _ hsubs, if_neg hsubs, kvGet_kvPut]

/-- Once an acknowledgement is out, the record of a session that outlives its connection is up to date. -/
theorem storeSubs_stored {b : MqttBroker} {a : Nat} {rc : Int} {c : BrokerClient} {clientId : Bytes}
    (hc : (storeSubs a rc b).2.client? a = some c) (hid : c.clientId = some clientId) (hexp : c.sessionExpirySec ≠ 0)
    (hrc : rc > 0) (hnamed : clientId ≠ []) (hlen : clientId.length ≤ 65535) :
    SubsStored (storeSubs a rc b).2 clientId := by
  unfold storeSubs at hc ⊢
  rw [run_bind, run_get] at hc ⊢
  cases hb : b.client? a with
  | none =>
    simp only [hb, run_pure] at hc
    cases hc
  | some c₀ =>
    simp only [hb] at hc ⊢
    cases hid₀ : c₀.clientId with
    | none =>
      simp only [hid₀, run_pure] at hc
      rw [hb] at hc
      rw [← Option.some.inj hc, hid₀] at hid
      cases hid
    | some id =>
      simp only [hid₀] at hc ⊢
      -- the record is all that is written, so the connection is as it was
      have hsame : c = c₀ := by
        rw [whenDo, run_ite] at hc
        split at hc
        · exact Option.some.inj (hc.symm.trans hb)
        · exact Option.some.inj (hc.symm.trans hb)
      subst hsame
      rw [hid] at hid₀
      rw [Option.some.inj hid₀] at hnamed hlen ⊢
      rw [whenDo, if_pos ⟨hrc, hexp⟩]
      exact persistPutSubs_stored b hnamed hlen

/-! ### Acknowledgements -/

/-- The handler of a packet that is answered with SUBACK or UNSUBACK. -/
def acknowledge (L : Limits) (a : Nat) : InPacket → BrokerM Int
  | .subscribe (.ok sub) => handleSubscribe L a (.ok sub)
  | .unsubscribe (.ok unsub) => handleUnsubscribe L a (.ok unsub)
  | _ => pure Code.badArg

theorem enqueueFor_ne_continue (a : Nat) (topic payload : Bytes) (props : List MqttProp) (qos : QoS) (retain : Bool)
    (b : MqttBroker) : (enqueueFor a topic payload props qos retain b).1 ≠ Code.continue := by
  rw [enqueueFor, run_bind]
  cases (alloc b).1 with
  | none => exact show Code.memory ≠ Code.continue by decide
  | some slot =>
    dsimp only
    rw [run_bind, run_get]
    dsimp only
    cases (alloc b).2.client? a with
    | none => exact show Code.badArg ≠ Code.continue by decide
    | some c =>
      dsimp only
      rw [run_ite]
      split
      · exact show Code.success ≠ Code.continue by decide
      rw [run_bind, run_ite]
      split
      · exact show Code.packetId ≠ Code.continue by decide
      · exact show Code.success ≠ Code.continue by decide

theorem retainedDeliverOne_ne_continue (L : Limits) (a : Nat) (m : RetainedMsg) (subQos : QoS) (b : MqttBroker) :
    (retainedDeliverOne L a m subQos b).1 ≠ Code.continue := by
  rw [retainedDeliverOne, run_bind, run_get]
  dsimp only
  cases hc : b.client? a with
  | none => exact show Code.badArg ≠ Code.continue by decide
  | some c =>
    dsimp only
    rw [run_ite]
    split
    · exact show Code.memory ≠ Code.continue by decide
    · exact enqueueFor_ne_continue a m.topic m.payload [] (m.qos.min subQos) true b

/-- The delivery of retained messages never waits for the transport. -/
theorem retainedDeliverLoop_ne_continue (L : Limits) (a : Nat) (filter : Bytes) (subQos : QoS) (now : Nat)
    (ms : List RetainedMsg) (b : MqttBroker) : (retainedDeliverLoop L a filter subQos now ms b).1 ≠ Code.continue := by
  induction ms generalizing b with
  | nil => exact show Code.success ≠ Code.continue by decide
  | cons m ms ih =>
    rw [retainedDeliverLoop, run_ite]
    split
    · exact ih _
    rw [run_ite]
    split
    · rw [run_bind, run_ite]
      split
      · exact retainedDeliverOne_ne_continue L a m subQos b
      · exact ih _
    · exact ih b

/-- The error that ends a SUBSCRIBE is one, and it does not stand for a deferred write. -/
theorem subscribeTopic_error {L : Limits} {a level : Nat} {t : SubTopic} {b : MqttBroker} {rc : Int}
    (h : (subscribeTopic L a level t b).1 = .error rc) : rc < 0 ∧ rc ≠ Code.continue := by
  have hne (b : MqttBroker) : (subscribeRetained L a t b).1 ≠ Code.continue := by
    rw [subscribeRetained, run_ite]
    split
    · rw [run_bind]
      cases (alloc b).1 with
      | none => exact show Code.memory ≠ Code.continue by decide
      | some _ => exact retainedDeliverLoop_ne_continue L a t.filter t.qos _ _ _
    · exact retainedDeliverLoop_ne_continue L a t.filter t.qos _ _ _
  rw [subscribeTopic, run_bind] at h
  generalize subsAdd L a t.filter t.qos b = r at h
  split at h
  · cases h
  split at h
  · rw [run_bind] at h
    have hne := hne r.2
    generalize subscribeRetained L a t r.2 = r' at h hne
    split at h
    · next hneg =>
      rw [← Except.error.inj h]
      exact ⟨hneg, hne⟩
    · cases h
  · cases h

theorem subscribeTopics_error {L : Limits} {a level : Nat} {ts : List SubTopic} {codes : List UInt8} {b : MqttBroker}
    {rc : Int} (h : (subscribeTopics L a level ts codes b).1 = .error rc) : rc < 0 ∧ rc ≠ Code.continue := by
  induction ts generalizing codes b with
  | nil => cases h
  | cons t ts ih =>
    rw [subscribeTopics, run_bind] at h
    cases hr : (subscribeTopic L a level t b).1 with
    | error e =>
      rw [hr] at h
      rw [← Except.error.inj h]
      exact subscribeTopic_error hr
    | ok code =>
      rw [hr] at h
      exact ih h

theorem acknowledge_stored {L : Limits} {b : MqttBroker} {a : Nat} {p : InPacket} {c : BrokerClient} {clientId : Bytes}
    (hrc : (acknowledge L a p b).1 > 0) (hc : (acknowledge L a p b).2.client? a = some c) (hid : c.clientId = some clientId)
    (hexp : c.sessionExpirySec ≠ 0) (hnamed : clientId ≠ []) (hlen : clientId.length ≤ 65535) :
    SubsStored (acknowledge L a p b).2 clientId := by
  unfold acknowledge at hrc hc ⊢
  split at hrc
  · next sub =>
    simp only [handleSubscribe, run_bind, run_get] at hrc hc ⊢
    cases hb : b.client? a with
    | none =>
      simp only [hb, run_pure] at hrc
      exact absurd hrc (by decide)
    | some c₀ =>
      simp only [hb, run_bind] at hrc hc ⊢
      cases hr : (subscribeTopics L a c₀.protocolLevel (sub.topics.take Broker.maxTopics) [] b).1 with
      | error rc =>
        simp only [hr, run_pure] at hrc
        have := (subscribeTopics_error hr).1
        omega
      | ok codes =>
        simp only [hr, run_bind, run_pure] at hrc hc ⊢
        exact storeSubs_stored hc hid hexp hrc hnamed hlen
  · simp only [handleUnsubscribe, run_bind, run_pure] at hrc hc ⊢
    exact storeSubs_stored hc hid hexp hrc hnamed hlen
  · exact absurd hrc (by simp [run_pure, Code.badArg])

/-! ### Deferred acknowledgements -/

/-- The transport leaves a part of an encoded packet for later. -/
def Defers (L : Limits) (e : Encoded) (s : Conn) : Prop :=
  (socketWrite L e.rc.toNat {s with c := {s.c with txBuf := overlay e.out s.c.txBuf}}).1 = Code.continue

instance (L : Limits) (e : Encoded) (s : Conn) : Decidable (Defers L e s) := inferInstanceAs (Decidable (_ = _))

/-- The UNSUBACK of a connection's level. -/
def unsubAck (L : Limits) (level : Nat) (unsub : InUnsubscribe) : Encoded :=
  encodeUnsubscribeAck L.txBufSz
    {packetId := unsub.packetId
     reasonCodes := if level ≥ level5 then unsub.filters.map (fun _ => Reason.success) else []
     protocolLevel := level}

/-- The transport does not defer the acknowledgement of a SUBSCRIBE or UNSUBSCRIBE. -/
def AcksAtOnce (L : Limits) (b : MqttBroker) (a : Nat) : InPacket → Prop
  | .subscribe (.ok sub) => ∀ c ∈ b.client? a,
    let r := subscribeTopics L a c.protocolLevel (sub.topics.take Broker.maxTopics) [] b
    ∀ codes ∈ r.1.toOption, ∀ c' ∈ r.2.client? a,
      ¬Defers L (.done (subAckBytes sub.packetId c'.protocolLevel codes)) ⟨c', r.2.env⟩
  | .unsubscribe (.ok unsub) =>
    let b' := (unsubscribeTopics a (unsub.filters.take Broker.maxTopics) b).2
    ∀ c' ∈ b'.client? a, ¬Defers L (unsubAck L c'.protocolLevel unsub) ⟨c', b'.env⟩
  | _ => True

theorem writeResp_continue {L : Limits} {len : Int} {s : Conn} (h : (writeResp L len s).1 = Code.continue) :
    (socketWrite L len.toNat s).1 = Code.continue := by
  have hdirect : (writeDirect L len s).1 = Code.continue := by
    rw [writeResp, run_bind] at h
    generalize writeDirect L len s = r at h
    rw [run_ite] at h
    split at h
    · exact h
    · exact absurd h (show Code.network ≠ Code.continue by decide)
  rw [writeDirect] at hdirect
  split at hdirect
  · exact absurd hdirect (show Code.badArg ≠ Code.continue by decide)
  · rw [run_bind, run_ite] at hdirect
    split at hdirect
    · exact absurd hdirect (show Code.system ≠ Code.continue by decide)
    · exact hdirect

theorem sendSubAck_continue {L : Limits} {packetId : Nat} {codes : List UInt8} {s : Conn}
    (h : (sendSubAck L packetId codes s).1 = Code.continue) :
    Defers L (.done (subAckBytes packetId s.c.protocolLevel codes)) s := by
  simp only [sendSubAck, run_bind, run_ite] at h
  split at h
  · exact absurd h (show Code.badArg ≠ Code.continue by decide)
  split at h
  · exact absurd h (show Code.malformedData ≠ Code.continue by decide)
  generalize (if (readClient (·.protocolLevel) s).1 ≥ level5 then 1 else 0) = n at h
  split at h
  · exact absurd h (show Code.outOfBuffer ≠ Code.continue by decide)
  · exact writeResp_continue h

theorem encodePacket_rc_ne (txLen : Nat) (type : PacketType) (qos : QoS) (body : Bytes) :
    (encodePacket txLen type qos body).rc ≠ Code.continue := by
  have hdone (out : Bytes) : (Encoded.done out).rc ≠ Code.continue := by
    have : (0 : Int) ≤ (Encoded.done out).rc := Int.natCast_nonneg _
    intro h
    rw [h] at this
    exact absurd this (by decide)
  have hheader : (encodeFixedHeader txLen body.length type false qos false).rc ≠ Code.continue := by
    rw [encodeFixedHeader]
    split
    · exact show Code.outOfBuffer ≠ Code.continue by decide
    · unfold encodeVbi
      by_cases hlen : ((body.length : Int) % 4294967296).toNat > maxRemainLen
      · rw [if_pos hlen]
        exact show Code.malformedData ≠ Code.continue by decide
      · rw [if_neg hlen]
        exact hdone _
  rw [encodePacket]
  split
  · exact hheader
  split
  · exact show Code.outOfBuffer ≠ Code.continue by decide
  · exact hdone _

theorem encodeUnsubscribeAck_rc_ne (txLen : Nat) (a : UnsubscribeAck) (h : a.props = []) :
    (encodeUnsubscribeAck txLen a).rc ≠ Code.continue := by
  rw [encodeUnsubscribeAck, h]
  split
  · exact show Code.packetId ≠ Code.continue by decide
  split
  · show Encoded.rc (if _ then _ else _) ≠ _
    split
    · exact show Code.badArg ≠ Code.continue by decide
    · exact encodePacket_rc_ne _ _ _ _
  · exact encodePacket_rc_ne _ _ _ _

theorem sendUnsubAck_continue {L : Limits} {unsub : InUnsubscribe} {s : Conn}
    (h : (sendUnsubAck L unsub s).1 = Code.continue) : Defers L (unsubAck L s.c.protocolLevel unsub) s := by
  have hencoded : (sendUnsubAck L unsub s) =
      (if (unsubAck L s.c.protocolLevel unsub).rc > 0 then writeResp L (unsubAck L s.c.protocolLevel unsub).rc
        else pure (unsubAck L s.c.protocolLevel unsub).rc)
        {s with c := {s.c with txBuf := overlay (unsubAck L s.c.protocolLevel unsub).out s.c.txBuf}} := rfl
  rw [hencoded, run_ite] at h
  split at h
  · exact writeResp_continue h
  · exact absurd h (encodeUnsubscribeAck_rc_ne _ _ rfl)

theorem onClient_continue {a : Nat} {m : ClientM Int} {b : MqttBroker} (h : (onClient a Code.badArg m b).1 = Code.continue) :
    ∃ c, b.client? a = some c ∧ (m ⟨c, b.env⟩).1 = Code.continue := by
  rw [onClient] at h
  cases hc : b.client? a with
  | none =>
    rw [hc] at h
    exact absurd h (show Code.badArg ≠ Code.continue by decide)
  | some c =>
    rw [hc] at h
    exact ⟨c, rfl, h⟩

/-- A handler gives CONTINUE only if the transport defers the acknowledgement. -/
theorem AcksAtOnce.acknowledge {L : Limits} {b : MqttBroker} {a : Nat} {p : InPacket} (h : AcksAtOnce L b a p) :
    (acknowledge L a p b).1 ≠ Code.continue := by
  intro hcont
  unfold Persist.acknowledge at hcont
  split at hcont
  · next sub =>
    simp only [handleSubscribe, run_bind, run_get] at hcont
    cases hb : b.client? a with
    | none =>
      simp only [hb, run_pure] at hcont
      exact absurd hcont (by decide)
    | some c =>
      simp only [hb, run_bind] at hcont
      cases hr : (subscribeTopics L a c.protocolLevel (sub.topics.take Broker.maxTopics) [] b).1 with
      | error rc =>
        simp only [hr, run_pure] at hcont
        exact (subscribeTopics_error hr).2 hcont
      | ok codes =>
        simp only [hr, run_bind, run_pure] at hcont
        obtain ⟨c', hc', hsend⟩ := onClient_continue hcont
        have hcodes : codes ∈ (subscribeTopics L a c.protocolLevel (sub.topics.take Broker.maxTopics) [] b).1.toOption := by
          rw [hr]
          rfl
        have hdefers := sendSubAck_continue hsend
        rw [AcksAtOnce] at h
        exact absurd hdefers (h c hb codes hcodes c' hc')
  · simp only [handleUnsubscribe, run_bind, run_pure] at hcont
    obtain ⟨c', hc', hsend⟩ := onClient_continue hcont
    exact h c' hc' (sendUnsubAck_continue hsend)
  · exact absurd hcont (show Code.badArg ≠ Code.continue by decide)

/-! ### Runs -/

/-- The connection whose acknowledgement the transport defers in an event. -/
def deferredAck (L : Limits) (b : MqttBroker) (e : Event × Script) : Option Nat :=
  (dispatched L b e).bind (fun x => if (acknowledge L x.1 x.2.1 x.2.2).1 = Code.continue then some x.1 else none)

/-- A run under watch: the broker, and the connections that owe the rest of an acknowledgement. -/
structure Watch where
  broker : MqttBroker
  owing : List Nat

def watchStep (L : Limits) (w : Watch) (e : Event × Script) : Watch where
  broker := step L w.broker e
  owing := (deferredAck L w.broker e).toList ++
    w.owing.filter (fun a => ((step L w.broker e).client? a).any (·.directPendingLen ≠ 0))

def watch (L : Limits) (b : MqttBroker) (es : List (Event × Script)) : Watch := es.foldl (watchStep L) ⟨b, []⟩

/-- In an event after `w`, the last byte of an acknowledgement of the connection at `a` is out, and the broker is then
in state `b`: at the end of the handler, or of the deferred write. -/
def Acked (L : Limits) (w : Watch) (e : Event × Script) (a : Nat) (b : MqttBroker) : Prop :=
  (∃ p b₁, dispatched L w.broker e = some (a, p, b₁) ∧ (acknowledge L a p b₁).1 > 0 ∧ b = (acknowledge L a p b₁).2) ∨
    a ∈ w.owing ∧ (∃ rx, e.1 = .process a rx) ∧
      (resumeDirect L a {w.broker with env := w.broker.env.arm e.2}).1 = Code.success ∧
      b = (resumeDirect L a {w.broker with env := w.broker.env.arm e.2}).2

theorem watch_broker (L : Limits) (b : MqttBroker) (es : List (Event × Script)) : (watch L b es).broker = run L b es := by
  have h (w : Watch) : (es.foldl (watchStep L) w).broker = run L w.broker es := by
    induction es generalizing w with
    | nil => rfl
    | cons e es ih => exact ih (watchStep L w e)
  exact h ⟨b, []⟩

/-- If no acknowledgement is deferred, none is owed. -/
theorem owing_foldl {L : Limits} (es : List (Event × Script)) (w : Watch)
    (h : Along (step L) (OnPacket L (AcksAtOnce L)) w.broker es) (howing : w.owing = []) :
    (es.foldl (watchStep L) w).owing = [] := by
  induction es generalizing w with
  | nil => exact howing
  | cons e es ih =>
    obtain ⟨he, hes⟩ := h
    refine ih (watchStep L w e) hes ?_
    have hnone : deferredAck L w.broker e = none := by
      rw [deferredAck]
      cases hd : dispatched L w.broker e with
      | none => rfl
      | some x => exact if_neg (he x hd).acknowledge
    rw [watchStep, hnone, howing]
    rfl

/-- In a run that defers no SUBACK or UNSUBACK, the stored subscriptions of a session that outlives its connection are
those in memory whenever one of these is out. -/
theorem run_subsStored {L : Limits} {authUser authPass : Option Bytes} {es : List (Event × Script)}
    (h : Along (step L) (OnPacket L (AcksAtOnce L)) (initial authUser authPass) es) {e : Event × Script} {a : Nat}
    {b : MqttBroker} (hacked : Acked L (watch L (initial authUser authPass) es) e a b) {c : BrokerClient} {clientId : Bytes}
    (hc : b.client? a = some c) (hid : c.clientId = some clientId) (hexp : c.sessionExpirySec ≠ 0) (hnamed : clientId ≠ [])
    (hlen : clientId.length ≤ 65535) : SubsStored b clientId := by
  rcases hacked with ⟨p, b₁, -, hrc, rfl⟩ | ⟨howing, -⟩
  · exact acknowledge_stored hrc hc hid hexp hnamed hlen
  · rw [watch, owing_foldl es _ h rfl] at howing
    cases howing

instance (L : Limits) (b : MqttBroker) (a : Nat) : (p : InPacket) → Decidable (AcksAtOnce L b a p)
  | .subscribe (.ok sub) => inferInstanceAs (Decidable (∀ c ∈ b.client? a,
      ∀ codes ∈ (subscribeTopics L a c.protocolLevel (sub.topics.take Broker.maxTopics) [] b).1.toOption, _))
  | .unsubscribe (.ok unsub) => inferInstanceAs (Decidable
      (∀ c' ∈ (unsubscribeTopics a (unsub.filters.take Broker.maxTopics) b).2.client? a, _))
  | .subscribe (.error _) | .unsubscribe (.error _) | .connect _ | .publish _ | .publishAck _ | .publishRec _
  | .publishRel _ | .publishComp _ | .pingReq _ | .disconnect _ _ | .unhandled => .isTrue trivial

/-- A persistent session at address 1. -/
def persistentSession : List (Event × Script) :=
  [(.accept, {}), packetFrom 1 (.connect (.ok {protocolLevel := 4, cleanSession := false, clientId := [0x73]}))]

def subscribePacket : InPacket := .subscribe (.ok {packetId := 1, topics := [{filter := [0x74], qos := .qos1}]})

/-- The broker when the SUBACK for that session is out. -/
def subscribedBroker : MqttBroker :=
  (acknowledge {} 1 subscribePacket (readied {} (run {} (initial none none) persistentSession) 1)).2

theorem run_subsStored_subscribed :
    Acked {} (watch {} (initial none none) persistentSession) (packetFrom 1 subscribePacket) 1 subscribedBroker ∧
      (subsOf subscribedBroker [0x73]).length = 1 ∧ SubsStored subscribedBroker [0x73] := by
  have hacked : Acked {} (watch {} (initial none none) persistentSession) (packetFrom 1 subscribePacket) 1
      subscribedBroker := by
    refine .inl ⟨subscribePacket, readied {} (run {} (initial none none) persistentSession) 1, ?_, by decide +kernel, rfl⟩
    rw [watch_broker]
    exact dispatched_packetFrom (by decide +kernel)
  have hclient : (subscribedBroker.client? 1).any (fun c => c.clientId = some [0x73] ∧ c.sessionExpirySec ≠ 0) = true := by
    decide +kernel
  obtain ⟨c, hc, hsession⟩ := (Option.any_eq_true _ _).mp hclient
  obtain ⟨hid, hexp⟩ := of_decide_eq_true hsession
  refine ⟨hacked, by decide +kernel, ?_⟩
  exact run_subsStored (by decide +kernel) hacked hc hid hexp (by decide) (by decide)

/-- The session subscribes, and the transport takes two bytes of the SUBACK. -/
def deferredSession : List (Event × Script) :=
  persistentSession ++ [(.process 1 (.packet true subscribePacket), {writes := [2]})]

/-- The broker when the rest is out in the next turn. -/
def resumedBroker : MqttBroker :=
  let b := run {} (initial none none) deferredSession
  (resumeDirect {} 1 {b with env := b.env.arm {}}).2

/-- A subscription whose SUBACK was deferred is acknowledged and stored nowhere. -/
theorem deferredAck_not_stored :
    Acked {} (watch {} (initial none none) deferredSession) (.process 1 .nothing, {}) 1 resumedBroker ∧
      (resumedBroker.client? 1).any (fun c => c.clientId = some [0x73] ∧ c.sessionExpirySec ≠ 0) = true ∧
      (subsOf resumedBroker [0x73]).length = 1 ∧ kvGet .subs [0x73] (storeOf resumedBroker) = none ∧
      ¬SubsStored resumedBroker [0x73] := by
  refine ⟨.inr ⟨by decide +kernel, ⟨.nothing, rfl⟩, ?_, ?_⟩, by decide +kernel, by decide +kernel, by decide +kernel,
    by decide +kernel⟩
  · rw [watch_broker]
    decide +kernel
  · rw [watch_broker]
    rfl

end WolfMqtt.Persist
