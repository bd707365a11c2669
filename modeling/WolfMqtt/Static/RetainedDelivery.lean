import WolfMqtt.Packet.Property
import WolfMqtt.Broker.RetainedExpiry
import WolfMqtt.Static.Retained
import WolfMqtt.Static.Deliver

/-! Retained messages of the static-memory build on their way to a new subscription, and
what both builds make of their expiry.

A message for a session with a carrier is queued there with what is left of its interval;
any other is written at once. Interval 0 is kept as no interval at all. -/
namespace WolfMqtt.Static
open Broker Ledger Row

/-! ### The functions -/

/-- A Message Expiry Interval as the list of properties a message is queued with. -/
def expiryProp (interval : Nat) : MqttProp where
  type := .msgExpiryInterval
  dataInt := interval

/-- The properties of a retained message in a carrier: its interval less the time in the store, in
32-bit arithmetic. -/
def retainedProps (now : Nat) (m : RetainedMsg) : List MqttProp :=
  if m.expirySec > 0 then
    let elapsed := if now ≥ m.storeTime then (now - m.storeTime) % 2 ^ 32 else 0
    [expiryProp ((m.expirySec + 2 ^ 32 - elapsed) % 2 ^ 32)]
  else []

/-- What a retained message is to a subscription at `subQos`. -/
def retainedDelivery (subQos : QoS) (now : Nat) (m : RetainedMsg) : Delivery where
  site := .retained
  topic := m.topic
  payload := m.payload
  qos := m.qos.min subQos
  props := retainedProps now m

/-- One retained message to the connection in slot `i`; anything but success ends the delivery, and
none is a search for an identifier that does not end. -/
def retainedDeliverOne (L : StaticLimits) (i : Nat) (subQos : QoS) (now : Nat) (m : RetainedMsg) (b : StaticBroker) :
    Option (Int × StaticBroker) :=
  match b.client? i with
  | none => some (Code.badArg, b)
  | some c =>
    let d := retainedDelivery subQos now m
    match (if d.qos = .qos0 then none else findOrphan b c.clientId) with
    | none => some (Code.success, deliverDirect L d i b)
    | some k =>
      match b.orphan? k with
      | none => some (Code.badArg, b)
      | some o =>
        let o := removeExpiredQueued now o
        let b := b.setOrphan k (some o)
        if o.outQ.count ≥ L.maxStaticOfflineMsgsPerSub then some (Code.memory, quotaClose L i b)
        else
          match enqueue L d.message {o, next := b.nextPacketId, env := b.env} with
          | none => none
          | some r =>
            some (r.1, {b.setOrphan k (some r.2.o) with
              nextPacketId := r.2.next
              env := r.2.env
              notes := b.notes ++ r.2.taken.toList.map (fun p => .queued k d.message p.1 p.2)})

/-- How a delivery of retained messages ends. -/
structure Delivered where
  rc : Int
  slots : List (Option RetainedMsg)
  b : StaticBroker
deriving Repr, DecidableEq

/-- The slot before those that are left. -/
def Delivered.behind (s : Option RetainedMsg) (r : Delivered) : Delivered := {r with slots := s :: r.slots}

/-- The loop of `BrokerRetained_DeliverToClient` over the slots that are left. -/
def retainedDeliverLoop (L : StaticLimits) (i : Nat) (filter : Bytes) (subQos : QoS) (now : Nat) :
    List (Option RetainedMsg) → StaticBroker → Option Delivered
  | [], b => some ⟨Code.success, [], b⟩
  | none :: rest, b => (retainedDeliverLoop L i filter subQos now rest b).map (.behind none)
  | some m :: rest, b =>
    if m.topic.isEmpty then (retainedDeliverLoop L i filter subQos now rest b).map (.behind (some m))
    else if retainedExpired now m then (retainedDeliverLoop L i filter subQos now rest b).map (.behind none)
    else if topicMatch filter m.topic then
      match retainedDeliverOne L i subQos now m b with
      | none => none
      | some (rc, b) =>
        if rc ≠ Code.success then some ⟨rc, some m :: rest, b⟩
        else (retainedDeliverLoop L i filter subQos now rest b).map (.behind (some m))
    else (retainedDeliverLoop L i filter subQos now rest b).map (.behind (some m))

/-- `BrokerRetained_DeliverToClient` -/
def retainedDeliver (L : StaticLimits) (i : Nat) (filter : Bytes) (subQos : QoS) (slots : List (Option RetainedMsg))
    (b : StaticBroker) : Option Delivered :=
  let now := b.env.getTime
  retainedDeliverLoop L i filter subQos now.1 slots {b with env := now.2}

section delivery
variable {L : StaticLimits} {i : Nat} {filter : Bytes} {subQos : QoS} {now : Nat} {b : StaticBroker}

/-- The slots are those of the store's own delivery, for what became of each message. -/
theorem retainedDeliverLoop_slots {slots : List (Option RetainedMsg)} {r : Delivered}
    (h : retainedDeliverLoop L i filter subQos now slots b = some r) :
    ∃ goesOn, r.slots = (deliverLoop filter now goesOn slots).2 := by
  induction slots generalizing b r with
  | nil =>
    cases h
    exact ⟨[], rfl⟩
  | cons s rest ih =>
    cases s with
    | none =>
      obtain ⟨r', hr', rfl⟩ := Option.map_eq_some_iff.mp h
      obtain ⟨goesOn, hgo⟩ := ih hr'
      exact ⟨goesOn, congrArg (none :: ·) hgo⟩
    | some m =>
      rw [retainedDeliverLoop] at h
      split at h
      · next hempty =>
        obtain ⟨r', hr', rfl⟩ := Option.map_eq_some_iff.mp h
        obtain ⟨goesOn, hgo⟩ := ih hr'
        refine ⟨goesOn, ?_⟩
        rw [deliverLoop, if_pos hempty]
        exact congrArg (some m :: ·) hgo
      next hempty =>
      split at h
      · next hexp =>
        obtain ⟨r', hr', rfl⟩ := Option.map_eq_some_iff.mp h
        obtain ⟨goesOn, hgo⟩ := ih hr'
        refine ⟨goesOn, ?_⟩
        rw [deliverLoop, if_neg hempty, if_pos hexp]
        exact congrArg (none :: ·) hgo
      next hexp =>
      split at h
      · next hmatch =>
        split at h
        · cases h
        next rc b' hone =>
        split at h
        · cases h
          refine ⟨[false], ?_⟩
          rw [deliverLoop, if_neg hempty, if_neg hexp, if_pos hmatch]
          rfl
        · obtain ⟨r', hr', rfl⟩ := Option.map_eq_some_iff.mp h
          obtain ⟨goesOn, hgo⟩ := ih hr'
          refine ⟨true :: goesOn, ?_⟩
          rw [deliverLoop, if_neg hempty, if_neg hexp, if_pos hmatch]
          exact congrArg (some m :: ·) hgo
      · next hmatch =>
        obtain ⟨r', hr', rfl⟩ := Option.map_eq_some_iff.mp h
        obtain ⟨goesOn, hgo⟩ := ih hr'
        refine ⟨goesOn, ?_⟩
        rw [deliverLoop, if_neg hempty, if_neg hexp, if_neg hmatch]
        exact congrArg (some m :: ·) hgo

/-- So a delivery is a call on the store, and nothing else in it touches the slots. -/
theorem retainedDeliver_calls {ledger : List (Deed Bytes RetainedMsg Nat)} {s : RetainedSlots}
    (h : Calls slotRetained L.toLimits ledger s) {r : Delivered}
    (hr : retainedDeliver L i filter subQos s.slots b = some r) :
    Calls slotRetained L.toLimits (.look b.env.getTime.1 :: ledger) {s with slots := r.slots, env := b.env.getTime.2} := by
  obtain ⟨goesOn, hgo⟩ := retainedDeliverLoop_slots hr
  have hready : Calls slotRetained L.toLimits ledger {s with env := b.env, goesOn := goesOn} := h.elsewhere rfl
  refine (hready.call (.deliverToClient i filter subQos)).elsewhere ?_
  exact hgo

/-! ### Expired messages -/

/-- What the connection and its session see of a delivery. -/
def Delivered.seen (r : Delivered) : Int × StaticBroker := (r.rc, r.b)

theorem seen_behind (s : Option RetainedMsg) (r : Option Delivered) :
    (r.map (Delivered.behind s)).map Delivered.seen = r.map Delivered.seen := by
  cases r <;> rfl

/-- A topic whose message has expired might as well have none. -/
theorem retainedDeliverLoop_clearTopic {topic : Bytes} {slots : List (Option RetainedMsg)}
    (h : ∀ m, some m ∈ slots → m.topic = topic → retainedExpired now m = true) :
    (retainedDeliverLoop L i filter subQos now slots b).map Delivered.seen =
      (retainedDeliverLoop L i filter subQos now (clearTopic topic slots) b).map Delivered.seen := by
  induction slots generalizing b with
  | nil => rfl
  | cons s rest ih =>
    have ih (b : StaticBroker) := ih (b := b) fun m hm => h m (List.mem_cons_of_mem _ hm)
    cases s with
    | none =>
      show Option.map _ (Option.map _ _) = Option.map _ (Option.map _ _)
      rw [seen_behind, seen_behind, ih]
    | some m =>
      by_cases htopic : m.topic = topic
      · have hclear : clearTopic topic (some m :: rest) = none :: rest := by
          rw [clearTopic, if_pos (by simp [htopic])]
        rw [hclear, retainedDeliverLoop, retainedDeliverLoop, seen_behind]
        split
        · rw [seen_behind]
        · rw [if_pos (h m List.mem_cons_self htopic), seen_behind]
      · have hclear : clearTopic topic (some m :: rest) = some m :: clearTopic topic rest := by
          rw [clearTopic, if_neg (by simp [htopic])]
        rw [hclear, retainedDeliverLoop, retainedDeliverLoop]
        split
        · rw [seen_behind, seen_behind, ih]
        split
        · rw [seen_behind, seen_behind, ih]
        split
        · cases retainedDeliverOne L i subQos now m b with
          | none => rfl
          | some r =>
            dsimp only
            split
            · rfl
            · rw [seen_behind, seen_behind, ih]
        · rw [seen_behind, seen_behind, ih]

/-! ### Carriers -/

/-- An entry stands in a carrier. -/
def InCarrier (x : StaticOutPub) (b : StaticBroker) : Prop := ∃ o ∈ b.carriers, x ∈ o.outQ.live

/-- Whatever a carrier has that none had before satisfies `P`. -/
def CarrierGains (P : StaticOutPub → Prop) (b b' : StaticBroker) : Prop := ∀ x, InCarrier x b' → InCarrier x b ∨ P x

variable {P : StaticOutPub → Prop} {b' : StaticBroker} {k : Nat}

instance : IsPreorder StaticBroker (CarrierGains P) where
  refl _ _ h := .inl h
  trans _ _ _ h h' x hx := (h' x hx).elim (h x) .inr

theorem carrierGains_of_orphans (h : b'.orphans = b.orphans) : CarrierGains P b b' := by
  intro x hx
  rw [InCarrier, StaticBroker.carriers, h] at hx
  exact .inl hx

theorem mem_carriers_of_orphan? {o : Carrier} (h : b.orphan? k = some o) : o ∈ b.carriers :=
  mem_carriers.mpr (List.mem_of_getElem? (Option.join_eq_some_iff.mp h))

/-- A carrier is changed. -/
theorem carrierGains_setOrphan {o o' : Carrier} (ho : b.orphan? k = some o)
    (h : ∀ x ∈ o'.outQ.live, x ∈ o.outQ.live ∨ P x) : CarrierGains P b (b.setOrphan k (some o')) := by
  intro x hx
  obtain ⟨o'', ho'', hx⟩ := hx
  rcases List.mem_or_eq_of_mem_set (mem_carriers.mp ho'') with hmem | heq
  · exact .inl ⟨o'', mem_carriers.mpr hmem, hx⟩
  · cases heq
    exact (h x hx).imp_left fun hx => ⟨o, mem_carriers_of_orphan? ho, hx⟩

/-- A message that a carrier is given comes out as an entry of its own, or not at all. -/
theorem mem_enqueue {m : Message} {s : Desk} {r : Int × Desk} (h : enqueue L m s = some r) {x : StaticOutPub}
    (hx : x ∈ r.2.o.outQ.live) :
    x ∈ s.o.outQ.live ∨ ∃ props id t, enqueueProps L m = .ok props ∧ x = newEntry m props id t := by
  unfold enqueue at h
  split at h
  · cases h
    exact .inl hx
  next props hprops =>
  dsimp only at h
  split at h
  · cases h
    exact .inl (mem_of_mem_removeExpiredFrom hx)
  split at h
  · cases h
  · cases h
    exact .inl (mem_of_mem_removeExpiredFrom hx)
  next id next hsearch =>
    cases h
    rcases Cells.mem_of_mem_push hx with hx | hx
    · exact .inl (mem_of_mem_removeExpiredFrom hx)
    · exact .inr ⟨props, id, s.env.getTime.1, hprops, hx⟩

theorem clientClose_gains (j : Nat) (b : StaticBroker) : CarrierGains P b (clientClose j b) := by
  unfold clientClose
  cases hc : b.client? j with
  | none => exact refl b
  | some c =>
    dsimp only
    cases hk : findOrphan b c.clientId with
    | none => exact carrierGains_of_orphans rfl
    | some k =>
      dsimp only
      cases ho : b.orphan? k with
      | none => exact refl b
      | some o =>
        have hkept (x) (hx : x ∈ (closeLink {c, o, env := b.env}).o.outQ.live) : x ∈ o.outQ.live ∨ P x := .inl hx
        exact carrierGains_setOrphan ho hkept

theorem onClient_orphans {α : Type} (j : Nat) (default : α) (m : ClientM α) (b : StaticBroker) :
    (onClient j default m b).2.orphans = b.orphans := by
  unfold onClient
  split <;> rfl

theorem quotaClose_gains (j : Nat) (b : StaticBroker) : CarrierGains P b (quotaClose L j b) :=
  trans_of (CarrierGains P) (carrierGains_of_orphans (onClient_orphans ..)) (clientClose_gains j _)

theorem deliverDirect_gains (d : Delivery) (j : Nat) (b : StaticBroker) : CarrierGains P b (deliverDirect L d j b) := by
  have hend (b' : StaticBroker) (h : b'.orphans = b.orphans) (stays : Bool) :
      CarrierGains P b (if stays then b' else clientClose j b') := by
    split
    · exact carrierGains_of_orphans h
    · exact trans_of (CarrierGains P) (carrierGains_of_orphans h) (clientClose_gains j b')
  unfold deliverDirect
  split
  · exact refl b
  dsimp only
  split
  · refine hend _ ?_ _
    rfl
  split
  · exact refl b
  · refine hend _ ?_ _
    rfl

/-! ### What a carrier is given -/

/-- An entry was made of this message. -/
def MadeOf (L : StaticLimits) (m : Message) (x : StaticOutPub) : Prop :=
  ∃ props id t, enqueueProps L m = .ok props ∧ x = newEntry m props id t

theorem retainedDeliverOne_gains {m : RetainedMsg} {r : Int × StaticBroker}
    (h : retainedDeliverOne L i subQos now m b = some r) :
    CarrierGains (MadeOf L (retainedDelivery subQos now m).message) b r.2 := by
  unfold retainedDeliverOne at h
  split at h
  · cases h
    exact refl b
  dsimp only at h
  split at h
  · cases h
    exact deliverDirect_gains _ i b
  next k hk =>
  split at h
  · cases h
    exact refl b
  next o ho =>
  have hexpired : CarrierGains (MadeOf L (retainedDelivery subQos now m).message) b
      (b.setOrphan k (some (removeExpiredQueued now o))) :=
    carrierGains_setOrphan ho fun x hx => .inl (mem_of_mem_removeExpiredFrom hx)
  split at h
  · cases h
    exact trans_of (CarrierGains _) hexpired (quotaClose_gains i _)
  split at h
  · cases h
  next r' henq =>
    cases h
    have htwice : (b.setOrphan k (some (removeExpiredQueued now o))).setOrphan k (some r'.2.o) = b.setOrphan k (some r'.2.o) := by
      rw [StaticBroker.setOrphan, StaticBroker.setOrphan, List.set_set]
      rfl
    rw [htwice]
    refine trans_of (CarrierGains _) (carrierGains_setOrphan ho fun x hx => ?_) (carrierGains_of_orphans rfl)
    exact (mem_enqueue henq hx).imp_left mem_of_mem_removeExpiredFrom

theorem retainedDeliverLoop_gains {slots : List (Option RetainedMsg)} {r : Delivered}
    (h : retainedDeliverLoop L i filter subQos now slots b = some r) :
    CarrierGains (fun x => ∃ m, some m ∈ slots ∧ retainedExpired now m = false ∧
      MadeOf L (retainedDelivery subQos now m).message x) b r.b := by
  induction slots generalizing b r with
  | nil =>
    cases h
    exact refl b
  | cons s rest ih =>
    have hrest {b : StaticBroker} {r : Delivered} {s' : Option RetainedMsg}
        (h : (retainedDeliverLoop L i filter subQos now rest b).map (Delivered.behind s') = some r) :
        CarrierGains (fun x => ∃ m, some m ∈ s :: rest ∧ retainedExpired now m = false ∧
          MadeOf L (retainedDelivery subQos now m).message x) b r.b := by
      obtain ⟨r', hr', rfl⟩ := Option.map_eq_some_iff.mp h
      refine fun x hx => (ih hr' x hx).imp_right fun hmsg => ?_
      obtain ⟨m, hm, hmsg⟩ := hmsg
      exact ⟨m, List.mem_cons_of_mem _ hm, hmsg⟩
    cases s with
    | none => exact hrest h
    | some m =>
      rw [retainedDeliverLoop] at h
      split at h
      · exact hrest h
      split at h
      · exact hrest h
      next hexp =>
      split at h
      · split at h
        · cases h
        next rc b' hone =>
        have hgain : CarrierGains (fun x => ∃ y, some y ∈ some m :: rest ∧ retainedExpired now y = false ∧
            MadeOf L (retainedDelivery subQos now y).message x) b b' :=
          fun x hx => (retainedDeliverOne_gains hone x hx).imp_right fun hmade =>
            ⟨m, List.mem_cons_self, Bool.not_eq_true _ ▸ hexp, hmade⟩
        split at h
        · cases h
          exact hgain
        · exact trans_of (CarrierGains _) hgain (hrest h)
      · exact hrest h

/-! ### What is left of an interval -/

/-- An entry that shows an interval of `v`: in its own fields, and to a reader of its properties. -/
structure ShowsExpiry (v : Nat) (x : StaticOutPub) : Prop where
  hasExpiry : x.hasExpiry = true
  expirySec : x.expirySec = v
  props : decodeProps .publish maxProps (x.data.take x.propLen) x.propLen = .ok [expiryProp v]

theorem expiryProp_typed {v : Nat} (hv : v < 2 ^ 32) : (expiryProp v).Typed where
  short := Nat.zero_lt_succ _
  int := hv
  str := Nat.zero_lt_succ _
  bin := Nat.zero_lt_succ _
  str2 := Nat.zero_lt_succ _

/-- An entry made of a message that has nothing but an interval shows that interval. -/
theorem MadeOf.showsExpiry {m : Message} {x : StaticOutPub} {v : Nat} (h : MadeOf L m x) (hprops : m.props = [expiryProp v])
    (hv : v < 2 ^ 32) : ShowsExpiry v x := by
  obtain ⟨props, id, t, henq, rfl⟩ := h
  have henc : encodeProps .publish [expiryProp v] = .ok props := by
    unfold enqueueProps at henq
    rw [hprops] at henq
    split at henq
    · cases henq
    split at henq
    · cases henq
    next props' henc =>
    split at henq
    · cases henq
    split at henq
    · cases henq
    · cases henq
      exact henc
  refine ⟨?_, ?_, ?_⟩
  · show (findProp m.props .msgExpiryInterval).isSome = true
    rw [hprops]
    rfl
  · show ((findProp m.props .msgExpiryInterval).map (·.dataInt)).getD 0 = v
    rw [hprops]
    rfl
  · show decodeProps .publish maxProps ((props ++ m.payload).take props.length) props.length = _
    have htyped : ∀ p ∈ [expiryProp v], p.Typed := by
      intro p hp
      rw [List.mem_singleton.mp hp]
      exact expiryProp_typed hv
    have hauth : authPaired [expiryProp v] := by
      intro hdata
      obtain ⟨p, hp, hauth⟩ := hdata
      rw [List.mem_singleton.mp hp] at hauth
      cases hauth
    have hread := decodeProps_encodeProps htyped henc (show 1 ≤ maxProps by decide) hauth []
    rw [List.append_nil] at hread
    rw [List.take_left, hread]
    rfl

/-- What is left of the interval of a message that has not expired. -/
theorem retainedProps_left {m : RetainedMsg} (hexp : m.expirySec < 2 ^ 32) (hle : m.storeTime ≤ now)
    (hlt : now < m.storeTime + m.expirySec) :
    retainedProps now m = [expiryProp (m.expirySec - (now - m.storeTime))] := by
  have hpos : m.expirySec > 0 := by omega
  have helapsed : (now - m.storeTime) % 2 ^ 32 = now - m.storeTime := Nat.mod_eq_of_lt (by omega)
  have hleft : (m.expirySec + 2 ^ 32 - (now - m.storeTime)) % 2 ^ 32 = m.expirySec - (now - m.storeTime) := by
    rw [show m.expirySec + 2 ^ 32 - (now - m.storeTime) = m.expirySec - (now - m.storeTime) + 2 ^ 32 from by omega,
      Nat.add_mod_right, Nat.mod_eq_of_lt (by omega)]
  rw [retainedProps, if_pos hpos]
  simp only [if_pos hle, helapsed, hleft]

/-! ### Both builds -/

/-- The build that allocates its messages queues nothing for the topic of a retained PUBLISH with
interval `e`, stored at `t`, for a subscription it handles at `t + e` or later. -/
def HeapHonours (e : UInt32) : Prop :=
  ∀ (L : Limits) (ledger : List (Deed Bytes RetainedMsg Nat)) (b : MqttBroker) (p : InPublish) (t a : Nat) (filter : Bytes)
    (subQos : QoS), CarriesExpiry e p → Calls heapRetained L ledger b →
    lastPut RetainedMsg.topic ledger p.topicName = some (retainedOf p t) → t + e.toNat ≤ b.env.getTime.1 →
    Gains (·.topic ≠ p.topicName) b (Broker.retainedDeliverToClient L a filter subQos b).2

/-- In the build with slots such a delivery is, for the connection and its session, the one there
would be without the message; and before that time every carrier that is given the message is
given it with the interval that is left. -/
structure SlotsHonour (e : UInt32) : Prop where
  expired : ∀ (L : StaticLimits) (ledger : List (Deed Bytes RetainedMsg Nat)) (s : RetainedSlots) (b : StaticBroker)
    (p : InPublish) (t i : Nat) (filter : Bytes) (subQos : QoS), CarriesExpiry e p →
    Calls slotRetained L.toLimits ledger s → lastPut RetainedMsg.topic ledger p.topicName = some (retainedOf p t) →
    t + e.toNat ≤ b.env.getTime.1 →
    (retainedDeliver L i filter subQos s.slots b).map Delivered.seen =
      (retainedDeliver L i filter subQos (clearTopic p.topicName s.slots) b).map Delivered.seen
  left : ∀ (L : StaticLimits) (ledger : List (Deed Bytes RetainedMsg Nat)) (s : RetainedSlots) (b : StaticBroker)
    (p : InPublish) (t i : Nat) (filter : Bytes) (subQos : QoS) (r : Delivered), CarriesExpiry e p →
    Calls slotRetained L.toLimits ledger s → lastPut RetainedMsg.topic ledger p.topicName = some (retainedOf p t) →
    t ≤ b.env.getTime.1 → b.env.getTime.1 < t + e.toNat → retainedDeliver L i filter subQos s.slots b = some r →
    CarrierGains (fun x => x.topic = p.topicName → ShowsExpiry (e.toNat - (b.env.getTime.1 - t)) x) b r.b

theorem heapHonours {e : UInt32} (he : e ≠ 0) : HeapHonours e := by
  intro L ledger b p t a filter subQos hp hcalls hlast htime
  have hne : e.toNat ≠ 0 := fun h => he (UInt32.toNat_inj.mp h)
  refine retainedDeliverToClient_expired hcalls (m := retainedOf p t) hlast (retainedExpired_iff.mpr ?_) a filter subQos
  rw [hp.expirySec]
  exact ⟨hne, htime⟩

theorem slotsHonour {e : UInt32} (he : e ≠ 0) : SlotsHonour e where
  expired := by
    intro L ledger s b p t i filter subQos hp hcalls hlast htime
    have hne : e.toNat ≠ 0 := fun h => he (UInt32.toNat_inj.mp h)
    refine retainedDeliverLoop_clearTopic fun m hm htopic => ?_
    have hsame := (slotRetained_calls hcalls).2.sound m (List.mem_filterMap.mpr ⟨some m, hm, rfl⟩)
    rw [htopic, hlast] at hsame
    cases hsame
    rw [retainedExpired_iff, hp.expirySec]
    exact ⟨hne, htime⟩
  left := by
    intro L ledger s b p t i filter subQos r hp hcalls hlast hle hlt hr x hx
    have hgain := trans_of (CarrierGains _) (carrierGains_of_orphans rfl) (retainedDeliverLoop_gains hr) x hx
    refine hgain.imp_right fun hmsg htopic => ?_
    obtain ⟨m, hm, hexp, hmade⟩ := hmsg
    have hsame := (slotRetained_calls hcalls).2.sound m (List.mem_filterMap.mpr ⟨some m, hm, rfl⟩)
    have hmtopic : m.topic = p.topicName := by
      obtain ⟨props, id, t', -, rfl⟩ := hmade
      exact htopic
    rw [hmtopic, hlast] at hsame
    cases hsame
    have hsec := hp.expirySec t
    have hbound := e.toNat_lt
    refine hmade.showsExpiry ?_ (by omega)
    have hleft : retainedProps b.env.getTime.1 (retainedOf p t) = _ :=
      retainedProps_left (by rw [hsec]; exact hbound) hle (by rw [hsec]; exact hlt)
    rw [hsec] at hleft
    exact hleft

end delivery

/-! ### Interval 0 -/

/-- A retained PUBLISH with interval 0. -/
def stalePublish : InPublish where
  len := 12
  topicName := [0x74]
  qos := .qos1
  packetId := 1
  retain := true
  duplicate := false
  buffer := [1]
  totalLen := 1
  props := [expiryProp 0]

/-- A broker with one connection, whose clock stands at 5. -/
def heapSubscriber : MqttBroker where
  clients := [{addr := 1, connected := true, protocolLevel := level5}]
  env := {now := 5, nextAddr := 2}

/-- Where the message has been stored. -/
def heapStale : MqttBroker := ((storeOfPublish stalePublish).exec {} heapSubscriber).2

theorem heapStale_stored : ∃ ledger, Calls heapRetained {} ledger heapStale ∧
    lastPut RetainedMsg.topic ledger stalePublish.topicName = some (retainedOf stalePublish 5) := by
  have hempty : Calls heapRetained {} [] heapSubscriber := .empty ⟨rfl, rfl⟩
  exact ⟨_, hempty.call (storeOfPublish stalePublish), by decide +kernel⟩

/-- A subscription at 5 has the message queued. -/
theorem heapStale_queued : ∃ x, InQueue x (Broker.retainedDeliverToClient {} 1 [0x74] .qos1 heapStale).2 ∧
    ¬InQueue x heapStale ∧ x.topic = [0x74] :=
  ⟨newOutPub 5 [0x74] [1] [] .qos1 1 true level5 0 0 0, by decide +kernel⟩

theorem not_heapHonours_zero : ¬HeapHonours 0 := by
  intro h
  obtain ⟨ledger, hcalls, hlast⟩ := heapStale_stored
  obtain ⟨x, hx, hold, htopic⟩ := heapStale_queued
  have hgain := h {} ledger heapStale stalePublish 5 1 [0x74] .qos1 rfl hcalls hlast (by decide +kernel) x hx
  exact hgain.elim hold (fun hne => hne htopic)

/-- Slots, and a connection beside them whose clock stands at 5. -/
def staleSlots : RetainedSlots :=
  (exec {} {slots := List.replicate 16 none, env := {now := 5}} (storeOfPublish stalePublish)).2

def slotSubscriber : StaticBroker where
  clients := [some {addr := 0, connected := true, protocolLevel := level5, outInflight := []}]
  orphans := []
  env := {now := 5}

theorem staleSlots_stored : ∃ ledger, Calls slotRetained {} ledger staleSlots ∧
    lastPut RetainedMsg.topic ledger stalePublish.topicName = some (retainedOf stalePublish 5) := by
  have hempty : Calls slotRetained {} [] {slots := List.replicate 16 none, env := {now := 5}} := .empty rfl
  exact ⟨_, hempty.call (storeOfPublish stalePublish), by decide +kernel⟩

/-- A subscription at 5 has the message written to its connection. -/
theorem staleSlots_written :
    ((retainedDeliver {} 0 [0x74] .qos0 staleSlots.slots slotSubscriber).bind (·.b.client? 0)).map (·.wire.length) = some 7 ∧
    ((retainedDeliver {} 0 [0x74] .qos0 (clearTopic [0x74] staleSlots.slots) slotSubscriber).bind (·.b.client? 0)).map
      (·.wire.length) = some 0 := by
  decide +kernel

theorem not_slotsHonour_zero : ¬SlotsHonour 0 := by
  intro h
  obtain ⟨ledger, hcalls, hlast⟩ := staleSlots_stored
  obtain ⟨hwritten, hclear⟩ := staleSlots_written
  have hsame := h.expired {} ledger staleSlots slotSubscriber stalePublish 5 0 [0x74] .qos0 rfl hcalls hlast (by decide +kernel)
  have hwire (r : Option Delivered) : (r.bind (·.b.client? 0)).map (·.wire.length) =
      ((r.map Delivered.seen).bind (fun s => s.2.client? 0)).map (·.wire.length) := by
    cases r <;> rfl
  rw [hwire, hsame, ← hwire] at hwritten
  exact absurd (hwritten.symm.trans hclear) (by decide)

/-! ### The result -/

/-- Retained messages honour their expiry in both builds, unless the interval is 0. -/
theorem retained_expiry (e : UInt32) : (HeapHonours e ↔ e ≠ 0) ∧ (SlotsHonour e ↔ e ≠ 0) := by
  refine ⟨⟨fun h he => ?_, heapHonours⟩, ⟨fun h he => ?_, slotsHonour⟩⟩
  · exact not_heapHonours_zero (he ▸ h)
  · exact not_slotsHonour_zero (he ▸ h)

/-- With interval 0 they do not. -/
theorem not_retained_expiry : ¬∀ e : UInt32, HeapHonours e ∧ SlotsHonour e :=
  fun h => not_heapHonours_zero (h 0).1

end WolfMqtt.Static
