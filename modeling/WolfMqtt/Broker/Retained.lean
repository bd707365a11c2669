import WolfMqtt.Broker.Subs

/-! Retained messages: one per topic, delivered to a new subscription. -/
namespace WolfMqtt.Broker

/-- Has the Message Expiry Interval of a retained message elapsed? -/
def retainedExpired (now : Nat) (m : RetainedMsg) : Bool :=
  m.expirySec > 0 && now ≥ m.storeTime && now - m.storeTime ≥ m.expirySec

/-- `BrokerRetained_ReapExpired` -/
def retainedReapExpired (now : Nat) : BrokerM Unit := do
  let expired := (← get).retained.filter (retainedExpired now)
  persistOps (expired.map (fun m => .delRetained m.topic))
  modify (fun b => {b with
    retained := b.retained.filter (fun m => !retainedExpired now m)
    retainedCount := max (b.retainedCount - expired.length) (min b.retainedCount 0)})

/-- What the store holds after a message for `topic`: in the place of the old one, or first. -/
def retainedPut (m : RetainedMsg) (msgs : List RetainedMsg) : List RetainedMsg :=
  if msgs.any (fun x => x.topic = m.topic) then
    msgs.replaceF (fun x => if x.topic = m.topic then some m else none)
  else m :: msgs

/-- So many allocations in a row, up to the first that fails. -/
def allocAll : Nat → BrokerM Bool
  | 0 => return true
  | n + 1 => do
    match ← alloc with
    | none => return false
    | some _ => allocAll n

/-- What is allocated for a message: its node and its topic when the topic is new, and its
payload when there is one. -/
def retainedAllocs (known : Bool) (payload : Bytes) : Nat :=
  (if known then 0 else 2) + (if payload.isEmpty then 0 else 1)

/-- `BrokerRetained_Store`, once expired messages are out of the way. -/
def retainedInsert (L : Limits) (topic payload : Bytes) (qos : QoS) (expirySec : Nat) : BrokerM Int := do
  let b ← get
  let known := b.retained.any (fun m => m.topic = topic)
  if !known ∧ b.retainedCount ≥ L.maxRetained then return Code.memory
  if !(← allocAll (retainedAllocs known payload)) then return Code.memory
  let m : RetainedMsg := {topic, payload, storeTime := ← getTime, expirySec, qos}
  modify (fun b => {b with
    retained := retainedPut m b.retained
    retainedCount := if known then b.retainedCount else b.retainedCount + 1})
  persistOps [.putRetained m]
  return Code.success

/-- `BrokerRetained_Store` -/
def retainedStore (L : Limits) (topic payload : Bytes) (qos : QoS) (expirySec : Nat) : BrokerM Int := do
  retainedReapExpired (← getTime)
  retainedInsert L topic payload qos expirySec

/-- `BrokerRetained_Delete` -/
def retainedDelete (topic : Bytes) : BrokerM Unit := do
  let b ← get
  whenDo (b.retained.any (fun m => m.topic = topic)) (do
    modify (fun b => {b with
      retained := b.retained.eraseP (fun m => m.topic = topic)
      retainedCount := if b.retainedCount > 0 then b.retainedCount - 1 else b.retainedCount})
    persistOps [.delRetained topic])

/-- Queue one retained message for the connection at `a`; anything but success ends the delivery. -/
def retainedDeliverOne (L : Limits) (a : Nat) (m : RetainedMsg) (subQos : QoS) : BrokerM Int := do
  match (← get).client? a with
  | none => return Code.badArg
  | some c =>
    if c.outQ.count ≥ L.maxQueuedMsgsPerSub then
      onClient a () (quotaDisconnect L)
      return Code.memory
    else enqueueFor a m.topic m.payload [] (m.qos.min subQos) true

/-- The loop of `BrokerRetained_DeliverToClient`: expired messages are dropped on the way. -/
def retainedDeliverLoop (L : Limits) (a : Nat) (filter : Bytes) (subQos : QoS) (now : Nat) :
    List RetainedMsg → BrokerM Int
  | [] => return Code.success
  | m :: rest => do
    if retainedExpired now m then
      persistOps [.delRetained m.topic]
      modify (fun b => {b with
        retained := b.retained.eraseP (· = m)
        retainedCount := if b.retainedCount > 0 then b.retainedCount - 1 else b.retainedCount})
      retainedDeliverLoop L a filter subQos now rest
    else if topicMatch filter m.topic then
      let rc ← retainedDeliverOne L a m subQos
      if rc ≠ Code.success then return rc
      retainedDeliverLoop L a filter subQos now rest
    else retainedDeliverLoop L a filter subQos now rest

/-- `BrokerRetained_DeliverToClient` -/
def retainedDeliverToClient (L : Limits) (a : Nat) (filter : Bytes) (subQos : QoS) : BrokerM Int := do
  let now ← getTime
  retainedDeliverLoop L a filter subQos now (← get).retained

end WolfMqtt.Broker
