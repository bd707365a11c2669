import WolfMqtt.Broker.Retained

/-! Wills: published when a connection ends without a DISCONNECT, at once or after a delay. -/
namespace WolfMqtt.Broker

/-- `BrokerClient_ClearWill` -/
def BrokerClient.clearWill (c : BrokerClient) : BrokerClient :=
  {c with hasWill := false, willQos := .qos0, willRetain := false, willDelaySec := 0, willTopic := none,
          willPayload := []}

/-! ### Publishing -/

/-- The connections a will goes to: those with a matching subscription that have sent a CONNECT. -/
def willTargets (topic : Bytes) (qos : QoS) : List BrokerSub → FanoutList → BrokerM FanoutList
  | [], fl => return fl
  | s :: rest, fl => do
    match s.client with
    | none => willTargets topic qos rest fl
    | some a =>
      match (← get).client? a with
      | none => willTargets topic qos rest fl
      | some c =>
        if c.protocolLevel ≠ 0 ∧ topicMatch s.filter topic then
          willTargets topic qos rest (← fanoutAdd fl ⟨a, qos.min s.qos⟩)
        else willTargets topic qos rest fl

/-- A QoS 0 will written straight to a connection with no write pending. -/
def writeWill (L : Limits) (topic payload : Bytes) (qos : QoS) : ClientM Unit := do
  let level ← readClient (·.protocolLevel)
  let encRc ← encodeInto (encodePublish L.txBufSz
    {topicName := topic, qos := qos, packetId := 0, retain := false, duplicate := false,
     buffer := if payload.isEmpty then none else some payload, totalLen := payload.length,
     bufferLen := 0, protocolLevel := level, props := []})
  whenDo (encRc > 0) (do
    let wrRc ← writeDirect L encRc
    whenDo (wrRc ≠ Code.continue) (zeroTxBuf encRc.toNat))

/-- Deliver a will to one connection. -/
def deliverWill (L : Limits) (topic payload : Bytes) (t : FanoutTarget) : BrokerM Unit := do
  match (← get).client? t.client with
  | none => return ()
  | some c =>
    if t.qos ≠ .qos0 ∨ c.connackPendingLen ≠ 0 ∨ c.outQPendingLen ≠ 0 ∨ c.directPendingLen ≠ 0 then
      if c.outQ.count ≥ L.maxQueuedMsgsPerSub then
        whenDo (c.connected) (onClient t.client () (quotaDisconnect L))
      else
        let rc ← enqueueFor t.client topic payload [] t.qos false
        whenDo (rc = Code.success) (do
          let _ ← onClient t.client 0 (drainOutQueue L))
    else onClient t.client () (writeWill L topic payload t.qos)

/-- Deliver a will to each of its targets in turn. -/
def deliverWills (L : Limits) (topic payload : Bytes) : List FanoutTarget → BrokerM Unit
  | [] => return ()
  | t :: rest => do
    deliverWill L topic payload t
    deliverWills L topic payload rest

/-- Apply the retain flag of a will. -/
def retainWill (L : Limits) (topic payload : Bytes) (qos : QoS) : BrokerM Unit := do
  if payload.isEmpty then retainedDelete topic
  else
    let _ ← retainedStore L topic payload qos 0

/-- `BrokerClient_PublishWillImmediate` -/
def publishWillImmediate (L : Limits) (topic payload : Bytes) (qos : QoS) (retain : Bool) : BrokerM Unit := do
  whenDo retain (retainWill L topic payload qos)
  let targets ← willTargets topic qos (← get).subs {}
  deliverWills L topic payload targets.items

/-! ### Delayed wills -/

/-- When a delayed will is due: the delay or the Session Expiry, whichever ends first, and no
later than the clock can say. -/
def willPublishTime (L : Limits) (now delaySec expirySec : Nat) : Nat :=
  let delay := if expirySec ≠ neverExpires ∧ expirySec < delaySec then expirySec else delaySec
  let maxTime := 2 ^ L.timeBits - 1
  if delay > maxTime - now then maxTime else now + delay

/-- `BrokerPendingWill_Add` -/
def pendingWillAdd (L : Limits) (c : BrokerClient) (clientId topic : Bytes) : BrokerM Int := do
  let now ← getTime
  if (← get).pendingWills.length ≥ L.maxPendingWills then return Code.memory
  match ← alloc with
  | none => return Code.memory
  | some _ =>
    modify (fun b => {b with pendingWills :=
      {clientId := clientId, topic := topic, payload := c.willPayload, qos := c.willQos,
       retain := c.willRetain, publishTime := willPublishTime L now c.willDelaySec c.sessionExpirySec} ::
        b.pendingWills})
    return Code.success

/-- `BrokerPendingWill_Cancel` -/
def pendingWillCancel (clientId : Bytes) : BrokerM Unit :=
  modify (fun b => {b with pendingWills := b.pendingWills.eraseP (fun w => w.clientId = clientId)})

/-- Hand a will with a delay over to the pending ones. -/
def delayWill (L : Limits) (c : BrokerClient) (topic : Bytes) : BrokerM Int := do
  if c.willDelaySec > 0 then pendingWillAdd L c (c.clientId.getD []) topic else return Code.memory

/-- `BrokerClient_PublishWill`: hand the will of the connection at `a` over, at most once. -/
def publishWill (L : Limits) (a : Nat) : BrokerM Unit := do
  match (← get).client? a with
  | none => return ()
  | some c =>
    match c.willTopic with
    | none => return ()
    | some topic =>
      if !c.hasWill then return ()
      let rc ← delayWill L c topic
      whenDo (rc ≠ Code.success) (publishWillImmediate L topic c.willPayload c.willQos c.willRetain)
      modify (·.updateClient a BrokerClient.clearWill)

/-- The loop of `BrokerPendingWill_Process`. -/
def pendingWillLoop (L : Limits) (now : Nat) : List PendingWill → BrokerM Unit
  | [] => return ()
  | w :: rest => do
    whenDo (now ≥ w.publishTime) (do
      publishWillImmediate L w.topic w.payload w.qos w.retain
      modify (fun b => {b with pendingWills := b.pendingWills.erase w}))
    pendingWillLoop L now rest

/-- `BrokerPendingWill_Process` -/
def pendingWillProcess (L : Limits) : BrokerM Unit := do
  let now ← getTime
  pendingWillLoop L now (← get).pendingWills

end WolfMqtt.Broker
