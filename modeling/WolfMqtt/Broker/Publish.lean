import WolfMqtt.Broker.Will
import WolfMqtt.Broker.Qos2

/-! PUBLISH from a client, and the QoS 2 packets of both directions. -/
namespace WolfMqtt.Broker

/-- What a decoder returns instead of a packet: one of the negative codes. -/
abbrev DecodeError := {rc : Int // rc < 0}

/-- A PUBLISH as `MqttDecode_Publish` leaves it. `buffer` holds the `bufferLen` bytes of the
payload that were captured, `len` is what the decoder returned: the length of the packet. -/
structure InPublish where
  len : Nat
  topicName : Bytes
  qos : QoS
  packetId : Nat
  retain : Bool
  duplicate : Bool
  buffer : Bytes
  totalLen : Nat
  props : List MqttProp
deriving Repr, DecidableEq

/-- The payload the broker forwards: as many of the captured bytes as were declared. -/
def InPublish.payload (p : InPublish) : Bytes := p.buffer.take p.totalLen

/-- The first phase of the fan-out: queue for orphans, and collect the connected. -/
def publishTargets (L : Limits) (p : InPublish) : List BrokerSub → FanoutList → BrokerM FanoutList
  | [], fl => return fl
  | s :: rest, fl => do
    if !topicMatch s.filter p.topicName then publishTargets L p rest fl
    else
      match s.client with
      | some a =>
        match (← get).client? a with
        | none => publishTargets L p rest fl
        | some c =>
          if c.protocolLevel ≠ 0 ∧ c.connected then
            publishTargets L p rest (← fanoutAdd fl ⟨a, p.qos.min s.qos⟩)
          else publishTargets L p rest fl
      | none =>
        match s.clientId.bind (orphanFind (← get)) with
        | none => publishTargets L p rest fl
        | some o =>
          whenDo (p.qos.min s.qos ≠ .qos0)
            (orphanEnqueue L o.addr p.topicName p.payload (p.qos.min s.qos) false p.props)
          publishTargets L p rest fl

/-- The second phase for one destination. The publisher's own queue is drained later, once its
response is out of the buffer. -/
def deliverPublish (L : Limits) (from_ : Nat) (p : InPublish) (t : FanoutTarget) : BrokerM Unit := do
  match (← get).client? t.client with
  | none => return ()
  | some c =>
    if !c.connected then return ()
    if c.outQ.count ≥ L.maxQueuedMsgsPerSub then onClient t.client () (quotaDisconnect L)
    else
      let rc ← enqueueFor t.client p.topicName p.payload p.props t.qos false
      whenDo (rc = Code.success ∧ t.client ≠ from_) (do
        let _ ← onClient t.client 0 (drainOutQueue L))

def deliverPublishes (L : Limits) (from_ : Nat) (p : InPublish) : List FanoutTarget → BrokerM Unit
  | [] => return ()
  | t :: rest => do
    deliverPublish L from_ p t
    deliverPublishes L from_ p rest

/-- Fan a PUBLISH out to everyone who subscribed to it. -/
def fanOut (L : Limits) (from_ : Nat) (p : InPublish) : BrokerM Unit := do
  let targets ← publishTargets L p (← get).subs {}
  deliverPublishes L from_ p targets.items

/-- Apply the retain flag of a PUBLISH. -/
def retainPublish (L : Limits) (p : InPublish) : BrokerM Unit := do
  if p.totalLen = 0 then retainedDelete p.topicName
  else
    let expiry := ((findProp p.props .msgExpiryInterval).map (·.dataInt)).getD 0
    let _ ← retainedStore L p.topicName p.payload p.qos expiry

/-- Encode and write PUBACK, PUBREC, PUBREL or PUBCOMP. -/
def sendPublishResp (L : Limits) (type : PacketType) (packetId : Nat) (reason : UInt8) : ClientM Int := do
  let level ← readClient (·.protocolLevel)
  let rc ← encodeInto (encodePublishResp L.txBufSz type
    {packetId := packetId, reasonCode := reason, protocolLevel := level})
  if rc > 0 then writeResp L rc else return rc

/-- What a QoS 2 PUBLISH is to the broker. -/
inductive Qos2Verdict where
  | fresh
  | duplicate
  | refused (rc : Int)
deriving Repr, DecidableEq

/-- Record the identifier of a QoS 2 PUBLISH, or recognise it. -/
def qos2Admit (L : Limits) (p : InPublish) : ClientM Qos2Verdict := do
  let c ← readClient id
  if p.qos ≠ .qos2 then return .fresh
  if qos2Contains c p.packetId then return .duplicate
  let addRc ← qos2Add L p.packetId
  if addRc = Code.success then return .fresh
  let _ ← sendDisconnect L (if addRc = Code.outOfBuffer then Reason.quotaExceeded else Reason.serverBusy)
  return .refused addRc

/-- The acknowledgement a PUBLISH gets, if any. -/
def ackPublish (L : Limits) (p : InPublish) : ClientM Int := do
  match p.qos with
  | .qos0 => return p.len
  | .qos1 => sendPublishResp L .publishAck p.packetId Reason.success
  | .qos2 => sendPublishResp L .publishRec p.packetId Reason.success

/-- Copy the topic name out of the receive buffer; an empty one needs no copy. -/
def copyTopic (topic : Bytes) : BrokerM Bool := do
  if topic.isEmpty then return true
  return (← alloc).isSome

/-- `BrokerHandle_Publish` after its checks: store, fan out, acknowledge. A duplicate is only
acknowledged. -/
def acceptPublish (L : Limits) (a : Nat) (p : InPublish) (duplicate : Bool) : BrokerM Int := do
  if !(← copyTopic p.topicName) then return Code.memory
  whenDo (!duplicate ∧ !p.topicName.isEmpty ∧ p.retain) (retainPublish L p)
  whenDo (!duplicate ∧ !p.topicName.isEmpty) (fanOut L a p)
  onClient a Code.badArg (ackPublish L p)

/-- `BrokerHandle_Publish`, on what the decoder returned. -/
def handlePublish (L : Limits) (a : Nat) (decoded : Except DecodeError InPublish) : BrokerM Int := do
  match decoded, (← get).client? a with
  | .error e, _ => return e.val
  | _, none => return Code.badArg
  | .ok p, some c =>
    if c.protocolLevel ≥ level5 ∧ (findProp p.props .subscriptionId).isSome then
      let _ ← onClient a 0 (sendDisconnect L Reason.protocolErr)
      return Code.malformedData
    if c.protocolLevel ≥ level5 ∧ (findProp p.props .topicAlias).isSome then
      let _ ← onClient a 0 (sendDisconnect L Reason.topicAliasInvalid)
      return Code.malformedData
    if p.totalLen > 0 ∧ p.buffer.length < p.totalLen then return Code.outOfBuffer
    match ← onClient a (.refused Code.badArg) (qos2Admit L p) with
    | .refused rc => return rc
    | .fresh => acceptPublish L a p false
    | .duplicate => acceptPublish L a p true

/-- `BrokerHandle_PublishRel`: the identifier is free again, and PUBCOMP says whether it was known. -/
def handlePublishRel (L : Limits) (decoded : Except DecodeError Nat) : ClientM Int := do
  match decoded with
  | .error e => return e.val
  | .ok packetId =>
    let c ← readClient id
    let known := qos2Contains c packetId
    qos2Remove packetId
    sendPublishResp L .publishComp packetId (if known then Reason.success else Reason.packetIdNotFound)

/-- Note which entry a PUBREL answers for. -/
def notePubrel (packetId : Nat) : ClientM Unit := do
  let entries ← readClient (·.outQ.chain)
  noteObs ((entries.filter (fun e => e.packetId = packetId ∧ e.state = .pubrelSent)).map (Obs.pubrelIssued ·.addr))

/-- Answer a PUBREC with PUBREL. -/
def sendPubrel (L : Limits) (packetId : Nat) : ClientM Int := do
  let level ← readClient (·.protocolLevel)
  let rc ← encodeInto (encodePublishResp L.txBufSz .publishRel {packetId := packetId, protocolLevel := level})
  if rc > 0 then
    notePubrel packetId
    writeResp L rc
  else return rc

/-- `BrokerHandle_PublishRec`: an identifier and a reason code from the decoder. -/
def handlePublishRec (L : Limits) (decoded : Except DecodeError (Nat × UInt8)) : ClientM Int := do
  match decoded with
  | .error e => return e.val
  | .ok (packetId, reason) =>
    let level ← readClient (·.protocolLevel)
    if level ≥ level5 ∧ reason ≥ 0x80 then
      onPubReject L packetId
      return Code.success
    if (← onPubRec packetId) < 0 then return Code.packetType
    sendPubrel L packetId

end WolfMqtt.Broker
