import WolfMqtt.Broker.Publish

/-! SUBSCRIBE and UNSUBSCRIBE: each topic of the packet in turn, then one acknowledgement. -/
namespace WolfMqtt.Broker

/-- `MAX_MQTT_TOPICS`: how many topics of a packet the handlers look at. -/
def maxTopics : Nat := 12

/-- One topic of a SUBSCRIBE as decoded. -/
structure SubTopic where
  filter : Bytes
  qos : QoS
  /-- The Retain Handling option; it means nothing below level 5. -/
  retainHandling : Nat := 0
deriving Repr, DecidableEq

/-- A SUBSCRIBE as `MqttDecode_Subscribe` leaves it. -/
structure InSubscribe where
  packetId : Nat
  topics : List SubTopic
deriving Repr, DecidableEq

/-- An UNSUBSCRIBE as `MqttDecode_Unsubscribe` leaves it. -/
structure InUnsubscribe where
  packetId : Nat
  filters : List Bytes
deriving Repr, DecidableEq

/-- `BrokerPersist_PutSubs`: what stands under the client id now, or its removal. -/
def persistPutSubs (clientId : Bytes) : BrokerM Unit := do
  let subs := (← get).subs.filter (fun s => s.clientId = some clientId)
  persistOps [if subs.isEmpty then .delSubs clientId else .putSubs clientId subs]

/-- Store the subscriptions of a session that outlives its connection, once the
acknowledgement is out. -/
def storeSubs (a : Nat) (rc : Int) : BrokerM Unit := do
  match (← get).client? a with
  | none => return ()
  | some c =>
    match c.clientId with
    | none => return ()
    | some id => whenDo (rc > 0 ∧ c.sessionExpirySec ≠ 0) (persistPutSubs id)

/-! ### SUBSCRIBE -/

/-- Does a topic ask for retained messages? Retain Handling 0 always does, 1 only for a new
subscription, 2 never. -/
def wantsRetained (level : Nat) (t : SubTopic) (subRc : Int) : Bool :=
  level < level5 || !(t.retainHandling = 2 || (t.retainHandling = 1 && subRc ≠ 1))

/-- Deliver the retained messages of a topic; a long filter needs a copy of its own. -/
def subscribeRetained (L : Limits) (a : Nat) (t : SubTopic) : BrokerM Int := do
  if t.filter.length ≥ L.maxFilterLen then
    match ← alloc with
    | none => return Code.memory
    | some _ => retainedDeliverToClient L a t.filter t.qos
  else retainedDeliverToClient L a t.filter t.qos

/-- One topic: its return code, or the error that ends the whole SUBSCRIBE. -/
def subscribeTopic (L : Limits) (a : Nat) (level : Nat) (t : SubTopic) : BrokerM (Except Int UInt8) := do
  let subRc ← subsAdd L a t.filter t.qos
  if subRc < 0 then
    return .ok (if level ≥ level5 ∧ subRc = Code.memory then Reason.quotaExceeded else 0x80)
  else if wantsRetained level t subRc then
    let rc ← subscribeRetained L a t
    if rc < 0 then return .error rc
    else return .ok (UInt8.ofNat t.qos.toNat)
  else return .ok (UInt8.ofNat t.qos.toNat)

/-- The topics in turn, with the return codes so far. -/
def subscribeTopics (L : Limits) (a : Nat) (level : Nat) :
    List SubTopic → List UInt8 → BrokerM (Except Int (List UInt8))
  | [], codes => return .ok codes
  | t :: rest, codes => do
    match ← subscribeTopic L a level t with
    | .error rc => return .error rc
    | .ok code => subscribeTopics L a level rest (codes ++ [code])

/-- `BrokerHandle_Subscribe` -/
def handleSubscribe (L : Limits) (a : Nat) (decoded : Except DecodeError InSubscribe) : BrokerM Int := do
  match decoded, (← get).client? a with
  | .error e, _ => return e.val
  | _, none => return Code.badArg
  | .ok sub, some c =>
    match ← subscribeTopics L a c.protocolLevel (sub.topics.take maxTopics) [] with
    | .error rc => return rc
    | .ok codes =>
      let rc ← onClient a Code.badArg (sendSubAck L sub.packetId codes)
      storeSubs a rc
      return rc

/-! ### UNSUBSCRIBE -/

def unsubscribeTopics (a : Nat) : List Bytes → BrokerM Unit
  | [] => return ()
  | f :: rest => do
    subsRemove a f
    unsubscribeTopics a rest

/-- Encode and write UNSUBACK; only level 5 carries reason codes. -/
def sendUnsubAck (L : Limits) (unsub : InUnsubscribe) : ClientM Int := do
  let level ← readClient (·.protocolLevel)
  let rc ← encodeInto (encodeUnsubscribeAck L.txBufSz
    {packetId := unsub.packetId
     reasonCodes := if level ≥ level5 then unsub.filters.map (fun _ => Reason.success) else []
     protocolLevel := level})
  if rc > 0 then writeResp L rc else return rc

/-- `BrokerHandle_Unsubscribe`; the decoder refuses more than `maxTopics` filters. -/
def handleUnsubscribe (L : Limits) (a : Nat) (decoded : Except DecodeError InUnsubscribe) : BrokerM Int := do
  match decoded with
  | .error e => return e.val
  | .ok unsub =>
    unsubscribeTopics a (unsub.filters.take maxTopics)
    let rc ← onClient a Code.badArg (sendUnsubAck L unsub)
    storeSubs a rc
    return rc

end WolfMqtt.Broker
