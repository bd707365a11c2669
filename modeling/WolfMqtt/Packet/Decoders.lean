import WolfMqtt.Packet.Connect
import WolfMqtt.Packet.PropPool
import WolfMqtt.Packet.Topic

/-! The decoders of `mqtt_packet.c`, on the property pool.

Each gives what it has put into the caller's object, and what it leaves alone is none there; strings and
payloads are places in the receive buffer. `stop` is where the last part that was decoded ends. The
pool and the property pointers are the state: a decoder that fails behind its properties gives them
back itself. -/
namespace WolfMqtt

open Attempt (lift onError)
open DecodeM (fail)

/-! ### The fixed header -/

/-- `FixedHeaderFlagsExpected` -/
def fixedHeaderFlagsExpected (type : Nat) : Option Nat :=
  if [1, 2, 4, 5, 7, 9, 11, 12, 13, 14, 15].contains type then some 0x0
  else if [6, 8, 10].contains type then some 0x2
  else none

/-- `MqttPacket_FixedHeaderFlagsValid` -/
def fixedHeaderFlagsValid (typeFlags : UInt8) : Bool :=
  let type := typeFlags.toNat / 16
  let flags := typeFlags.toNat % 16
  if type = PacketType.publish.toNat then
    let qos := flags / 2 % 4
    if qos > 2 then false
    else !(qos = 0 && flags / 8 = 1)
  else
    match fixedHeaderFlagsExpected type with
    | some expected => flags = expected
    | none => false

/-- `MqttDecode_FixedHeader`: the header's length, the Remaining Length and the first byte. -/
def scanHeader (rx : Bytes) (type : PacketType) : Except Fault (Nat × Nat × UInt8) :=
  if rx.length < 2 then .error (.code Code.outOfBuffer)
  else do
    let (remainLen, n) ← scanVbi rx 1 (rx.length - 1)
    if remainLen > maxRemainLen then .error (.code Code.malformedData)
    else
      let first ← readByte rx 0
      if first.toNat / 16 ≠ type.toNat then .error (.code Code.packetType)
      else if !fixedHeaderFlagsValid first then .error (.code Code.malformedData)
      else .ok (n + 1, remainLen, first)

/-! ### Properties -/

/-- The length of a property list and the list behind it, in a buffer that ends at `limit`. `refuse` is what
the decoder makes of the length and of the size of its field. The results are where the list should end, and
where it did. -/
def propSectionM (w : Whose) (packet : PacketType) (rx : Bytes) (limit pos : Nat) (refuse : Nat → Nat → Option Int) :
    DecodeM (Nat × Nat) := do
  let (len, n) ← lift (scanVbi rx pos (wordDiff limit pos))
  match refuse len n with
  | some e => fail e
  | none =>
    if len > 0 then do
      let total ← decodePropsM w packet rx (pos + n) (wordDiff limit (pos + n)) len
      pure (pos + n + len, pos + n + total)
    else pure (pos + n + len, pos + n)

/-- A length that is more than `room` is refused. -/
def refuseOver (room : Nat) (e : Int) (len : Nat) : Option Int := if len ≤ room then none else some e

/-! ### CONNECT and CONNACK -/

/-- The properties of a CONNECT or of its will. -/
def connectPropsM (w : Whose) (level : UInt8) (rx : Bytes) (pos : Nat) : DecodeM Nat :=
  if level = 5 then
    if rx.length < pos then fail Code.outOfBuffer
    else do
      let (_, stop) ← propSectionM w .connect rx rx.length pos (fun _ _ => none)
      pure stop
  else pure pos

/-- The section of the will, and where it ends. -/
def connectWillM (hasLwt : Bool) (level flags : UInt8) (rx : Bytes) (limit pos : Nat) : DecodeM (LwtView × Nat) :=
  if !hasLwt then fail Code.badArg
  else do
    let pos ← connectPropsM .will level rx pos
    let props ← viewProps .will
    if !props.all (fun p => willPropsValidateType p.type) then fail Code.property
    else do
      let (topic, pos) ← lift (scanField rx limit pos)
      if topic.len = 0 || !topicNameValid (topic.get rx) level.toNat then fail Code.malformedData
      else do
        let (buffer, pos) ← lift (scanWillPayload rx limit pos)
        pure ({ qos := ((flags &&& 0x18) >>> 3).toNat
                retain := if flags &&& 0x20 ≠ 0 then 1 else 0
                props
                topicName := topic
                buffer }, pos)

/-- All of a CONNECT behind its flags. -/
def connectPayloadM (hasLwt : Bool) (level flags : UInt8) (keepAlive : Nat) (rx : Bytes) (limit pos : Nat) :
    DecodeM ConnectView := do
  let pos ← connectPropsM .own level rx pos
  let props ← viewProps .own
  let (clientId, pos) ← lift (scanField rx limit pos)
  let (lwtMsg, pos) ←
    if flags &&& 0x04 ≠ 0 then do
      let (will, pos) ← connectWillM hasLwt level flags rx limit pos
      pure (some will, pos)
    else pure (none, pos)
  let (username, pos) ← lift (scanOptional (flags &&& 0x80 ≠ 0) (scanField rx limit) pos)
  let (password, pos) ← lift (scanOptional (flags &&& 0x40 ≠ 0) (scanPassword rx limit) pos)
  if pos ≠ limit then fail Code.malformedData
  else
    pure { protocolLevel := level
           cleanSession := if flags &&& 0x02 ≠ 0 then 1 else 0
           keepAliveSec := keepAlive
           props
           clientId
           lwtMsg
           username
           password }

/-- The pointers that a CONNECT sets up front: the will's only if there is one and somewhere to put it. -/
def connectNull (hasLwt : Bool) (flags : UInt8) : DecodeM Unit := do
  nullProps .own
  if flags &&& 0x04 ≠ 0 && hasLwt then nullProps .will else pure ()

/-- The `cleanup` label of `MqttDecode_Connect`, on an error. -/
def connectCleanup (hasLwt : Bool) (flags : UInt8) : DecodeM Unit := do
  freeProps .own
  if flags &&& 0x04 ≠ 0 && hasLwt then freeProps .will else pure ()

/-- `MqttDecode_Connect`, with or without a `lwt_msg` to fill in. -/
def decodeConnectM (hasLwt : Bool) (rx : Bytes) : DecodeM (Nat × ConnectView) :=
  if rx.length = 0 then fail Code.badArg
  else do
    let (headerLen, remainLen) ← lift (scanFixedHeader rx .connect)
    let limit := headerLen + remainLen
    if rx.length < limit then fail Code.outOfBuffer
    else if 10 > remainLen || rx.length < headerLen + 10 then fail Code.outOfBuffer
    else do
      let packet ← lift (readBytes rx headerLen 10)
      match packet with
      | [len₁, len₀, m, q, t, t', level, flags, keep₁, keep₀] =>
        if len₁.toNat * 256 + len₀.toNat ≠ 4 || [m, q, t, t'] ≠ [0x4D, 0x51, 0x54, 0x54] then
          fail Code.malformedData
        else do
          connectNull hasLwt flags
          onError (do
            if !connectFlagsValid level flags then fail Code.malformedData
            else do
              let keepAlive := keep₁.toNat * 256 + keep₀.toNat
              let c ← connectPayloadM hasLwt level flags keepAlive rx limit (headerLen + 10)
              pure (limit, c))
            (connectCleanup hasLwt flags)
      | _ => lift (.error .overrun)

structure ConnectAckView where
  len : Nat
  flags : UInt8
  returnCode : UInt8
  props : List PropView
deriving Repr, DecidableEq

/-- The properties of a CONNACK, which end where the packet does. -/
def connectAckProps (rx : Bytes) (packetEnd pos : Nat) : DecodeM Unit := do
  let (_, stop) ← propSectionM .own .connectAck rx packetEnd pos
    (fun len n => refuseOver (wordDiff packetEnd (pos + n)) Code.outOfBuffer len)
  if stop ≠ packetEnd then do
    freeProps .own
    fail Code.malformedData
  else pure ()

/-- `MqttDecode_ConnectAck` -/
def decodeConnectAck (level : Nat) (rx : Bytes) : DecodeM ConnectAckView :=
  if rx.length = 0 then fail Code.badArg
  else do
    let (headerLen, remainLen, _) ← lift (scanHeader rx .connectAck)
    if (if level ≥ level5 then remainLen < 2 else remainLen ≠ 2) then fail Code.malformedData
    else if rx.length < headerLen + remainLen then fail Code.outOfBuffer
    else do
      let flags ← lift (readByte rx headerLen)
      let returnCode ← lift (readByte rx (headerLen + 1))
      if flags &&& 0xFE ≠ 0 then fail Code.malformedData
      else if returnCode ≠ 0 && flags &&& 0x01 ≠ 0 then fail Code.malformedData
      else do
        nullProps .own
        if level ≥ level5 then connectAckProps rx (headerLen + remainLen) (headerLen + 2) else pure ()
        let props ← viewProps .own
        pure {len := headerLen + remainLen, flags, returnCode, props}

/-! ### PUBLISH and its responses -/

structure PublishView where
  len : Nat
  qos : Nat
  retain : UInt8
  duplicate : UInt8
  topicName : Slice
  packetId : Option Nat
  props : List PropView
  /-- `buffer` and `buffer_len` -/
  buffer : Slice
  totalLen : Nat
deriving Repr, DecidableEq

/-- The packet identifier that a PUBLISH has above QoS 0, and where it ends. -/
def scanPublishId (rx : Bytes) (qos pos : Nat) : Except Fault (Option Nat × Nat) :=
  if qos > 0 then
    if pos + 2 > rx.length then .error (.code Code.outOfBuffer)
    else do
      let id ← scanNum rx pos (wordDiff rx.length pos)
      if id = 0 then .error (.code Code.packetId)
      else if pos + 2 ≤ rx.length then .ok (some id, pos + 2)
      else .error (.code Code.outOfBuffer)
  else .ok (none, pos)

/-- The properties of a PUBLISH, with a Topic Alias if the topic is empty. -/
def publishPropsM (level : Nat) (rx : Bytes) (topicLen pos : Nat) : DecodeM (Nat × Nat) :=
  if level ≥ level5 then
    if rx.length < pos then fail Code.outOfBuffer
    else do
      let (varEnd, stop) ← propSectionM .own .publish rx rx.length pos
        (fun len n => if pos + (n + len) ≤ rx.length then none else some Code.outOfBuffer)
      let props ← viewProps .own
      if topicLen = 0 && !props.any (·.type = .topicAlias) then do
        freeProps .own
        fail Code.malformedData
      else pure (varEnd, stop)
  else pure (pos, pos)

/-- `MqttDecode_Publish` -/
def decodePublish (level : Nat) (rx : Bytes) : DecodeM PublishView :=
  if rx.length = 0 then fail Code.badArg
  else do
    let (headerLen, remainLen, first) ← lift (scanHeader rx .publish)
    let qos := first.toNat / 2 % 4
    let topic ← lift (scanString rx headerLen (wordDiff rx.length headerLen))
    if headerLen + (2 + topic.len) > rx.length then fail Code.outOfBuffer
    else if !topicNameValid (topic.get rx) level then fail Code.malformedData
    else do
      let (packetId, pos) ← lift (scanPublishId rx qos (headerLen + (2 + topic.len)))
      nullProps .own
      let (varEnd, stop) ← publishPropsM level rx topic.len pos
      if varEnd > headerLen + remainLen then do
        freeProps .own
        fail Code.outOfBuffer
      else do
        let payloadLen := headerLen + remainLen - varEnd
        let props ← viewProps .own
        pure { len := varEnd + payloadLen
               qos
               retain := if first.toNat % 2 = 1 then 1 else 0
               duplicate := if first.toNat / 8 % 2 = 1 then 1 else 0
               topicName := topic
               packetId
               props
               buffer := ⟨stop, if payloadLen > rx.length - varEnd then rx.length - varEnd else payloadLen⟩
               totalLen := payloadLen }

/-- The reason code and the properties of a packet that may end in front of either, `left` bytes being left
of it at `pos`: the reason, and where it ends. -/
def reasonAndProps (packet : PacketType) (rx : Bytes) (pos left : Nat) : DecodeM (UInt8 × Nat) :=
  if left > 0 then
    if rx.length < pos + 1 then fail Code.outOfBuffer
    else do
      let reason ← lift (readByte rx pos)
      if left > 1 then
        if rx.length < pos + 1 then fail Code.outOfBuffer
        else do
          let (_, stop) ← propSectionM .own packet rx rx.length (pos + 1)
            (fun len _ => refuseOver (wordDiff rx.length (pos + 1)) Code.outOfBuffer len)
          pure (reason, stop)
      else pure (reason, pos + 1)
  else pure (Reason.success, pos)

structure PublishRespView where
  len : Nat
  packetId : Nat
  reasonCode : Option UInt8
  props : List PropView
  stop : Nat
deriving Repr, DecidableEq

/-- `MqttDecode_PublishResp`: PUBACK, PUBREC, PUBREL and PUBCOMP. -/
def decodePublishResp (type : PacketType) (level : Nat) (rx : Bytes) : DecodeM PublishRespView :=
  if rx.length = 0 then fail Code.badArg
  else do
    let (headerLen, remainLen, _) ← lift (scanHeader rx type)
    if (if level ≥ level5 then remainLen < 2 else remainLen ≠ 2) then fail Code.malformedData
    else do
      let packetId ← lift (scanNum rx headerLen (wordDiff rx.length headerLen))
      if packetId = 0 then fail Code.packetId
      else do
        nullProps .own
        let (reasonCode, stop) ←
          if level ≥ level5 then do
            let (reason, stop) ← reasonAndProps type rx (headerLen + 2) (remainLen - 2)
            pure (some reason, stop)
          else pure (none, headerLen + 2)
        let props ← viewProps .own
        pure {len := headerLen + remainLen, packetId, reasonCode, props, stop}

/-! ### SUBSCRIBE, UNSUBSCRIBE and their acknowledgements -/

/-- `MAX_MQTT_TOPICS` -/
def maxTopics : Nat := 12

/-- `MqttTopic`; an UNSUBSCRIBE has no options. -/
structure TopicView where
  filter : Slice
  qos : Nat := 0
  subOptions : UInt8 := 0
deriving Repr, DecidableEq

structure SubscribeView where
  len : Nat
  packetId : Nat
  topics : List TopicView
  props : List PropView
deriving Repr, DecidableEq

/-- A valid topic filter in front of `limit`, and where it ends. -/
def scanFilter (level : Nat) (rx : Bytes) (limit pos : Nat) : Except Fault (Slice × Nat) := do
  let s ← scanString rx pos (wordDiff limit pos)
  if pos + (2 + s.len) > limit then .error (.code Code.outOfBuffer)
  else if !topicFilterValid (s.get rx) level then .error (.code Code.malformedData)
  else .ok (s, pos + (2 + s.len))

/-- Are these the options of a subscription to this filter? -/
def subOptionsValid (level : Nat) (filter : Bytes) (options : UInt8) : Bool :=
  if level ≥ level5 then
    if options &&& 0xC0 ≠ 0 || options &&& 0x03 > 2 || options >>> 4 &&& 0x03 = 0x03 then false
    else !(options &&& 0x04 ≠ 0 && topicFilterIsShared filter)
  else !(options &&& 0xFC ≠ 0 || options &&& 0x03 > 2)

/-- One turn of the loop of `MqttDecode_Subscribe`. -/
def scanSubscription (level : Nat) (rx : Bytes) (limit pos : Nat) : Except Fault (TopicView × Nat) := do
  let (filter, pos) ← scanFilter level rx limit pos
  if pos ≥ limit then .error (.code Code.outOfBuffer)
  else
    let options ← readByte rx pos
    if !subOptionsValid level (filter.get rx) options then .error (.code Code.malformedData)
    else .ok ({filter, qos := (options &&& 0x03).toNat, subOptions := options &&& 0x3C}, pos + 1)

/-- One turn of the loop of `MqttDecode_Unsubscribe`. -/
def scanUnsubscription (level : Nat) (rx : Bytes) (limit pos : Nat) : Except Fault (TopicView × Nat) := do
  let (filter, pos) ← scanFilter level rx limit pos
  .ok ({filter}, pos)

/-- The loops over the topics up to `limit`, with `left` topics still allowed. -/
def scanTopicsLoop (scan : Nat → Except Fault (TopicView × Nat)) (limit : Nat) : Nat → Nat → Except Fault (List TopicView)
  | 0, pos => if pos < limit then .error (.code Code.outOfBuffer) else .ok []
  | left + 1, pos =>
    if pos < limit then do
      let (topic, pos) ← scan pos
      let rest ← scanTopicsLoop scan limit left pos
      .ok (topic :: rest)
    else .ok []

/-- The topics of a packet, one at least. -/
def scanTopics (scan : Nat → Except Fault (TopicView × Nat)) (limit pos : Nat) : Except Fault (List TopicView) := do
  let topics ← scanTopicsLoop scan limit maxTopics pos
  if topics.isEmpty then .error (.code Code.malformedData) else .ok topics

/-- What `MqttDecode_Subscribe` and `MqttDecode_Unsubscribe` share: all but what a topic looks like. -/
def decodeTopics (type : PacketType) (scan : Bytes → Nat → Nat → Except Fault (TopicView × Nat)) (level : Nat)
    (rx : Bytes) : DecodeM SubscribeView :=
  if rx.length = 0 then fail Code.badArg
  else do
    let (headerLen, remainLen, _) ← lift (scanHeader rx type)
    let limit := headerLen + remainLen
    if rx.length < limit then fail Code.outOfBuffer
    else do
      let packetId ← lift (scanNum rx headerLen (wordDiff rx.length headerLen))
      if packetId = 0 then fail Code.packetId
      else do
        nullProps .own
        let pos := headerLen + 2
        let pos ←
          if level ≥ level5 then
            if rx.length < pos then fail Code.outOfBuffer
            else do
              let (_, stop) ← propSectionM .own type rx rx.length pos (fun _ _ => none)
              pure stop
          else pure pos
        let topics ← onError (lift (scanTopics (scan rx limit) limit pos)) (freeProps .own)
        let props ← viewProps .own
        pure {len := headerLen + remainLen, packetId, topics, props}

/-- `MqttDecode_Subscribe` -/
def decodeSubscribe (level : Nat) (rx : Bytes) : DecodeM SubscribeView :=
  decodeTopics .subscribe (scanSubscription level) level rx

/-- `MqttDecode_Unsubscribe` -/
def decodeUnsubscribe (level : Nat) (rx : Bytes) : DecodeM SubscribeView :=
  decodeTopics .unsubscribe (scanUnsubscription level) level rx

/-- `MqttPacket_SubAckReturnCodeValid` -/
def subAckReturnCodeValid (code : UInt8) (level : Nat) : Bool :=
  [0, 1, 2, 0x80].contains code ||
    level ≥ level5 &&
      [Reason.implSpecificErr, Reason.notAuthorized, Reason.topicFilterInvalid, Reason.packetIdInUse,
        Reason.quotaExceeded, Reason.ssNotSupported, Reason.subIdNotSup, Reason.wildcardSubNotSup].contains code

structure SubscribeAckView where
  len : Nat
  packetId : Nat
  /-- The front of `return_codes`, zero behind it. -/
  returnCodes : Bytes
  returnCodeCount : Nat
  props : List PropView
deriving Repr, DecidableEq

/-- Fail behind the properties. -/
def freeAndFail {α : Type} (rc : Int) : DecodeM α := do
  freeProps .own
  fail rc

/-- `MqttDecode_SubscribeAck` -/
def decodeSubscribeAck (level : Nat) (rx : Bytes) : DecodeM SubscribeAckView :=
  if rx.length = 0 then fail Code.badArg
  else do
    let (headerLen, remainLen, _) ← lift (scanHeader rx .subscribeAck)
    if remainLen < 2 then fail Code.malformedData
    else do
      let packetId ← lift (scanNum rx headerLen (wordDiff rx.length headerLen))
      nullProps .own
      let pos := headerLen + 2
      let stop ←
        if level ≥ level5 && remainLen > 2 then
          if rx.length < pos then fail Code.outOfBuffer
          else do
            let (_, stop) ← propSectionM .own .subscribeAck rx rx.length pos
              (fun len _ => refuseOver (wordDiff rx.length pos) Code.outOfBuffer len)
            pure stop
        else pure pos
      let payloadLen : Int := headerLen + remainLen - stop
      let bufRemain : Int := rx.length - stop
      if payloadLen < 0 || bufRemain < 0 then freeAndFail Code.outOfBuffer
      else if payloadLen > bufRemain then freeAndFail Code.outOfBuffer
      else
        let codes := (rx.drop stop).take (min payloadLen.toNat maxTopics)
        if !codes.all (subAckReturnCodeValid · level) then freeAndFail Code.malformedData
        else do
          let props ← viewProps .own
          pure { len := headerLen + remainLen
                 packetId
                 returnCodes := codes
                 returnCodeCount := min payloadLen.toNat 0xFFFF
                 props }

structure UnsubscribeAckView where
  len : Nat
  packetId : Nat
  /-- The reason codes, as many as `reason_code_count` says. -/
  reasonCodes : Option Bytes
  props : List PropView
deriving Repr, DecidableEq

/-- The properties and the reason codes of an UNSUBACK, `left` bytes of it being left at `pos`. -/
def unsubscribeAckReasons (rx : Bytes) (packetEnd pos left : Nat) : DecodeM Bytes := do
  let stop ←
    if left > 0 then do
      let (_, stop) ← propSectionM .own .unsubscribeAck rx packetEnd pos
        (fun len n => refuseOver (wordDiff packetEnd (pos + n)) Code.outOfBuffer len)
      pure stop
    else pure pos
  if stop > packetEnd then fail Code.outOfBuffer
  else
    let codes := (rx.drop stop).take ((packetEnd - stop) % 65536)
    if !codes.all unsubAckReasonCodeValid then freeAndFail Code.malformedData else pure codes

/-- `MqttDecode_UnsubscribeAck` -/
def decodeUnsubscribeAck (level : Nat) (rx : Bytes) : DecodeM UnsubscribeAckView :=
  if rx.length = 0 then fail Code.badArg
  else do
    let (headerLen, remainLen, _) ← lift (scanHeader rx .unsubscribeAck)
    if rx.length < headerLen + remainLen then fail Code.outOfBuffer
    else if (if level ≥ level5 then remainLen < 2 else remainLen ≠ 2) then fail Code.malformedData
    else do
      let packetId ← lift (scanNum rx headerLen (wordDiff rx.length headerLen))
      nullProps .own
      let reasonCodes ←
        if level ≥ level5 then do
          let codes ← unsubscribeAckReasons rx (headerLen + remainLen) (headerLen + 2) (remainLen - 2)
          pure (some codes)
        else pure none
      let props ← viewProps .own
      pure {len := headerLen + remainLen, packetId, reasonCodes, props}

/-! ### DISCONNECT and AUTH -/

/-- What is decoded of a DISCONNECT or an AUTH. -/
structure ReasonView where
  len : Nat
  reasonCode : UInt8
  props : List PropView
  stop : Nat
deriving Repr, DecidableEq

/-- `MqttDecode_Disconnect` -/
def decodeDisconnect (rx : Bytes) : DecodeM ReasonView :=
  if rx.length = 0 then fail Code.badArg
  else do
    let (headerLen, remainLen, _) ← lift (scanHeader rx .disconnect)
    nullProps .own
    let (reasonCode, stop) ← reasonAndProps .disconnect rx headerLen remainLen
    let props ← viewProps .own
    pure {len := headerLen + remainLen, reasonCode, props, stop}

/-- `MQTT_REASON_CONT_AUTH` and `MQTT_REASON_REAUTH` -/
def Reason.contAuth : UInt8 := 0x18
def Reason.reAuth : UInt8 := 0x19

/-- The reason code and the properties of an AUTH, which has both. -/
def authReason (rx : Bytes) (pos : Nat) : DecodeM (UInt8 × Nat) :=
  if rx.length < pos + 1 then fail Code.outOfBuffer
  else do
    let reason ← lift (readByte rx pos)
    if reason = Reason.success || reason = Reason.contAuth || reason = Reason.reAuth then
      if rx.length < pos + 1 then fail Code.outOfBuffer
      else do
        let (_, stop) ← propSectionM .own .auth rx rx.length (pos + 1)
          (fun len n =>
            if len ≤ wordDiff rx.length (pos + 1) then
              if pos + 1 + n > rx.length then some Code.outOfBuffer else none
            else some Code.malformedData)
        let props ← viewProps .own
        if props.isEmpty then fail Code.malformedData else pure (reason, stop)
    else fail Code.malformedData

/-- `MqttDecode_Auth` -/
def decodeAuth (rx : Bytes) : DecodeM ReasonView :=
  if rx.length = 0 then fail Code.badArg
  else do
    let (headerLen, remainLen, _) ← lift (scanHeader rx .auth)
    nullProps .own
    let (reasonCode, stop) ← if remainLen > 0 then authReason rx headerLen else pure (Reason.success, headerLen)
    let props ← viewProps .own
    pure {len := headerLen + remainLen, reasonCode, props, stop}

end WolfMqtt
