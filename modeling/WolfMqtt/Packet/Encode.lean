import WolfMqtt.Packet.Types

/-! Encoders: the packets the broker writes, as `mqtt_packet.c` builds them.

An encoder works on the front of `tx_buf`. The source measures a packet first and
writes it second, except that the fixed header goes in before the check for room; so
an encoder's result is a return code together with the bytes it has put at the front
of the buffer, which on failure may be a header without its packet. -/
namespace WolfMqtt

/-- A return code, and the bytes now at the front of `tx_buf`. -/
structure Encoded where
  rc : Int
  out : Bytes
deriving Repr, DecidableEq

namespace Encoded

def fail (rc : Int) : Encoded := ⟨rc, []⟩

def done (out : Bytes) : Encoded := ⟨out.length, out⟩

end Encoded

/-! ### Integers, strings and binary data -/

/-- `MQTT_PACKET_MAX_REMAIN_LEN` -/
def maxRemainLen : Nat := 0x0FFFFFFF

/-- `MQTT_PACKET_MAX_LEN_BYTES` -/
def maxLenBytes : Nat := 4

/-- The loop of `MqttEncode_Vbi`, seven bits a turn and at most four turns. -/
def vbiBytes : Nat → Nat → Bytes
  | 0, _ => []
  | fuel + 1, x =>
    if x / 128 > 0 then UInt8.ofNat (x % 128 + 128) :: vbiBytes fuel (x / 128)
    else [UInt8.ofNat (x % 128)]

def encodeVbi (x : Nat) : Except Int Bytes :=
  if x > maxRemainLen then .error Code.malformedData else .ok (vbiBytes maxLenBytes x)

def encodeNum (n : Nat) : Bytes := [UInt8.ofNat (n / 256), UInt8.ofNat n]

def encodeInt (n : Nat) : Bytes :=
  [UInt8.ofNat (n / 16777216), UInt8.ofNat (n / 65536), UInt8.ofNat (n / 256), UInt8.ofNat n]

def encodeData (data : Bytes) : Bytes := encodeNum data.length ++ data

/-- `Utf8WellFormed`: RFC 3629 without U+0000. -/
def utf8WellFormed : Bytes → Bool
  | [] => true
  | b0 :: rest =>
    if b0 = 0x00 then false
    else if b0 < 0x80 then utf8WellFormed rest
    else if b0 < 0xC2 || b0 > 0xF4 then false
    else if b0 < 0xE0 then
      match rest with
      | b1 :: tail => if b1 &&& 0xC0 != 0x80 then false else utf8WellFormed tail
      | _ => false
    else if b0 < 0xF0 then
      match rest with
      | b1 :: b2 :: tail =>
        if b1 &&& 0xC0 != 0x80 || b2 &&& 0xC0 != 0x80 then false
        else if b0 = 0xE0 && b1 < 0xA0 then false
        else if b0 = 0xED && b1 ≥ 0xA0 then false
        else utf8WellFormed tail
      | _ => false
    else
      match rest with
      | b1 :: b2 :: b3 :: tail =>
        if b1 &&& 0xC0 != 0x80 || b2 &&& 0xC0 != 0x80 || b3 &&& 0xC0 != 0x80 then false
        else if b0 = 0xF0 && b1 < 0x90 then false
        else if b0 = 0xF4 && b1 ≥ 0x90 then false
        else utf8WellFormed tail
      | _ => false

/-- `MqttPacket_TopicNameValid`: no wildcard, and not empty below level 5. -/
def topicNameValid (topic : Bytes) (level : Nat) : Bool :=
  if topic.any (fun b => b = 0x23 || b = 0x2B) then false
  else !(topic.isEmpty && level < level5)

/-! ### Properties -/

/-- `MQTT_MAX_PROPS` -/
def maxProps : Nat := 30

/-- The value of one property, after its identifier. -/
def encodePropValue (p : MqttProp) : Except Int Bytes :=
  match p.type.dataType with
  | .byte => if p.dataByte > 1 then .error Code.property else .ok [p.dataByte]
  | .short =>
    if p.type = .topicAlias && p.dataShort = 0 then .error Code.property
    else .ok (encodeNum p.dataShort)
  | .int =>
    if p.type = .maxPacketSz && p.dataInt = 0 then .error Code.property
    else .ok (encodeInt p.dataInt)
  | .string =>
    if p.type = .respTopic && !topicNameValid p.dataStr level5 then .error Code.malformedData
    else if !utf8WellFormed p.dataStr then .error Code.malformedData
    else .ok (encodeData p.dataStr)
  | .varInt =>
    if p.type = .subscriptionId && p.dataInt = 0 then .error Code.property
    else encodeVbi p.dataInt
  | .binary => .ok (encodeData p.dataBin)
  | .stringPair =>
    if !utf8WellFormed p.dataStr || !utf8WellFormed p.dataStr2 then .error Code.malformedData
    else .ok (encodeData p.dataStr ++ encodeData p.dataStr2)

/-- May this property occur more than once in this packet? -/
def propRepeats (packet : PacketType) (type : PropType) : Bool :=
  type = .userProp || (type = .subscriptionId && packet = .publish)

/-- The loop of `MqttEncode_Props`: `count` properties and `rc` bytes so far, `seen` the
types that may not come again. -/
def encodePropsLoop (packet : PacketType) (count : Nat) (seen : List PropType) (rc : Nat) :
    List MqttProp → Except Int Bytes
  | [] => .ok []
  | p :: rest =>
    if count + 1 > maxProps then .error Code.property
    else if !p.type.allowedIn packet then .error Code.propertyMismatch
    else if !propRepeats packet p.type && seen.contains p.type then .error Code.property
    else
      match encodePropValue p with
      | .error e => .error e
      | .ok value =>
        let here := vbiBytes maxLenBytes p.type.toNat ++ value
        if rc + here.length > maxRemainLen then .error Code.outOfBuffer
        else
          match encodePropsLoop packet (count + 1) (p.type :: seen) (rc + here.length) rest with
          | .error e => .error e
          | .ok bytes => .ok (here ++ bytes)

def encodeProps (packet : PacketType) (props : List MqttProp) : Except Int Bytes :=
  encodePropsLoop packet 0 [] 0 props

/-- A property block: the length of the list, then the list. A list that does not encode
is reported as `MQTT_CODE_ERROR_PROPERTY` by every caller. -/
def encodePropBlock (packet : PacketType) (props : List MqttProp) : Except Int Bytes :=
  match encodeProps packet props with
  | .error _ => .error Code.property
  | .ok bytes =>
    match encodeVbi bytes.length with
    | .error e => .error e
    | .ok len => .ok (len ++ bytes)

/-! ### Fixed header -/

/-- `MqttEncode_FixedHeader`, on a Remaining Length that may be any `int`. -/
def encodeFixedHeader (txLen : Nat) (remainLen : Int) (type : PacketType) (retain : Bool)
    (qos : QoS) (duplicate : Bool) : Encoded :=
  if txLen < maxLenBytes + 1 then .fail Code.outOfBuffer
  else
    let first := type.toNat * 16 + (if retain then 1 else 0) + qos.toNat * 2 +
      (if duplicate then 8 else 0)
    match encodeVbi (remainLen % 4294967296).toNat with
    | .error e => ⟨e, [UInt8.ofNat first]⟩
    | .ok len => .done (UInt8.ofNat first :: len)

/-- A packet whose whole body must fit: header, room check, body. -/
def encodePacket (txLen : Nat) (type : PacketType) (qos : QoS) (body : Bytes) : Encoded :=
  let header := encodeFixedHeader txLen body.length type false qos false
  if header.rc < 0 then header
  else if txLen < header.out.length + body.length then ⟨Code.outOfBuffer, header.out⟩
  else .done (header.out ++ body)

/-! ### The packets -/

/-- A `word32` read as an `int`. -/
def toInt32 (n : Nat) : Int :=
  if n % 4294967296 < 2147483648 then n % 4294967296 else (n % 4294967296 : Int) - 4294967296

/-- The bytes of a PUBLISH between its fixed header and its payload. -/
def publishVariable (p : Publish) : Except Int Bytes :=
  if p.topicName.length > 0xFFFF then .error Code.badArg
  else if !topicNameValid p.topicName p.protocolLevel then .error Code.malformedData
  else if !utf8WellFormed p.topicName then .error Code.malformedData
  else if p.protocolLevel ≥ level5 && p.topicName.isEmpty && (findProp p.props .topicAlias).isNone then
    .error Code.badArg
  else if p.qos ≠ .qos0 && p.packetId = 0 then .error Code.packetId
  else if p.qos = .qos0 && p.duplicate then .error Code.badArg
  else
    let front := encodeData p.topicName ++ (if p.qos = .qos0 then [] else encodeNum p.packetId)
    if p.protocolLevel ≥ level5 then
      match encodePropBlock .publish p.props with
      | .error e => .error e
      | .ok block => .ok (front ++ block)
    else .ok front

/-- `MqttEncode_Publish` without a payload callback. The payload is cut to what the buffer
holds; the Remaining Length still counts all of it. -/
def encodePublish (txLen : Nat) (p : Publish) : Encoded :=
  match publishVariable p with
  | .error e => .fail e
  | .ok vh =>
    if p.buffer.isSome && p.bufferLen > 0 && p.totalLen = 0 then .fail Code.badArg
    else
      let payloadLen : Int := if p.buffer.isSome && p.totalLen > 0 then toInt32 p.totalLen else 0
      let header := encodeFixedHeader txLen (vh.length + payloadLen) .publish p.retain p.qos p.duplicate
      if header.rc < 0 then header
      else
        let used := header.out.length + vh.length
        if txLen < used then ⟨Code.outOfBuffer, header.out⟩
        else
          let fits := min payloadLen (txLen - used : Int)
          let copied := if p.bufferLen > 0 && (p.bufferLen : Int) < fits then (p.bufferLen : Int) else fits
          ⟨used + copied, header.out ++ vh ++ (p.buffer.getD []).take copied.toNat⟩

/-- `buffer_pos` after `MqttEncode_Publish`: how much of the payload is in the buffer. -/
def publishBufferPos (txLen : Nat) (p : Publish) : Nat :=
  match publishVariable p with
  | .error _ => 0
  | .ok vh =>
    let payloadLen : Int := if p.buffer.isSome && p.totalLen > 0 then toInt32 p.totalLen else 0
    let header := encodeFixedHeader txLen (vh.length + payloadLen) .publish p.retain p.qos p.duplicate
    (encodePublish txLen p).out.length - (header.out.length + vh.length)

/-- `MqttPacket_PublishRespReasonCodeValid` -/
def publishRespReasonCodeValid (type : PacketType) (code : UInt8) : Bool :=
  if type = .publishRel || type = .publishComp then
    [Reason.success, Reason.packetIdNotFound].contains code
  else
    [Reason.success, Reason.noMatchSub, Reason.unspecifiedErr, Reason.implSpecificErr,
      Reason.notAuthorized, Reason.topicNameInvalid, Reason.packetIdInUse, Reason.quotaExceeded,
      Reason.payloadFormatInvalid].contains code

/-- `MqttEncode_PublishResp`: PUBACK, PUBREC, PUBREL and PUBCOMP. -/
def encodePublishResp (txLen : Nat) (type : PacketType) (r : PublishResp) : Encoded :=
  if r.packetId = 0 then .fail Code.packetId
  else
    let qos := if type = .publishRel then QoS.qos1 else .qos0
    if r.protocolLevel ≥ level5 then
      if !publishRespReasonCodeValid type r.reasonCode then .fail Code.property
      else if r.props.isEmpty then
        let code := if r.reasonCode ≠ Reason.success then [r.reasonCode] else []
        encodePacket txLen type qos (encodeNum r.packetId ++ code)
      else
        match encodePropBlock type r.props with
        | .error e => .fail e
        | .ok block => encodePacket txLen type qos (encodeNum r.packetId ++ [r.reasonCode] ++ block)
    else encodePacket txLen type qos (encodeNum r.packetId)

/-- `MqttPacket_ConnectAckReturnCodeValid` -/
def connectAckReturnCodeValid (code : UInt8) (level : Nat) : Bool :=
  if level ≥ level5 then
    [Reason.success, Reason.unspecifiedErr, Reason.malformedPacket, Reason.protocolErr,
      Reason.implSpecificErr, Reason.unsupProtoVer, Reason.clientIdNotValid, Reason.badUserOrPass,
      Reason.notAuthorized, Reason.serverUnavailable, Reason.serverBusy, Reason.banned,
      Reason.badAuthMethod, Reason.topicNameInvalid, Reason.packetTooLarge, Reason.quotaExceeded,
      Reason.payloadFormatInvalid, Reason.retainNotSupported, Reason.qosNotSupported,
      Reason.useAnotherServer, Reason.serverMoved, Reason.conRateExceed].contains code
  else code ≤ 5

/-- `MqttEncode_ConnectAck` -/
def encodeConnectAck (txLen : Nat) (a : ConnectAck) : Encoded :=
  if a.flags &&& 0xFE ≠ 0 then .fail Code.badArg
  else if !connectAckReturnCodeValid a.returnCode a.protocolLevel then .fail Code.badArg
  else if a.flags &&& 0x01 ≠ 0 && a.returnCode ≠ 0 then .fail Code.badArg
  else if a.protocolLevel ≥ level5 then
    match encodePropBlock .connectAck a.props with
    | .error e => .fail e
    | .ok block => encodePacket txLen .connectAck .qos0 ([a.flags, a.returnCode] ++ block)
  else encodePacket txLen .connectAck .qos0 [a.flags, a.returnCode]

/-- `MqttPacket_UnsubAckReasonCodeValid` -/
def unsubAckReasonCodeValid (code : UInt8) : Bool :=
  [Reason.success, Reason.noSubExist, Reason.unspecifiedErr, Reason.implSpecificErr,
    Reason.notAuthorized, Reason.topicFilterInvalid, Reason.packetIdInUse].contains code

/-- `MqttEncode_UnsubscribeAck` -/
def encodeUnsubscribeAck (txLen : Nat) (a : UnsubscribeAck) : Encoded :=
  if a.packetId = 0 then .fail Code.packetId
  else if a.protocolLevel ≥ level5 then
    match encodePropBlock .unsubscribeAck a.props with
    | .error e => .fail e
    | .ok block =>
      if !a.reasonCodes.all unsubAckReasonCodeValid then .fail Code.badArg
      else encodePacket txLen .unsubscribeAck .qos0 (encodeNum a.packetId ++ block ++ a.reasonCodes)
  else encodePacket txLen .unsubscribeAck .qos0 (encodeNum a.packetId)

/-- `MqttPacket_DisconnectReasonCodeValid` -/
def disconnectReasonCodeValid (code : UInt8) : Bool :=
  [Reason.success, Reason.disconnectWithWill, Reason.unspecifiedErr, Reason.malformedPacket,
    Reason.protocolErr, Reason.implSpecificErr, Reason.notAuthorized, Reason.serverBusy,
    Reason.serverShuttingDown, Reason.keepAliveTimeout, Reason.sessionTakenOver,
    Reason.topicFilterInvalid, Reason.topicNameInvalid, Reason.rxMaxExceeded,
    Reason.topicAliasInvalid, Reason.packetTooLarge, Reason.msgRateTooHigh, Reason.quotaExceeded,
    Reason.adminAction, Reason.payloadFormatInvalid, Reason.retainNotSupported,
    Reason.qosNotSupported, Reason.useAnotherServer, Reason.serverMoved, Reason.ssNotSupported,
    Reason.conRateExceed, Reason.maxConTime, Reason.subIdNotSup, Reason.wildcardSubNotSup].contains code

/-- `MqttEncode_Disconnect` -/
def encodeDisconnect (txLen : Nat) (d : Disconnect) : Encoded :=
  if d.protocolLevel ≥ level5 then
    if !disconnectReasonCodeValid d.reasonCode then .fail Code.badArg
    else if d.props.isEmpty then
      let code := if d.reasonCode ≠ Reason.success then [d.reasonCode] else []
      encodePacket txLen .disconnect .qos0 code
    else
      match encodePropBlock .disconnect d.props with
      | .error e => .fail e
      | .ok block => encodePacket txLen .disconnect .qos0 (d.reasonCode :: block)
  else encodePacket txLen .disconnect .qos0 []

end WolfMqtt
