import WolfMqtt.Sn.Types

/-! The encoders of `mqtt_sn_packet.c`.

An encoder's result is its return code together with the bytes it has put at the front of
`tx_buf`, one after the other; the code is the length it worked out before, not a count of them.
A `tx_buf` that is not there is the caller's to avoid, and so is a string whose length turns negative
as an `int`, of which nothing is copied here. -/
namespace WolfMqtt.Sn

/-! ### Length fields -/

/-- The length field of a packet of `totalLen` bytes, which counts itself. -/
def lengthField (totalLen : Int) : Bytes :=
  if totalLen ≤ maxSmallSize then [UInt8.ofInt totalLen] else lenInd :: encodeNum totalLen.toNat

/-- The steps that the encoders of messages of any length share: `small` is the length the packet
has with a length field of one byte, `rest` what stands behind the message type. -/
def encodeSized (txLen : Int) (type : UInt8) (small : Int) (rest : Bytes) : Encoded :=
  let totalLen := if small > maxSmallSize then small + 2 else small
  if totalLen > maxLen ∨ totalLen > txLen then .fail Code.outOfBuffer
  else ⟨totalLen, lengthField totalLen ++ type :: rest⟩

/-- The steps that the encoders of messages of `totalLen` bytes share. -/
def encodeFixed (txLen : Int) (type : UInt8) (totalLen : Int) (rest : Bytes) : Encoded :=
  if totalLen > txLen then .fail Code.outOfBuffer else ⟨totalLen, UInt8.ofInt totalLen :: type :: rest⟩

/-- A flag that is set when a member of a message is not zero. -/
def flagIf (member flag : UInt8) : UInt8 := if member ≠ 0 then flag else 0

def qosFlags (qos : UInt8) : UInt8 := Flag.qosMask &&& (qos <<< Flag.qosShift)

/-! ### The messages -/

def encodeSearchGw (txLen : Int) (hops : UInt8) : Encoded :=
  if txLen < 3 then .fail Code.badArg else ⟨3, [3, MsgType.searchGw, hops]⟩

def encodeConnect (txLen : Int) : Option Connect → Encoded
  | none => .fail Code.badArg
  | some c =>
    match c.clientId with
    | none => .fail Code.badArg
    | some clientId =>
      if c.protocolLevel = 0 then .fail Code.badArg
      else
        let idLen := if strLen clientId ≤ clientIdMaxLen then strLen clientId else clientIdMaxLen
        encodeFixed txLen MsgType.connect (6 + idLen)
          ((flagIf c.cleanSession Flag.cleanSession ||| flagIf c.enableLwt Flag.will) :: c.protocolLevel ::
            encodeNum c.keepAliveSec.toNat ++ copied clientId idLen)

/-- `SN_Encode_WillTopic` and `SN_Encode_WillTopicUpdate`, but for the message type. -/
def encodeWillTopicAs (type : UInt8) (txLen : Int) : Option Will → Encoded
  | none => encodeSized txLen type 2 []
  | some will =>
    match will.willTopic with
    | none => .fail Code.badArg
    | some topic =>
      encodeSized txLen type (2 + toInt32 (strLen topic) + 1)
        ((qosFlags will.qos ||| flagIf will.retain Flag.retain) :: copied topic (toInt32 (strLen topic)).toNat)

def encodeWillTopic (txLen : Int) (will : Option Will) : Encoded := encodeWillTopicAs MsgType.willTopic txLen will

def encodeWillTopicUpdate (txLen : Int) (will : Option Will) : Encoded :=
  encodeWillTopicAs MsgType.willTopicUpd txLen will

/-- `SN_Encode_WillMsg` and `SN_Encode_WillMsgUpdate`, but for the message type. -/
def encodeWillMsgAs (type : UInt8) (txLen : Int) : Option Will → Encoded
  | none => .fail Code.badArg
  | some will =>
    if will.willMsgLen > 0 ∧ will.willMsg = none then .fail Code.badArg
    else
      encodeSized txLen type (2 + will.willMsgLen.toNat) (copied (will.willMsg.getD []) will.willMsgLen.toNat)

def encodeWillMsg (txLen : Int) (will : Option Will) : Encoded := encodeWillMsgAs MsgType.willMsg txLen will

def encodeWillMsgUpdate (txLen : Int) (will : Option Will) : Encoded := encodeWillMsgAs MsgType.willMsgUpd txLen will

def encodeRegister (txLen : Int) : Option Register → Encoded
  | none => .fail Code.badArg
  | some regist =>
    match regist.topicName with
    | none => .fail Code.badArg
    | some topicName =>
      encodeSized txLen MsgType.register (toInt32 (strLen topicName) + 6)
        (encodeNum regist.topicId.toNat ++ encodeNum regist.packetId.toNat ++
          copied topicName (toInt32 (strLen topicName)).toNat)

def encodeRegAck (txLen : Int) : Option RegAck → Encoded
  | none => .fail Code.badArg
  | some regack =>
    encodeFixed txLen MsgType.regAck 7
      (encodeNum regack.topicId.toNat ++ encodeNum regack.packetId.toNat ++ [regack.returnCode])

/-- `SN_Encode_Subscribe` and `SN_Encode_Unsubscribe`, but for the message type. -/
def encodeSubscribeAs (type : UInt8) (txLen : Int) : Option Subscribe → Encoded
  | none => .fail Code.badArg
  | some subscribe =>
    match subscribe.topicNameId with
    | none => .fail Code.badArg
    | some topicNameId =>
      let topicLen := if subscribe.topicType = TopicIdType.normal then toInt32 (strLen topicNameId) else 2
      encodeSized txLen type (topicLen + 5)
        ((flagIf subscribe.duplicate Flag.duplicate ||| qosFlags subscribe.qos |||
            (Flag.topicIdTypeMask &&& subscribe.topicType)) :: encodeNum subscribe.packetId.toNat ++
          copied topicNameId (if subscribe.topicType = TopicIdType.normal then strLen topicNameId else 2))

def encodeSubscribe (txLen : Int) (subscribe : Option Subscribe) : Encoded :=
  encodeSubscribeAs MsgType.subscribe txLen subscribe

def encodeUnsubscribe (txLen : Int) (unsubscribe : Option Subscribe) : Encoded :=
  encodeSubscribeAs MsgType.unsubscribe txLen unsubscribe

def encodePublishResp (txLen : Int) (type : UInt8) : Option PublishResp → Encoded
  | none => .fail Code.badArg
  | some resp =>
    encodeFixed txLen type (if type = MsgType.pubAck then 7 else 4)
      ((if type = MsgType.pubAck then encodeNum resp.topicId.toNat else []) ++ encodeNum resp.packetId.toNat ++
        if type = MsgType.pubAck then [resp.returnCode] else [])

def encodeDisconnect (txLen : Int) : Option Disconnect → Encoded
  | none => encodeFixed txLen MsgType.disconnect 2 []
  | some disconnect =>
    if disconnect.sleepTmr > 0 then
      encodeFixed txLen MsgType.disconnect 4 (encodeNum disconnect.sleepTmr.toNat)
    else encodeFixed txLen MsgType.disconnect 2 []

/-- How much of its client id a PINGREQ carries. -/
def pingIdLen (type : UInt8) (clientId : Bytes) : Int :=
  if type = MsgType.pingReq then
    if toInt32 (strLen clientId) > clientIdMaxLen then clientIdMaxLen else toInt32 (strLen clientId)
  else 0

def encodePing (txLen : Int) (ping : Option PingReq) (type : UInt8) : Encoded :=
  if type ≠ MsgType.pingReq ∧ type ≠ MsgType.pingResp then .fail Code.badArg
  else
    match ping.bind PingReq.clientId with
    | none => encodeFixed txLen type 2 []
    | some clientId =>
      encodeFixed txLen type (2 + pingIdLen type clientId) (copied clientId (pingIdLen type clientId).toNat)

/-! ### PUBLISH -/

/-- The order in which the bytes of a `word16` lie in memory. -/
inductive ByteOrder
  | little
  | big
deriving Repr, DecidableEq

/-- The `word16` in two bytes of memory. -/
def ByteOrder.read (host : ByteOrder) (b₀ b₁ : UInt8) : Nat :=
  match host with
  | .little => b₁.toNat * 256 + b₀.toNat
  | .big => b₀.toNat * 256 + b₁.toNat

/-- The two bytes of a topic: as they stand for a short or a predefined one, else as a number. -/
def encodeTopic (host : ByteOrder) (topicType : UInt8) (topicName : Bytes) : Bytes :=
  if topicType = TopicIdType.short ∨ topicType = TopicIdType.predef then copied topicName 2
  else encodeNum (host.read (topicName.getD 0 0) (topicName.getD 1 0))

def Publish.flags (p : Publish) : UInt8 :=
  flagIf p.duplicate Flag.duplicate ||| qosFlags p.qos ||| flagIf p.retain Flag.retain |||
    (Flag.topicIdTypeMask &&& p.topicType)

/-- A refusal that comes after the first bytes leaves them in the buffer. -/
def encodePublish (host : ByteOrder) (txLen : Int) : Option Publish → Encoded
  | none => .fail Code.badArg
  | some p =>
    if txLen < 0 then .fail Code.outOfBuffer
    else if (p.totalLen.toNat : Int) > maxLen - 9 then .fail Code.outOfBuffer
    else
      let small : Int := p.totalLen.toNat + 7
      let totalLen := if small > maxSmallSize then small + 2 else small
      if totalLen > maxLen ∨ totalLen > txLen then .fail Code.outOfBuffer
      else
        let head := lengthField totalLen ++ [MsgType.publish, p.flags]
        match p.topicName with
        | none => ⟨Code.badArg, head⟩
        | some topicName =>
          let fields := head ++ encodeTopic host p.topicType topicName ++ encodeNum p.packetId.toNat
          if p.totalLen > 0 ∧ p.buffer = none then ⟨Code.badArg, fields⟩
          else ⟨totalLen, fields ++ copied (p.buffer.getD []) p.totalLen.toNat⟩

end WolfMqtt.Sn
