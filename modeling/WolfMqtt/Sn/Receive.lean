import WolfMqtt.Sn.Decode

/-! The decoders of `mqtt_sn_packet.c` for what else a client receives.

The packets the client answers come with what they say. Of the others it takes note: their
decoders decide whether a wait succeeds. -/
namespace WolfMqtt.Sn

/-! ### Message types -/
namespace MsgType

def gwInfo : UInt8 := 0x02
def connAck : UInt8 := 0x05
def willTopicReq : UInt8 := 0x06
def willMsgReq : UInt8 := 0x08
def willTopicResp : UInt8 := 0x1B
def willMsgResp : UInt8 := 0x1D
def reserved : UInt8 := 0xFF
def any : UInt8 := 0xFF

end MsgType

/-! ### Return codes -/
namespace ReturnCode

def accepted : UInt8 := 0x00
def invTopicName : UInt8 := 0x02
def notSupported : UInt8 := 0x03

end ReturnCode

/-! ### Packets of one length -/

/-- The steps that the decoders of packets of `totalLen` bytes share: the bytes behind the type. -/
def decodeFixed (type : UInt8) (totalLen : Nat) : Bytes → Except Int Bytes
  | [] => .error Code.badArg
  | len :: rest =>
    if len.toNat ≠ totalLen then .error Code.malformedData
    else if totalLen > rest.length + 1 then .error Code.outOfBuffer
    else
      match rest with
      | [] => .error Code.outOfBuffer -- a length of two or more leaves a byte
      | t :: fields => if t ≠ type then .error Code.packetType else .ok fields

def decodeWillTopicReq (rx : Bytes) : Except Int Bytes := decodeFixed MsgType.willTopicReq 2 rx

def decodeWillMsgReq (rx : Bytes) : Except Int Bytes := decodeFixed MsgType.willMsgReq 2 rx

def decodeDisconnect (rx : Bytes) : Except Int Bytes := decodeFixed MsgType.disconnect 2 rx

/-- A packet with a return code behind its type. -/
def decodeReturnCode (type : UInt8) (rx : Bytes) : Except Int UInt8 :=
  match decodeFixed type 3 rx with
  | .error e => .error e
  | .ok fields => .ok (fields.getD 0 0)

def decodeConnectAck (rx : Bytes) : Except Int UInt8 := decodeReturnCode MsgType.connAck rx

def decodeWillTopicResponse (rx : Bytes) : Except Int UInt8 := decodeReturnCode MsgType.willTopicResp rx

def decodeWillMsgResponse (rx : Bytes) : Except Int UInt8 := decodeReturnCode MsgType.willMsgResp rx

/-- A topic id, a message id and a return code. -/
def decodeIds (fields : Bytes) : Except Int RegAck :=
  match decodeNum fields with
  | .error e => .error e
  | .ok topicId =>
    match decodeNum (fields.drop 2) with
    | .error e => .error e
    | .ok packetId =>
      .ok {topicId := UInt16.ofNat topicId, packetId := UInt16.ofNat packetId, returnCode := fields.getD 4 0}

def decodeRegAck (rx : Bytes) : Except Int RegAck :=
  match decodeFixed MsgType.regAck 7 rx with
  | .error e => .error e
  | .ok fields => decodeIds fields

/-- `SN_Decode_SubscribeAck`, but for the flags it copies. -/
def decodeSubscribeAck (rx : Bytes) : Except Int RegAck :=
  match decodeFixed MsgType.subAck 8 rx with
  | .error e => .error e
  | .ok fields => decodeIds (fields.drop 1)

def decodeUnsubscribeAck (rx : Bytes) : Except Int Nat :=
  match decodeFixed MsgType.unsubAck 4 rx with
  | .error e => .error e
  | .ok fields => decodeNum fields

/-! ### Packets with checks of their own -/

/-- `SN_Decode_PublishResp` looks at the buffer before it looks at the length. What a packet of its type does
not carry is 0 here; the source leaves it as it was. -/
def decodePublishResp (type : UInt8) : Bytes → Except Int PublishResp
  | [] => .error Code.badArg
  | len :: rest =>
    if len.toNat > rest.length + 1 then .error Code.outOfBuffer
    else if len.toNat ≠ (if type = MsgType.pubAck then 7 else 4) then .error Code.malformedData
    else
      match rest with
      | [] => .error Code.outOfBuffer
      | t :: fields =>
        if t ≠ type then .error Code.packetType
        else if type = MsgType.pubAck then
          match decodeIds fields with
          | .error e => .error e
          | .ok ids => .ok {packetId := ids.packetId, topicId := ids.topicId, returnCode := ids.returnCode}
        else
          match decodeNum fields with
          | .error e => .error e
          | .ok packetId => .ok {packetId := UInt16.ofNat packetId, topicId := 0, returnCode := 0}

/-- `SN_Decode_Ping` takes a request for a response, and the other way round. -/
def decodePing : Bytes → Except Int Nat
  | [] => .error Code.badArg
  | len :: rest =>
    if len.toNat ≠ 2 then .error Code.malformedData
    else if len.toNat > rest.length + 1 then .error Code.outOfBuffer
    else
      match rest with
      | [] => .error Code.outOfBuffer
      | t :: _ => if t ≠ MsgType.pingReq ∧ t ≠ MsgType.pingResp then .error Code.packetType else .ok len.toNat

/-- `SN_Decode_GWInfo` into an object with room for an address: the length of the packet. -/
def decodeGwInfo (rx : Bytes) : Except Int Nat :=
  match decodeLength rx with
  | .error e => .error e
  | .ok (totalLen, n) =>
    if totalLen > rx.length then .error Code.outOfBuffer
    else if totalLen < n + 2 then .error Code.malformedData
    else
      match rx.drop n with
      | [] => .error Code.outOfBuffer
      | type :: _ => if type ≠ MsgType.gwInfo then .error Code.packetType else .ok totalLen

/-! ### Codes -/

/-- The return code of a decoder that returns the length of its packet. -/
def lengthOr {α : Type} (totalLen : α → Nat) : Except Int α → Int
  | .error e => e
  | .ok x => totalLen x

/-- The code of the decoder for a packet that the client only takes note of; 0 for one that is meant for a
gateway. -/
def decodeNoted (type : UInt8) (rx : Bytes) : Int :=
  if type = MsgType.gwInfo then lengthOr id (decodeGwInfo rx)
  else if type = MsgType.connAck then lengthOr (fun _ => 3) (decodeConnectAck rx)
  else if type = MsgType.willTopicReq then lengthOr (fun _ => 2) (decodeWillTopicReq rx)
  else if type = MsgType.willMsgReq then lengthOr (fun _ => 2) (decodeWillMsgReq rx)
  else if type = MsgType.regAck then lengthOr (fun _ => 7) (decodeRegAck rx)
  else if type = MsgType.pubAck then lengthOr (fun _ => 7) (decodePublishResp type rx)
  else if type = MsgType.pubComp then lengthOr (fun _ => 4) (decodePublishResp type rx)
  else if type = MsgType.subAck then lengthOr (fun _ => 8) (decodeSubscribeAck rx)
  else if type = MsgType.unsubAck then lengthOr (fun _ => 4) (decodeUnsubscribeAck rx)
  else if type = MsgType.pingResp then lengthOr id (decodePing rx)
  else if type = MsgType.willTopicResp then lengthOr (fun _ => 3) (decodeWillTopicResponse rx)
  else if type = MsgType.willMsgResp then lengthOr (fun _ => 3) (decodeWillMsgResponse rx)
  else if type = MsgType.disconnect then lengthOr (fun _ => 2) (decodeDisconnect rx)
  else Code.success

end WolfMqtt.Sn
