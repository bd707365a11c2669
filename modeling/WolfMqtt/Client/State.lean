import WolfMqtt.Packet.Encode
import WolfMqtt.Packet.Read

/-! The client: `MqttClient` and the message objects an application hands to it.

One thread, and either build: `nonblock` is `WOLFMQTT_NONBLOCK`. The transport's answers to
writes are a function of how many writes it has been asked for, so a result holds for every
transport. The bytes it has accepted on the present Network Connection are kept as `wire`. -/
namespace WolfMqtt

namespace Code

def stat : Int := -10
def serverProp : Int := -12
def callback : Int := -13
def notFound : Int := -15
def connectRefused : Int := -18
def publishRejected : Int := -21
def pubContinue : Int := -103

end Code

/-! ### Message objects -/

/-- `MqttMsgState` -/
inductive MsgState where
  | begin
  | wait
  | auth
  | header
  | payload
  | payload2
  | ack
deriving Repr, DecidableEq

/-- `MqttMsgStat`. `ackPacketType` is `none` for `MQTT_PACKET_TYPE_RESERVED`. -/
structure MqttMsgStat where
  read : MsgState := .begin
  write : MsgState := .begin
  ack : MsgState := .begin
  isReadActive : Bool := false
  isWriteActive : Bool := false
  recvQuotaHeld : Bool := false
  ackPacketId : Nat := 0
  ackPacketType : Option PacketType := none
  ackReasonCode : UInt8 := Reason.success
  ackProtocolLevel : Nat := 0
deriving Repr, DecidableEq

/-- The response part of a publish object. -/
structure MqttPublishResp where
  stat : MqttMsgStat := {}
  packetId : Nat := 0
  packetType : Option PacketType := none
  reasonCode : UInt8 := Reason.success
deriving Repr, DecidableEq

/-- `MqttPublish`: what is to be published, and how far the client is with it. -/
structure MqttPublish extends Publish where
  stat : MqttMsgStat := {}
  bufferPos : Nat := 0
  intBufLen : Nat := 0
  intBufPos : Nat := 0
  intBufCbLen : Nat := 0
  /-- How often the payload callback has been asked, for its place in what it supplies. -/
  asked : Nat := 0
  resp : MqttPublishResp := {}
deriving Repr, DecidableEq

/-! ### The tables of a client -/

/-- What a reservation of a Packet Identifier belongs to: a message object of the application, or a
replay slot. -/
inductive Owner where
  | object (k : Nat)
  | slot (i : Nat)
deriving Repr, DecidableEq

/-- `MqttSendId`. `packetId` is 0 in a free entry; `ackType` is `none` for
`MQTT_PACKET_TYPE_RESERVED`. -/
structure MqttSendId where
  packetId : Nat := 0
  owner : Option Owner := none
  ackType : Option PacketType := none
deriving Repr, DecidableEq

/-- `MqttReplayMsg`. `packetId` is 0 in a free slot. -/
structure MqttReplayMsg where
  packetId : Nat := 0
  qos : QoS := .qos0
  retain : Bool := false
  topic : Bytes := []
  payload : Bytes := []
  payloadLen : Nat := 0
  pubrelSent : Bool := false
  haveCopy : Bool := false
deriving Repr, DecidableEq

/-! ### The client -/

/-- `client->write`, the front of `tx_buf`, and what the transport has accepted. -/
structure Writer where
  pos : Nat := 0
  len : Nat := 0
  isActive : Bool := false
  txBuf : Bytes := []
  /-- How many writes the transport has answered. -/
  turn : Nat := 0
  wire : Bytes := []
deriving Repr, DecidableEq

structure MqttClient where
  nonblock : Bool
  isConnected : Bool := false
  connectSent : Bool := false
  disconnectSent : Bool := false
  txBufLen : Nat
  writer : Writer := {}
  /-- `net->write`: the answer to each write in turn, a count of bytes or a code. -/
  netWrite : Nat → Int
  /-- `client->packet`, `client->read` and `rx_buf`. -/
  reader : Reader
  /-- `client->read.isActive` -/
  readActive : Bool := false
  protocolLevel : Nat
  maxQos : QoS := .qos2
  retainAvail : Bool := true
  packetSzMax : Nat := 0
  serverRecvMax : Nat := 65535
  serverRecvMaxNegotiated : Nat := 65535
  topicAliasMax : Nat := 0
  sendInflight : List MqttSendId
  replay : List MqttReplayMsg
  /-- The outcomes of the allocations to come; they succeed when the script has run out. -/
  mallocs : List Bool := []

end WolfMqtt
