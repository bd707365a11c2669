import Mathlib.Data.List.Basic

/-! Packet types: the vocabulary shared by the encoders and the broker.

Strings and payloads are byte lists. Word fields are natural numbers; a width is
made explicit where arithmetic on it can wrap. Return codes are integers under the
names of `MqttPacketResponseCodes`, so a function that returns a length on success
and a code on failure keeps the shape it has in the source. -/
namespace WolfMqtt

abbrev Bytes := List UInt8

/-! ### Return codes -/
namespace Code

def success : Int := 0
def badArg : Int := -1
def outOfBuffer : Int := -2
def malformedData : Int := -3
def packetType : Int := -4
def packetId : Int := -5
def timeout : Int := -7
def network : Int := -8
def memory : Int := -9
def property : Int := -11
def system : Int := -14
def propertyMismatch : Int := -17
def «continue» : Int := -101

end Code

/-! ### Reason codes -/
namespace Reason

def success : UInt8 := 0x00
def disconnectWithWill : UInt8 := 0x04
def noMatchSub : UInt8 := 0x10
def noSubExist : UInt8 := 0x11
def unspecifiedErr : UInt8 := 0x80
def malformedPacket : UInt8 := 0x81
def protocolErr : UInt8 := 0x82
def implSpecificErr : UInt8 := 0x83
def unsupProtoVer : UInt8 := 0x84
def clientIdNotValid : UInt8 := 0x85
def badUserOrPass : UInt8 := 0x86
def notAuthorized : UInt8 := 0x87
def serverUnavailable : UInt8 := 0x88
def serverBusy : UInt8 := 0x89
def banned : UInt8 := 0x8A
def serverShuttingDown : UInt8 := 0x8B
def badAuthMethod : UInt8 := 0x8C
def keepAliveTimeout : UInt8 := 0x8D
def sessionTakenOver : UInt8 := 0x8E
def topicFilterInvalid : UInt8 := 0x8F
def topicNameInvalid : UInt8 := 0x90
def packetIdInUse : UInt8 := 0x91
def packetIdNotFound : UInt8 := 0x92
def rxMaxExceeded : UInt8 := 0x93
def topicAliasInvalid : UInt8 := 0x94
def packetTooLarge : UInt8 := 0x95
def msgRateTooHigh : UInt8 := 0x96
def quotaExceeded : UInt8 := 0x97
def adminAction : UInt8 := 0x98
def payloadFormatInvalid : UInt8 := 0x99
def retainNotSupported : UInt8 := 0x9A
def qosNotSupported : UInt8 := 0x9B
def useAnotherServer : UInt8 := 0x9C
def serverMoved : UInt8 := 0x9D
def ssNotSupported : UInt8 := 0x9E
def conRateExceed : UInt8 := 0x9F
def maxConTime : UInt8 := 0xA0
def subIdNotSup : UInt8 := 0xA1
def wildcardSubNotSup : UInt8 := 0xA2

end Reason

/-- `MQTT_CONNECT_PROTOCOL_LEVEL_4` -/
def level4 : Nat := 4

/-- `MQTT_CONNECT_PROTOCOL_LEVEL_5` -/
def level5 : Nat := 5

/-! ### Quality of service, packet and property types -/

inductive QoS where
  | qos0
  | qos1
  | qos2
deriving Repr, DecidableEq

namespace QoS

def toNat : QoS → Nat
  | qos0 => 0
  | qos1 => 1
  | qos2 => 2

/-- The smaller of two levels: what a subscription grants of what was published. -/
def min (a b : QoS) : QoS := if a.toNat ≤ b.toNat then a else b

end QoS

inductive PacketType where
  | connect
  | connectAck
  | publish
  | publishAck
  | publishRec
  | publishRel
  | publishComp
  | subscribe
  | subscribeAck
  | unsubscribe
  | unsubscribeAck
  | pingReq
  | pingResp
  | disconnect
  | auth
deriving Repr, DecidableEq

def PacketType.toNat : PacketType → Nat
  | connect => 1
  | connectAck => 2
  | publish => 3
  | publishAck => 4
  | publishRec => 5
  | publishRel => 6
  | publishComp => 7
  | subscribe => 8
  | subscribeAck => 9
  | unsubscribe => 10
  | unsubscribeAck => 11
  | pingReq => 12
  | pingResp => 13
  | disconnect => 14
  | auth => 15

inductive PropType where
  | payloadFormatInd
  | msgExpiryInterval
  | contentType
  | respTopic
  | correlationData
  | subscriptionId
  | sessionExpiryInterval
  | assignedClientId
  | serverKeepAlive
  | authMethod
  | authData
  | reqProbInfo
  | willDelayInterval
  | reqRespInfo
  | respInfo
  | serverRef
  | reasonStr
  | receiveMax
  | topicAliasMax
  | topicAlias
  | maxQos
  | retainAvail
  | userProp
  | maxPacketSz
  | wildcardSubAvail
  | subscriptionIdAvail
  | sharedSubscriptionAvail
deriving Repr, DecidableEq

inductive DataType where
  | byte
  | short
  | int
  | string
  | varInt
  | binary
  | stringPair
deriving Repr, DecidableEq

namespace PropType

def toNat : PropType → Nat
  | payloadFormatInd => 1
  | msgExpiryInterval => 2
  | contentType => 3
  | respTopic => 8
  | correlationData => 9
  | subscriptionId => 11
  | sessionExpiryInterval => 17
  | assignedClientId => 18
  | serverKeepAlive => 19
  | authMethod => 21
  | authData => 22
  | reqProbInfo => 23
  | willDelayInterval => 24
  | reqRespInfo => 25
  | respInfo => 26
  | serverRef => 28
  | reasonStr => 31
  | receiveMax => 33
  | topicAliasMax => 34
  | topicAlias => 35
  | maxQos => 36
  | retainAvail => 37
  | userProp => 38
  | maxPacketSz => 39
  | wildcardSubAvail => 40
  | subscriptionIdAvail => 41
  | sharedSubscriptionAvail => 42

/-- The data column of `gPropMatrix`. -/
def dataType : PropType → DataType
  | payloadFormatInd | reqProbInfo | reqRespInfo | maxQos | retainAvail | wildcardSubAvail
  | subscriptionIdAvail | sharedSubscriptionAvail => .byte
  | serverKeepAlive | receiveMax | topicAliasMax | topicAlias => .short
  | msgExpiryInterval | sessionExpiryInterval | willDelayInterval | maxPacketSz => .int
  | contentType | respTopic | assignedClientId | authMethod | respInfo | serverRef | reasonStr => .string
  | subscriptionId => .varInt
  | correlationData | authData => .binary
  | userProp => .stringPair

/-- The packet mask column of `gPropMatrix`. -/
def allowedIn : PropType → PacketType → Bool
  | payloadFormatInd, t | contentType, t | respTopic, t | correlationData, t | topicAlias, t =>
    t = .publish
  | msgExpiryInterval, t => t = .connect || t = .publish
  | subscriptionId, t => t = .publish || t = .subscribe
  | sessionExpiryInterval, t => t = .connect || t = .connectAck || t = .disconnect
  | assignedClientId, t | serverKeepAlive, t | respInfo, t | maxQos, t | retainAvail, t
  | wildcardSubAvail, t | subscriptionIdAvail, t | sharedSubscriptionAvail, t => t = .connectAck
  | authMethod, t | authData, t => t = .connect || t = .connectAck || t = .auth
  | reqProbInfo, t | willDelayInterval, t | reqRespInfo, t => t = .connect
  | serverRef, t => t = .connectAck || t = .disconnect
  | reasonStr, t =>
    t = .connectAck || t = .publishAck || t = .publishRec || t = .publishRel || t = .publishComp ||
      t = .subscribeAck || t = .unsubscribeAck || t = .disconnect || t = .auth
  | receiveMax, t | topicAliasMax, t | maxPacketSz, t => t = .connect || t = .connectAck
  | userProp, _ => true

end PropType

/-- One v5 property. Only the member its `type` names is meaningful. -/
structure MqttProp where
  type : PropType
  dataByte : UInt8 := 0
  dataShort : Nat := 0
  dataInt : Nat := 0
  dataStr : Bytes := []
  dataBin : Bytes := []
  dataStr2 : Bytes := []
deriving Repr, DecidableEq

/-- The first property of a type in a list, as the handlers look one up. -/
def findProp (props : List MqttProp) (type : PropType) : Option MqttProp :=
  props.find? (fun p => p.type = type)

/-! ### Packets the encoders take -/

/-- The members of `MqttPublish` that the broker fills in before encoding. `buffer` is
`none` for a NULL payload pointer. -/
structure Publish where
  topicName : Bytes
  qos : QoS
  packetId : Nat
  retain : Bool
  duplicate : Bool
  buffer : Option Bytes
  totalLen : Nat
  bufferLen : Nat
  protocolLevel : Nat
  props : List MqttProp
deriving Repr, DecidableEq

/-- PUBACK, PUBREC, PUBREL and PUBCOMP. -/
structure PublishResp where
  packetId : Nat
  reasonCode : UInt8 := Reason.success
  protocolLevel : Nat
  props : List MqttProp := []
deriving Repr, DecidableEq

structure ConnectAck where
  flags : UInt8
  returnCode : UInt8
  protocolLevel : Nat
  props : List MqttProp := []
deriving Repr, DecidableEq

structure UnsubscribeAck where
  packetId : Nat
  reasonCodes : List UInt8
  protocolLevel : Nat
  props : List MqttProp := []
deriving Repr, DecidableEq

structure Disconnect where
  reasonCode : UInt8
  protocolLevel : Nat
  props : List MqttProp := []
deriving Repr, DecidableEq

end WolfMqtt
