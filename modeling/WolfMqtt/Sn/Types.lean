import WolfMqtt.Packet.Decode

/-! The messages of MQTT-SN, as `mqtt_sn_packet.h` lays them out.

A pointer is what it points at, or nothing. Memory that holds a C string or two bytes of a topic
is a list of bytes, and reads as zero behind its end: `strLen` is what `XSTRLEN` counts and
`copied` what `XMEMCPY` takes. -/
namespace WolfMqtt.Sn

/-! ### Message types -/
namespace MsgType

def searchGw : UInt8 := 0x01
def connect : UInt8 := 0x04
def willTopic : UInt8 := 0x07
def willMsg : UInt8 := 0x09
def register : UInt8 := 0x0A
def regAck : UInt8 := 0x0B
def publish : UInt8 := 0x0C
def pubAck : UInt8 := 0x0D
def pubComp : UInt8 := 0x0E
def pubRec : UInt8 := 0x0F
def pubRel : UInt8 := 0x10
def subscribe : UInt8 := 0x12
def subAck : UInt8 := 0x13
def unsubscribe : UInt8 := 0x14
def unsubAck : UInt8 := 0x15
def pingReq : UInt8 := 0x16
def pingResp : UInt8 := 0x17
def disconnect : UInt8 := 0x18
def willTopicUpd : UInt8 := 0x1A
def willMsgUpd : UInt8 := 0x1C

end MsgType

/-! ### Flags and limits -/
namespace TopicIdType

def normal : UInt8 := 0x0
def predef : UInt8 := 0x1
def short : UInt8 := 0x2

end TopicIdType

namespace Flag

def topicIdTypeMask : UInt8 := 0x3
def cleanSession : UInt8 := 0x4
def will : UInt8 := 0x8
def retain : UInt8 := 0x10
def qosMask : UInt8 := 0x60
def qosShift : UInt8 := 0x5
def duplicate : UInt8 := 0x80

end Flag

/-- `SN_PACKET_LEN_IND` -/
def lenInd : UInt8 := 0x01

/-- `SN_PACKET_MAX_SMALL_SIZE` -/
def maxSmallSize : Int := 0xFF

/-- `SN_PACKET_MAX_LEN` -/
def maxLen : Int := 0xFFFF

/-- `SN_CLIENTID_MAX_LEN` -/
def clientIdMaxLen : Nat := 23

/-! ### Memory -/

def strLen (mem : Bytes) : Nat := (mem.takeWhile (· ≠ 0)).length

def copied (mem : Bytes) (n : Nat) : Bytes := (mem ++ List.replicate n 0).take n

@[simp]
theorem copied_length (mem : Bytes) (n : Nat) : (copied mem n).length = n := by
  rw [copied, List.length_take, List.length_append, List.length_replicate]
  omega

/-! ### Messages -/

structure Connect where
  keepAliveSec : UInt16
  cleanSession : UInt8
  clientId : Option Bytes
  protocolLevel : UInt8
  enableLwt : UInt8

structure Will where
  qos : UInt8
  retain : UInt8
  willTopic : Option Bytes
  willMsg : Option Bytes
  willMsgLen : UInt16

structure Register where
  topicId : UInt16
  packetId : UInt16
  topicName : Option Bytes

structure RegAck where
  topicId : UInt16
  packetId : UInt16
  returnCode : UInt8

/-- `SN_Subscribe`, and `SN_Unsubscribe`, which has the same members. -/
structure Subscribe where
  duplicate : UInt8
  qos : UInt8
  packetId : UInt16
  topicType : UInt8
  topicNameId : Option Bytes

structure Publish where
  packetId : UInt16
  qos : UInt8
  retain : UInt8
  duplicate : UInt8
  topicType : UInt8
  topicName : Option Bytes
  totalLen : UInt32
  buffer : Option Bytes

structure PublishResp where
  packetId : UInt16
  topicId : UInt16
  returnCode : UInt8

structure PingReq where
  clientId : Option Bytes

structure Disconnect where
  sleepTmr : UInt16

end WolfMqtt.Sn
