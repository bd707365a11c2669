import WolfMqtt.Packet.PropScan
import WolfMqtt.Sn.Receive

/-! The decoders of `mqtt_sn_packet.c` over their buffer: where they read and write, and what they point at.

`rx` is the receive buffer up to `rx_buf_len`, and a read or a write past its end is an `overrun`. A caller may pass
no object to be filled in; most decoders then look at no more than the length and the type. -/
namespace WolfMqtt.Sn

namespace MsgType

def advertise : UInt8 := 0x00

end MsgType

/-- `sizeof(SN_GwAddr)` -/
def gwAddrSize : Nat := 2

/-! ### Reading -/

/-- `MqttDecode_Num` at an offset, given the rest of the buffer. -/
def scanRestNum (rx : Bytes) (pos : Nat) : Except Fault Nat := scanNum rx pos (wordDiff rx.length pos)

/-- The length of a packet, and how many bytes its length field takes. -/
def scanLength (rx : Bytes) : Except Fault (Nat × Nat) := do
  let b ← readByte rx 0
  if b = lenInd then do
    let totalLen ← scanRestNum rx 1
    .ok (totalLen, 3)
  else .ok (b.toNat, 1)

/-- One byte of the buffer is written. -/
def writeByte (rx : Bytes) (pos : Nat) (b : UInt8) : Except Fault Bytes :=
  if pos < rx.length then .ok (rx.set pos b) else .error .overrun

/-! ### The header -/

/-- The message id of a packet, `pos` being behind its type. -/
def scanId (rx : Bytes) (type : UInt8) (totalLen pos : Nat) : Except Fault Nat :=
  match idOffset type with
  | none => .ok 0
  | some offset =>
    let idAvail : Int := totalLen - pos - offset
    if idAvail < 2 then .error (.code Code.badArg) else scanNum rx (pos + offset) idAvail.toNat

/-- `SN_Decode_Header`; the message id is 0 when it is not asked for. -/
def scanHeader (rx : Bytes) (wantId : Bool) : Except Fault Header :=
  if rx.length < 2 then .error (.code Code.badArg)
  else do
    let (totalLen, n) ← scanLength rx
    if totalLen > rx.length then .error (.code Code.outOfBuffer)
    else if totalLen < n + 1 then .error (.code Code.malformedData)
    else do
      let type ← readByte rx n
      let packetId ← (if wantId then scanId rx type totalLen (n + 1) else .ok 0)
      .ok {totalLen, type, packetId}

/-! ### Packets of one length -/

/-- The steps that the decoders of packets of `totalLen` bytes share. -/
def scanFixed (rx : Bytes) (type : UInt8) (totalLen : Nat) : Except Fault Unit :=
  if rx.length = 0 then .error (.code Code.badArg)
  else do
    let len ← readByte rx 0
    if len.toNat ≠ totalLen then .error (.code Code.malformedData)
    else if totalLen > rx.length then .error (.code Code.outOfBuffer)
    else do
      let t ← readByte rx 1
      if t ≠ type then .error (.code Code.packetType) else .ok ()

/-- The length that a decoder returns, and what it has filled in. -/
structure Scanned (α : Type) where
  len : Nat
  fields : Option α
deriving Repr, DecidableEq

/-- A packet of `totalLen` bytes, whose fields are read if there is an object for them. -/
def scanFixedInto {α : Type} (rx : Bytes) (type : UInt8) (totalLen : Nat) (obj : Bool) (fields : Except Fault α) :
    Except Fault (Scanned α) := do
  scanFixed rx type totalLen
  if obj then do
    let a ← fields
    .ok ⟨totalLen, some a⟩
  else .ok ⟨totalLen, none⟩

structure Advertise where
  gwId : UInt8
  duration : Nat
deriving Repr, DecidableEq

/-- `SN_Decode_Advertise` -/
def scanAdvertise (rx : Bytes) (obj : Bool) : Except Fault (Scanned Advertise) :=
  scanFixedInto rx MsgType.advertise 5 obj do
    let gwId ← readByte rx 2
    let duration ← scanRestNum rx 3
    .ok {gwId, duration}

/-- `SN_Decode_WillTopicReq` -/
def scanWillTopicReq (rx : Bytes) : Except Fault (Scanned Unit) := scanFixedInto rx MsgType.willTopicReq 2 false (.ok ())

/-- `SN_Decode_WillMsgReq` -/
def scanWillMsgReq (rx : Bytes) : Except Fault (Scanned Unit) := scanFixedInto rx MsgType.willMsgReq 2 false (.ok ())

/-- `SN_Decode_Disconnect` -/
def scanDisconnect (rx : Bytes) : Except Fault (Scanned Unit) := scanFixedInto rx MsgType.disconnect 2 false (.ok ())

/-- A packet with a return code behind its type. -/
def scanReturnCode (rx : Bytes) (type : UInt8) (obj : Bool) : Except Fault (Scanned UInt8) :=
  scanFixedInto rx type 3 obj (readByte rx 2)

/-- `SN_Decode_WillTopicResponse` asks for a place for the return code. -/
def scanWillTopicResponse (rx : Bytes) (obj : Bool) : Except Fault (Scanned UInt8) :=
  if obj then scanReturnCode rx MsgType.willTopicResp true else .error (.code Code.badArg)

/-- `SN_Decode_WillMsgResponse` asks for one as well. -/
def scanWillMsgResponse (rx : Bytes) (obj : Bool) : Except Fault (Scanned UInt8) :=
  if obj then scanReturnCode rx MsgType.willMsgResp true else .error (.code Code.badArg)

/-- `SN_Decode_ConnectAck` -/
def scanConnectAck (rx : Bytes) (obj : Bool) : Except Fault (Scanned UInt8) := scanReturnCode rx MsgType.connAck obj

/-- A topic id, a message id and a return code. -/
def scanIds (rx : Bytes) (pos : Nat) : Except Fault RegAck := do
  let topicId ← scanRestNum rx pos
  let packetId ← scanRestNum rx (pos + 2)
  let returnCode ← readByte rx (pos + 4)
  .ok {topicId := UInt16.ofNat topicId, packetId := UInt16.ofNat packetId, returnCode}

/-- `SN_Decode_RegAck` -/
def scanRegAck (rx : Bytes) (obj : Bool) : Except Fault (Scanned RegAck) :=
  scanFixedInto rx MsgType.regAck 7 obj (scanIds rx 2)

/-- `SN_Decode_SubscribeAck`: the flags, and the rest. -/
def scanSubscribeAck (rx : Bytes) (obj : Bool) : Except Fault (Scanned (UInt8 × RegAck)) :=
  scanFixedInto rx MsgType.subAck 8 obj do
    let flags ← readByte rx 2
    let ids ← scanIds rx 3
    .ok (flags, ids)

/-- `SN_Decode_UnsubscribeAck` -/
def scanUnsubscribeAck (rx : Bytes) (obj : Bool) : Except Fault (Scanned Nat) :=
  scanFixedInto rx MsgType.unsubAck 4 obj (scanRestNum rx 2)

/-! ### Packets with checks of their own -/

/-- `SN_Decode_PublishResp` looks at the buffer before it looks at the length. What a packet of its type does not
carry is 0 here; the source leaves it as it was. -/
def scanPublishResp (rx : Bytes) (type : UInt8) (obj : Bool) : Except Fault (Scanned PublishResp) :=
  if rx.length = 0 then .error (.code Code.badArg)
  else do
    let len ← readByte rx 0
    if len.toNat > rx.length then .error (.code Code.outOfBuffer)
    else if len.toNat ≠ (if type = MsgType.pubAck then 7 else 4) then .error (.code Code.malformedData)
    else do
      let recType ← readByte rx 1
      if recType ≠ type then .error (.code Code.packetType)
      else if !obj then .ok ⟨len.toNat, none⟩
      else if type = MsgType.pubAck then do
        let ids ← scanIds rx 2
        .ok ⟨len.toNat, some {packetId := ids.packetId, topicId := ids.topicId, returnCode := ids.returnCode}⟩
      else do
        let packetId ← scanRestNum rx 2
        .ok ⟨len.toNat, some {packetId := UInt16.ofNat packetId, topicId := 0, returnCode := 0}⟩

/-- `SN_Decode_Ping` takes a request for a response, and the other way round. -/
def scanPing (rx : Bytes) : Except Fault (Scanned Unit) :=
  if rx.length = 0 then .error (.code Code.badArg)
  else do
    let len ← readByte rx 0
    if len.toNat ≠ 2 then .error (.code Code.malformedData)
    else if len.toNat > rx.length then .error (.code Code.outOfBuffer)
    else do
      let t ← readByte rx 1
      if t ≠ MsgType.pingReq ∧ t ≠ MsgType.pingResp then .error (.code Code.packetType) else .ok ⟨len.toNat, none⟩

/-! ### Packets of any length -/

/-- What `SN_Decode_GWInfo` fills in: the address is copied from where it lies. -/
structure GwInfo where
  gwId : UInt8
  gwAddr : Slice
deriving Repr, DecidableEq

/-- The object that `SN_Decode_GWInfo` is given: none, one without a place for an address, or one with it. -/
inductive GwInfoArg where
  | null
  | noAddr
  | full
deriving Repr, DecidableEq

/-- `SN_Decode_GWInfo` -/
def scanGwInfo (rx : Bytes) (obj : GwInfoArg) : Except Fault (Scanned GwInfo) :=
  if rx.length = 0 then .error (.code Code.badArg)
  else do
    let (totalLen, n) ← scanLength rx
    if totalLen > rx.length then .error (.code Code.outOfBuffer)
    else if totalLen < n + 2 then .error (.code Code.malformedData)
    else do
      let type ← readByte rx n
      if type ≠ MsgType.gwInfo then .error (.code Code.packetType)
      else if obj = .null then .ok ⟨totalLen, none⟩
      else do
        let gwId ← readByte rx (n + 1)
        let consumed := n + 2
        if totalLen > consumed then
          let addrLen := if totalLen - consumed > gwAddrSize then gwAddrSize else totalLen - consumed
          if obj = .noAddr then .error (.code Code.badArg)
          else do
            let _ ← readBytes rx consumed addrLen
            .ok ⟨totalLen, some {gwId, gwAddr := ⟨consumed, addrLen⟩}⟩
        else .ok ⟨totalLen, some {gwId, gwAddr := ⟨consumed, 0⟩}⟩

/-- What `SN_Decode_Register` fills in, and the buffer as it leaves it: the name ends in the byte that is written. -/
structure RegisterView where
  topicId : Nat
  packetId : Nat
  topicName : Slice
  rx : Bytes
deriving Repr, DecidableEq

/-- `SN_Decode_Register` -/
def scanRegister (rx : Bytes) (obj : Bool) : Except Fault (Scanned RegisterView) :=
  if rx.length = 0 then .error (.code Code.badArg)
  else do
    let (totalLen, n) ← scanLength rx
    if totalLen ≥ rx.length then .error (.code Code.outOfBuffer)
    else if totalLen < 7 then .error (.code Code.malformedData)
    else do
      let type ← readByte rx n
      if type ≠ MsgType.register then .error (.code Code.packetType)
      else if !obj then .ok ⟨totalLen, none⟩
      else do
        let topicId ← scanRestNum rx (n + 1)
        let packetId ← scanRestNum rx (n + 3)
        if totalLen < n + 5 then .error (.code Code.malformedData)
        else do
          let rx ← writeByte rx (n + 5 + (totalLen - (n + 5))) 0
          .ok ⟨totalLen, some {topicId, packetId, topicName := ⟨n + 5, totalLen - (n + 5)⟩, rx}⟩

/-- What `SN_Decode_Publish` fills in: the topic and the payload in place. -/
structure PublishView where
  duplicate : UInt8
  qos : UInt8
  retain : UInt8
  topicType : UInt8
  topicName : Slice
  packetId : Nat
  buffer : Slice
deriving Repr, DecidableEq

/-- `SN_Decode_Publish` -/
def scanPublish (rx : Bytes) (obj : Bool) : Except Fault (Scanned PublishView) :=
  if rx.length < 2 ∨ !obj then .error (.code Code.badArg)
  else do
    let (totalLen, n) ← scanLength rx
    if totalLen > rx.length then .error (.code Code.outOfBuffer)
    else if totalLen < 7 then .error (.code Code.malformedData)
    else do
      let type ← readByte rx n
      if type ≠ MsgType.publish then .error (.code Code.packetType)
      else do
        let flags ← readByte rx (n + 1)
        let packetId ← scanRestNum rx (n + 4)
        let qos := (flags &&& Flag.qosMask) >>> Flag.qosShift
        let topicType := flags &&& Flag.topicIdTypeMask
        if (qos = 1 ∨ qos = 2) ∧ packetId = 0 then .error (.code Code.packetId)
        else if topicType > TopicIdType.short then .error (.code Code.malformedData)
        else if totalLen < n + 6 then .error (.code Code.malformedData)
        else
          let view : PublishView :=
            { duplicate := flags &&& Flag.duplicate
              qos
              retain := flags &&& Flag.retain
              topicType
              topicName := ⟨n + 2, 2⟩
              packetId
              buffer := ⟨n + 6, totalLen - (n + 6)⟩ }
          .ok ⟨totalLen, some view⟩

/-! ### All of them -/

/-- The decoders, with what they are asked for. -/
inductive Decoder where
  | header (wantId : Bool)
  | advertise (obj : Bool)
  | gwInfo (obj : GwInfoArg)
  | willTopicReq
  | willMsgReq
  | willTopicResponse (obj : Bool)
  | willMsgResponse (obj : Bool)
  | connectAck (obj : Bool)
  | register (obj : Bool)
  | regAck (obj : Bool)
  | subscribeAck (obj : Bool)
  | publish (obj : Bool)
  | publishResp (type : UInt8) (obj : Bool)
  | unsubscribeAck (obj : Bool)
  | disconnect
  | ping
deriving Repr, DecidableEq

/-- What a decoder returns: a length, and the ranges of the buffer that it points at or has copied from. A terminated
range has a byte behind it that is the terminator. -/
structure Returns where
  len : Nat
  ranges : List Slice := []
  terminated : List Slice := []
deriving Repr, DecidableEq

/-- A result that points at nothing. -/
def Scanned.plain {α : Type} (s : Scanned α) : Returns := ⟨s.len, [], []⟩

/-- A result with what its fields point at. -/
def Scanned.returns {α : Type} (s : Scanned α) (ranges terminated : α → List Slice) : Returns :=
  ⟨s.len, (s.fields.map ranges).getD [], (s.fields.map terminated).getD []⟩

def Decoder.run (rx : Bytes) : Decoder → Except Fault Returns
  | header wantId => do
    let h ← scanHeader rx wantId
    .ok ⟨h.totalLen, [], []⟩
  | advertise obj => Scanned.plain <$> scanAdvertise rx obj
  | gwInfo obj => (Scanned.returns · (fun v => [v.gwAddr]) fun _ => []) <$> scanGwInfo rx obj
  | willTopicReq => Scanned.plain <$> scanWillTopicReq rx
  | willMsgReq => Scanned.plain <$> scanWillMsgReq rx
  | willTopicResponse obj => Scanned.plain <$> scanWillTopicResponse rx obj
  | willMsgResponse obj => Scanned.plain <$> scanWillMsgResponse rx obj
  | connectAck obj => Scanned.plain <$> scanConnectAck rx obj
  | register obj => (Scanned.returns · (fun _ => []) fun v => [v.topicName]) <$> scanRegister rx obj
  | regAck obj => Scanned.plain <$> scanRegAck rx obj
  | subscribeAck obj => Scanned.plain <$> scanSubscribeAck rx obj
  | publish obj => (Scanned.returns · (fun v => [v.topicName, v.buffer]) fun _ => []) <$> scanPublish rx obj
  | publishResp type obj => Scanned.plain <$> scanPublishResp rx type obj
  | unsubscribeAck obj => Scanned.plain <$> scanUnsubscribeAck rx obj
  | disconnect => Scanned.plain <$> scanDisconnect rx
  | ping => Scanned.plain <$> scanPing rx

end WolfMqtt.Sn
