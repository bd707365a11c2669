import WolfMqtt.Client.Threads
import WolfMqtt.Client.Write
import WolfMqtt.Packet.Decoders

/-! Receiving: `MqttClient_DecodePacket`, `MqttClient_HandlePacket` and `MqttClient_WaitType`, in one thread.

A packet goes into a message object, `client->msg` unless the wait is for it. The object of a PUBLISH keeps its
properties and how far its payload has been handed on until all of it has. The members an object has for a PUBLISH
are taken as zero once a packet of another type has been put into it. The callbacks answer as a function of how
often they have been asked. -/
namespace WolfMqtt.Receive

open Attempt (lift)
open DecodeM (fail)
open Function (update)
open Threads (isFinalAck isPubResp)

/-! ### The state -/

/-- A message object: `client->msg`, or one of the application's. -/
inductive Obj where
  | shared
  | own (k : Nat)
deriving Repr, DecidableEq

/-- A `MqttPublish` that is received. Where its payload is in `rx_buf` and how long it is there are `buffer` and
`buffer_len`; `props` is the pointer to its first property. -/
structure Inbound where
  qos : Nat := 0
  retain : UInt8 := 0
  duplicate : UInt8 := 0
  topicName : Option Slice := none
  packetId : Nat := 0
  buffer : Slice := ⟨0, 0⟩
  bufferNew : Bool := false
  bufferPos : Nat := 0
  totalLen : Nat := 0
  props : Option Nat := none
  /-- `resp.reason_code` -/
  reasonCode : UInt8 := Reason.success
deriving Repr, DecidableEq

/-- What the message callback answers, and the reason code it has put into `resp`. -/
structure Answer where
  rc : Int
  reasonCode : Option UInt8 := none
deriving Repr, DecidableEq

/-- A call of the message callback: `msg_new`, `msg_done`, `buffer_pos` and the bytes at `buffer`. -/
structure Delivery where
  isNew : Bool
  done : Bool
  pos : Nat
  piece : Bytes
deriving Repr, DecidableEq

structure Receiver where
  client : MqttClient
  /-- `client->packet.buf_len` -/
  bufLen : Nat := 0
  /-- `clientPropStack` -/
  pool : PropPool
  stat : Obj → MqttMsgStat := fun _ => {}
  publish : Obj → Inbound := fun _ => {}
  /-- `client->recv_qos2` -/
  recvQos2 : List Nat
  msgCb : Option (Nat → Answer)
  propertyCb : Option (Nat → Int) := none
  /-- How often the property callback has been asked. -/
  told : Nat := 0
  /-- The calls of the message callback. -/
  log : List Delivery := []

/-- A wait: `packet_obj`, the object with its state, `wait_type` and `wait_packet_id`. The type is none for
`MQTT_PACKET_TYPE_ANY`. -/
structure Wait where
  obj : Obj
  stat : Obj
  type : Option PacketType := none
  packetId : Nat := 0
deriving Repr, DecidableEq

namespace Receiver

/-- What of `rx_buf` has been filled. -/
def rx (s : Receiver) : Bytes := s.client.reader.rxBuf.take s.bufLen

def modifyStat (o : Obj) (f : MqttMsgStat → MqttMsgStat) (s : Receiver) : Receiver :=
  {s with stat := update s.stat o (f (s.stat o))}

def setRead (o : Obj) (read : MsgState) (s : Receiver) : Receiver := s.modifyStat o ({· with read})

def modifyPublish (o : Obj) (f : Inbound → Inbound) (s : Receiver) : Receiver :=
  {s with publish := update s.publish o (f (s.publish o))}

def setReader (reader : Reader) (s : Receiver) : Receiver := {s with client := {s.client with reader}}

section
variable (o : Obj) (s : Receiver)

@[simp]
theorem stat_modifyStat (f : MqttMsgStat → MqttMsgStat) : (s.modifyStat o f).stat o = f (s.stat o) :=
  Function.update_self o _ _

theorem stat_modifyStat_of_ne (f : MqttMsgStat → MqttMsgStat) {p : Obj} (hp : p ≠ o) :
    (s.modifyStat o f).stat p = s.stat p :=
  Function.update_of_ne hp _ _

@[simp]
theorem stat_setRead (read : MsgState) : (s.setRead o read).stat o = {s.stat o with read} := stat_modifyStat o s _

theorem stat_setRead_of_ne (read : MsgState) {p : Obj} (hp : p ≠ o) : (s.setRead o read).stat p = s.stat p :=
  stat_modifyStat_of_ne o s _ hp

@[simp]
theorem publish_modifyPublish (f : Inbound → Inbound) : (s.modifyPublish o f).publish o = f (s.publish o) :=
  Function.update_self o _ _

end

/-- `CLIENT_FORCE_ZERO` of `rx_buf` -/
def scrub (s : Receiver) : Receiver :=
  s.setReader {s.client.reader with rxBuf := List.replicate s.client.reader.rxBufLen 0}

/-- `MqttProps_Free` -/
def freeList (head : Option Nat) (s : Receiver) : Receiver :=
  {s with pool := (freeProps .own {pool := s.pool, props := some head}).2.pool}

end Receiver

/-! ### Decoding -/

/-- `MqttDecode_Ping` -/
def decodePing (rx : Bytes) : Except Fault Nat :=
  if rx.length = 0 then .error (.code Code.badArg)
  else do
    let (headerLen, remainLen, _) ← scanHeader rx .pingResp
    if remainLen ≠ 0 then .error (.code Code.malformedData) else .ok (headerLen + remainLen)

/-- What is made of a packet that has been decoded. `code` is the return code of a CONNACK and the reason code of
a PUBLISH response. -/
structure Decoded where
  len : Nat
  packetId : Option Nat := none
  code : UInt8 := 0
  props : List PropView := []
  publish : Option PublishView := none

/-- The decoder of each type of packet. -/
def decodeAs (level : Nat) (rx : Bytes) (type : PacketType) : DecodeM Decoded :=
  match type with
  | .connectAck => do
    let v ← decodeConnectAck level rx
    pure {len := v.len, code := v.returnCode, props := v.props}
  | .publish => do
    let v ← decodePublish level rx
    pure {len := v.len, packetId := v.packetId, props := v.props, publish := some v}
  | .publishAck | .publishRec | .publishRel | .publishComp => do
    let v ← decodePublishResp type level rx
    pure {len := v.len, packetId := some v.packetId, code := v.reasonCode.getD Reason.success, props := v.props}
  | .subscribeAck => do
    let v ← decodeSubscribeAck level rx
    pure {len := v.len, packetId := some v.packetId, props := v.props}
  | .unsubscribeAck => do
    let v ← decodeUnsubscribeAck level rx
    pure {len := v.len, packetId := some v.packetId, props := v.props}
  | .pingResp => do
    let len ← lift (decodePing rx)
    pure {len}
  | .auth =>
    if level < level5 then fail Code.packetType
    else do
      let v ← decodeAuth rx
      pure {len := v.len, code := v.reasonCode, props := v.props}
  | .disconnect =>
    if level < level5 then fail Code.packetType
    else do
      let v ← decodeDisconnect rx
      pure {len := v.len, code := v.reasonCode, props := v.props}
  | .connect | .subscribe | .unsubscribe | .pingReq => fail Code.packetType

/-- `MQTT_PACKET_SZ_MAX` -/
def packetSzMaximum : Nat := 0xA0000005

/-- What one property of an accepting CONNACK sets. -/
def connectAckProp (c : MqttClient) (p : PropView) : Except Int MqttClient :=
  match p.type with
  | .maxQos => .ok {c with maxQos := if p.dataByte = 0 then .qos0 else .qos1}
  | .retainAvail => .ok {c with retainAvail := p.dataByte ≠ 0}
  | .maxPacketSz =>
    if p.dataInt > 0 ∧ p.dataInt ≤ packetSzMaximum ∧ (c.packetSzMax = 0 ∨ p.dataInt < c.packetSzMax) then
      .ok {c with packetSzMax := p.dataInt}
    else .ok c
  | .receiveMax =>
    if p.dataShort = 0 then .error Code.serverProp
    else .ok {c with serverRecvMax := p.dataShort, serverRecvMaxNegotiated := p.dataShort}
  | .topicAliasMax => .ok {c with topicAliasMax := p.dataShort}
  | _ => .ok c

def connectAckPropsLoop : List PropView → MqttClient → Int × MqttClient
  | [], c => (Code.success, c)
  | p :: rest, c =>
    match connectAckProp c p with
    | .ok c => connectAckPropsLoop rest c
    | .error rc => (rc, c)

/-- `Handle_ConnectAck_Props` -/
def handleConnectAckProps (props : List PropView) (c : MqttClient) : Int × MqttClient :=
  if props.any (fun p => (p.type = .maxQos || p.type = .retainAvail) && p.dataByte > 1) then (Code.serverProp, c)
  else connectAckPropsLoop props c

/-- Where a PUBLISH has been decoded to. -/
def Inbound.decoded (p : Inbound) (v : PublishView) (props : Option Nat) : Inbound :=
  { p with
    qos := v.qos
    retain := v.retain
    duplicate := v.duplicate
    topicName := some v.topicName
    packetId := v.packetId.getD p.packetId
    buffer := v.buffer
    bufferNew := true
    bufferPos := 0
    totalLen := v.totalLen
    props }

/-- The results of `MqttClient_DecodePacket`, and the code in the packet. -/
structure Decoding where
  rc : Int
  type : Option PacketType := none
  qos : Nat := 0
  packetId : Nat := 0
  code : UInt8 := 0

namespace Receiver

/-- The property callback is asked. -/
def askPropertyCb (s : Receiver) : Int × Receiver :=
  match s.propertyCb with
  | none => (Code.success, s)
  | some cb => (min (cb s.told) Code.success, {s with told := s.told + 1})

/-- `Handle_Props` -/
def handleProps (props : Option Nat) (useCb freeProps : Bool) (s : Receiver) : Int × Receiver :=
  if props.isNone then (Code.success, s)
  else
    let (rc, s) := if useCb then s.askPropertyCb else (Code.success, s)
    (rc, if freeProps then s.freeList props else s)

/-- The object of a packet, or the variable that is used when there is none. -/
def inObject (obj : Option Obj) (f : Inbound → Inbound) (s : Receiver) : Receiver :=
  match obj with
  | none => s
  | some o => s.modifyPublish o f

/-- The properties of a PUBLISH stay for the message callback. A Topic Alias cannot be resolved. -/
def decodedPublish (obj : Option Obj) (v : PublishView) (props : Option Nat) (s : Receiver) : Int × Receiver :=
  let s := s.inObject obj (fun p => p.decoded v props)
  if s.client.protocolLevel ≥ level5 ∧ v.props.any (·.type = .topicAlias) then
    (Code.malformedData, (s.freeList props).inObject obj ({· with props := none}))
  else
    let (rc, s) := s.handleProps props obj.isSome obj.isNone
    (if rc ≠ Code.success then rc else v.len, s)

/-- The properties of any other packet are freed. -/
def decodedOther (obj : Option Obj) (type : PacketType) (d : Decoded) (props : Option Nat) (s : Receiver) :
    Int × Receiver :=
  let s := s.inObject obj (fun _ => {})
  let s := if isFinalAck type then {s with client := s.client.sendIdRelease (d.packetId.getD 0) (some type)} else s
  let (limits, client) :=
    if type = .connectAck ∧ d.code = 0 then handleConnectAckProps d.props s.client else (Code.success, s.client)
  let (rc, s) := {s with client}.handleProps props obj.isSome true
  (if rc ≠ Code.success then rc else if limits ≠ Code.success then limits else d.len, s)

/-- What a decoder that fails leaves in an object. -/
def undecoded (obj : Option Obj) (type : PacketType) (props : Option (Option Nat)) (s : Receiver) : Receiver :=
  if type = .publish then s.inObject obj (fun p => {p with props := props.getD p.props})
  else s.inObject obj (fun _ => {})

/-- A type of packet that only a client sends. -/
def fromClient (type : PacketType) : Bool :=
  type = .connect || type = .subscribe || type = .unsubscribe || type = .pingReq

/-- `MQTT_PACKET_TYPE_GET`; none for `MQTT_PACKET_TYPE_RESERVED`. -/
def packetTypeGet (first : UInt8) : Option PacketType :=
  [.connect, .connectAck, .publish, .publishAck, .publishRec, .publishRel, .publishComp, .subscribe, .subscribeAck,
    .unsubscribe, .unsubscribeAck, .pingReq, .pingResp, .disconnect, .auth].find?
      (fun t => PacketType.toNat t = first.toNat / 16)

/-- A return code out of a failed decoder. -/
def faultCode : Fault → Int
  | .code rc => rc
  | .overrun => Code.outOfBuffer

/-- `MqttClient_DecodePacket` of what is in `rx_buf`, into an object if there is one. -/
def decodePacket (obj : Option Obj) (s : Receiver) : Decoding × Receiver :=
  let rx := s.rx
  if rx.length < headerMinSize then ({rc := Code.badArg}, s)
  else
    let first := rx.getD 0 0
    let qos := first.toNat / 2 % 4
    match packetTypeGet first with
    | none => ({rc := Code.packetType, qos}, s)
    | some type =>
      if fromClient type then ({rc := Code.packetType, type, qos}, s)
      else
        match decodeAs s.client.protocolLevel rx type {pool := s.pool} with
        | (.error e, p) => ({rc := faultCode e, type, qos}, {s with pool := p.pool}.undecoded obj type p.props)
        | (.ok d, p) =>
          let packetId := d.packetId.getD (if d.publish.isSome then (obj.elim 0 fun o => (s.publish o).packetId) else 0)
          let s := {s with pool := p.pool}
          let (rc, s) :=
            match d.publish with
            | some v => s.decodedPublish obj v (p.head .own)
            | none => s.decodedOther obj type d (p.head .own)
          ({rc, type, qos, packetId, code := d.code}, s)

end Receiver

/-! ### Handling -/

namespace Receiver

/-- The message callback is asked about the PUBLISH in an object. -/
def callMsgCb (cb : Nat → Answer) (o : Obj) (done : Bool) (s : Receiver) : Int × Receiver :=
  let p := s.publish o
  let answer := cb s.log.length
  let call : Delivery := {isNew := p.bufferNew, done, pos := p.bufferPos, piece := p.buffer.get s.client.reader.rxBuf}
  let s := {s with log := s.log ++ [call]}
  (answer.rc, s.modifyPublish o (fun p => {p with reasonCode := answer.reasonCode.getD p.reasonCode}))

/-- The callback, unless there is none or the message is not for it. -/
def deliver (o : Obj) (suppress done : Bool) (s : Receiver) : Int × Receiver :=
  match s.msgCb with
  | none => (Code.success, s)
  | some cb => if suppress then (Code.success, s) else s.callMsgCb cb o done

/-- `msg_done` -/
def msgDone (p : Inbound) : Bool := p.bufferPos + p.buffer.len ≥ p.totalLen

/-- The first piece, which has come with the header. -/
def deliverFirst (o : Obj) (suppress : Bool) (s : Receiver) : Int × Receiver :=
  let p := s.publish o
  if p.bufferNew then
    let (rc, s) := s.deliver o suppress (msgDone p)
    if rc ≠ Code.success then (rc, s)
    else (rc, s.modifyPublish o ({· with topicName := none, bufferNew := false}))
  else (Code.success, s)

/-- The piece that has been handed on is done with. -/
def nextPiece (o : Obj) (s : Receiver) : Receiver :=
  (s.modifyPublish o (fun p => {p with bufferPos := p.bufferPos + p.buffer.len, buffer := ⟨p.buffer.off, 0⟩})).setRead o
    .payload2

theorem publish_nextPiece (o : Obj) (s : Receiver) : (s.nextPiece o).publish o =
    { s.publish o with
      bufferPos := (s.publish o).bufferPos + (s.publish o).buffer.len
      buffer := ⟨(s.publish o).buffer.off, 0⟩ } :=
  Function.update_self o _ _

/-- The pieces after it, each read to the front of `rx_buf`, while the message is not done. -/
def readPieces (o : Obj) (suppress : Bool) : Nat → Receiver → Int × Receiver
  | 0, s => (Code.success, s)
  | fuel + 1, s =>
    if msgDone (s.publish o) then (Code.success, s)
    else
      let s := s.nextPiece o
      let p := s.publish o
      let msgLen := min (p.totalLen - p.bufferPos) s.client.reader.rxBufLen
      if msgLen > 0 then
        let (rc, reader) := socketRead s.client.nonblock 0 msgLen s.client.reader
        let s := s.setReader reader
        if rc < 0 then (rc, s)
        else
          let s := s.modifyPublish o ({· with buffer := ⟨0, rc.toNat⟩})
          let (rc, s) := s.deliver o suppress (msgDone (s.publish o))
          if rc ≠ Code.success then (rc, s) else readPieces o suppress fuel s
      else readPieces o suppress fuel s

/-- A retransmission that awaits its PUBREL. -/
def isDup (o : Obj) (s : Receiver) : Bool := (s.publish o).qos = 2 && RecvQos2.contains s.recvQos2 (s.publish o).packetId

/-- A new QoS 2 message that there is no room to keep track of. -/
def untrackable (o : Obj) (s : Receiver) : Bool :=
  (s.publish o).qos = 2 && !s.isDup o && !RecvQos2.hasFreeSlot s.recvQos2

/-- `MqttClient_Publish_ReadPayload`. A turn of the loop hands on at least a byte. -/
def readPayload (o : Obj) (s : Receiver) : Int × Receiver :=
  let full := s.untrackable o
  let suppress := s.isDup o || full
  let (rc, s) := s.deliverFirst o suppress
  if rc ≠ Code.success then (rc, s)
  else
    let (rc, s) := readPieces o suppress ((s.publish o).totalLen + 1) s
    let (rc, s) :=
      if rc = Code.success ∧ full then
        if s.client.protocolLevel ≥ level5 then (rc, s.modifyPublish o ({· with reasonCode := Reason.quotaExceeded}))
        else (Code.packetId, s)
      else (rc, s)
    if rc = Code.success ∧ s.msgCb.isNone then (Code.callback, s) else (rc, s)

/-- What `MqttClient_HandlePacket` makes of a PUBLISH whose payload has been gone through. -/
def publishDone (o : Obj) (qos packetId : Nat) (rc : Int) (s : Receiver) : Int × MqttPublishResp × Receiver :=
  let s := s.setRead o .begin
  let s := (s.freeList (s.publish o).props).modifyPublish o ({· with props := none})
  if rc < 0 ∨ qos = 0 then (rc, {}, s)
  else
    let reasonCode := (s.publish o).reasonCode
    let s := s.modifyPublish o ({· with reasonCode := Reason.success})
    let tracked := qos = 2 ∧ (s.client.protocolLevel < level5 ∨ reasonCode &&& 0x80 = 0)
    (rc, {packetType := some (if qos = 1 then .publishAck else .publishRec), packetId, reasonCode},
      if tracked then {s with recvQos2 := RecvQos2.add s.recvQos2 packetId} else s)

/-- The PUBLISH case of `MqttClient_HandlePacket`, from the payload on. -/
def handlePayload (o : Obj) (qos packetId : Nat) (s : Receiver) : Int × MqttPublishResp × Receiver :=
  let (rc, s) := s.readPayload o
  if rc = Code.continue then (rc, {}, s) else s.publishDone o qos packetId rc

/-- The case of a PUBLISH response. -/
def handleResp (o : Obj) (s : Receiver) : Int × MqttPublishResp × Receiver :=
  let (d, s) := s.decodePacket (some o)
  if d.rc ≤ 0 then (d.rc, {}, s)
  else if d.type = some .publishRec then
    if s.client.protocolLevel ≥ level5 ∧ d.code &&& 0x80 ≠ 0 then
      (Code.publishRejected, {}, {s with client := s.client.sendIdRelease d.packetId none})
    else (d.rc, {packetType := some .publishRel, packetId := d.packetId}, s)
  else if d.type = some .publishRel then
    (d.rc, {packetType := some .publishComp, packetId := d.packetId},
      {s with recvQos2 := RecvQos2.remove s.recvQos2 d.packetId})
  else (d.rc, {}, s)

/-- `MqttClient_HandlePacket` -/
def handlePacket (type : Option PacketType) (o : Obj) (s : Receiver) : Int × MqttPublishResp × Receiver :=
  match type with
  | some .publish =>
    if (s.stat o).read ≠ .payload2 then
      let (d, s) := s.decodePacket (some o)
      if d.rc ≤ 0 then (d.rc, {}, s) else s.handlePayload o d.qos d.packetId
    else s.handlePayload o (s.publish o).qos (s.publish o).packetId
  | some .publishAck | some .publishRec | some .publishRel | some .publishComp => s.handleResp o
  | some .connectAck | some .subscribeAck | some .unsubscribeAck | some .pingResp | some .disconnect =>
    let (d, s) := s.decodePacket (some o)
    (d.rc, {}, s)
  | some .auth =>
    let (d, s) := s.decodePacket (some o)
    (d.rc, {}, s.scrub)
  | none | some .connect | some .subscribe | some .unsubscribe | some .pingReq => (Code.packetType, {}, s)

end Receiver

/-! ### Waiting -/

/-- Is the packet for the object of the wait? -/
def Wait.takes (w : Wait) (type : Option PacketType) (packetId : Nat) : Bool :=
  (w.type.isNone || w.type = type || (type.any isPubResp && w.type.any isPubResp)) &&
    (w.packetId = 0 || w.packetId = packetId)

/-- Does it end the wait? -/
def Wait.ends (w : Wait) (type : Option PacketType) (packetId : Nat) : Bool :=
  w.takes type packetId && (w.type = type || w.type.isNone)

/-- The object a packet goes into. -/
def Wait.target (w : Wait) (type : Option PacketType) (packetId : Nat) : Obj :=
  if w.takes type packetId then w.obj else .shared

/-- `MqttClient_IsFatalProtoError` -/
def isFatalProtoError (rc : Int) : Bool :=
  rc = Code.malformedData || rc = Code.packetType || rc = Code.packetId || rc = Code.property ||
    rc = Code.propertyMismatch || rc = Code.serverProp

namespace Receiver

/-- The acknowledgement that is to be sent is staged in the object of the wait. -/
def stage (w : Wait) (resp : MqttPublishResp) (s : Receiver) : Receiver :=
  if resp.packetType.any isPubResp then
    s.modifyStat w.stat (fun t =>
      { t with
        ackPacketType := resp.packetType
        ackPacketId := resp.packetId
        ackReasonCode := resp.reasonCode
        ackProtocolLevel := s.client.protocolLevel
        read := .ack
        ack := .wait })
  else s

/-- `MqttReadStop` -/
def readStop (o : Obj) (s : Receiver) : Receiver :=
  let (client, stat) := s.client.readStop (s.stat o)
  {s with client}.modifyStat o (fun _ => stat)

@[simp]
theorem stat_readStop (o : Obj) (s : Receiver) : (s.readStop o).stat o = {s.stat o with isReadActive := false} :=
  Function.update_self o _ _

/-- An unsolicited PUBREC is answered with a reason code of its own. -/
def untracked (w : Wait) (type : Option PacketType) (packetId : Nat) (resp : MqttPublishResp) (s : Receiver) :
    MqttPublishResp :=
  if type = some .publishRec ∧ s.client.protocolLevel ≥ level5 ∧ resp.packetType = some .publishRel ∧
      ¬(w.type = some .publishComp ∧ w.packetId ≠ 0 ∧ w.packetId = packetId) then
    {resp with reasonCode := Reason.packetIdNotFound}
  else resp

/-- The cases `MQTT_MSG_PAYLOAD` and `MQTT_MSG_PAYLOAD2`. A packet that has only been started has no type any more. -/
def handle (w : Wait) (type : Option PacketType) (qos packetId : Nat) (s : Receiver) : Int × Receiver :=
  let o := w.target type packetId
  let read := (s.stat w.stat).read
  let useType := if type.isNone ∧ (read = .payload ∨ read = .payload2) then some .publish else type
  let s := if useType = some .publish ∧ read = .payload then s.modifyPublish o ({· with qos, packetId}) else s
  let (rc, resp, s) := s.handlePacket useType o
  let resp := if rc ≥ 0 then s.untracked w type packetId resp else resp
  let s := if o ≠ w.stat ∧ (s.stat o).read = .payload2 then s.setRead w.stat .payload2 else s
  if rc < 0 then (rc, s) else (Code.success, (s.stage w resp).readStop w.stat)

/-- What the end of a wait goes by: the code, and whether the packet is what it was for. -/
structure Switched where
  rc : Int
  found : Bool := false

/-- The cases `MQTT_MSG_WAIT` and `MQTT_MSG_HEADER`. -/
def await (w : Wait) (s : Receiver) : Switched × Receiver :=
  let (rc, reader) := packetRead s.client.nonblock s.client.reader
  let s := s.setReader reader
  if rc ≤ 0 then
    ({rc}, if s.client.nonblock ∧ rc = Code.continue ∧ (reader.stat ≠ .begin ∨ reader.total > 0) then
      s.setRead w.stat .header else s)
  else
    let s := {s.setRead w.stat .header with bufLen := rc.toNat}
    let (d, s) := s.decodePacket none
    if d.rc < 0 then ({rc := d.rc}, s)
    else
      -- `MqttClient_PacketReset`
      let s := s.modifyPublish .shared (fun _ => {})
      let s := s.setRead w.stat (if d.type = some .pingResp then .wait else .payload)
      let (rc, s) := s.handle w d.type d.qos d.packetId
      ({rc, found := w.ends d.type d.packetId}, s)

/-- `MqttWriteStop` -/
def writeStop (o : Obj) (s : Receiver) : Receiver :=
  let (client, stat) := s.client.writeStop (s.stat o)
  {s with client}.modifyStat o (fun _ => stat)

@[simp]
theorem stat_writeStop (o : Obj) (s : Receiver) : (s.writeStop o).stat o = {s.stat o with isWriteActive := false} :=
  Function.update_self o _ _

/-- The acknowledgement goes out: a code to go on with, or none if the call returns to be made again. -/
def writeAck (w : Wait) (s : Receiver) : Option Int × Receiver :=
  let len := s.client.writer.len
  let (rc, client) := s.client.packetWrite len
  let s := {s with client}
  if s.client.nonblock ∧ rc = Code.continue then (none, s)
  else
    let s := s.writeStop w.stat
    let rc := if rc = len then Code.success else rc
    let s :=
      if rc = Code.success ∧ (s.stat w.stat).ackPacketType = some .publishRel then
        {s with client := {s.client with replay := Replay.pubRelSent s.client.replay (s.stat w.stat).ackPacketId}}
      else s
    (some rc, s.modifyStat w.stat ({· with ackPacketType := none, ack := .begin}))

def encodeAck (w : Wait) (s : Receiver) : Option Int × Receiver :=
  let t := s.stat w.stat
  let e := encodePublishResp s.client.txBufLen (t.ackPacketType.getD .publishAck)
    {packetId := t.ackPacketId, reasonCode := t.ackReasonCode, protocolLevel := t.ackProtocolLevel}
  if e.rc < 0 then (some e.rc, s.writeStop w.stat)
  else writeAck w ({s with client := (s.client.fill e.out).setLen e.rc.toNat}.modifyStat w.stat ({· with ack := .header}))

/-- The second switch: the code it goes on with. -/
def ackSwitch (w : Wait) (rc : Int) (s : Receiver) : Option Int × Receiver :=
  match (s.stat w.stat).ack with
  | .begin => (some rc, s)
  | .wait =>
    let (rc, client, stat) := s.client.writeStart (s.stat w.stat)
    let s := {s with client}.modifyStat w.stat (fun _ => stat)
    if rc ≠ Code.success then (some rc, s) else encodeAck w (s.modifyStat w.stat ({· with ack := .ack}))
  | .ack => encodeAck w s
  | .header => writeAck w s
  | .auth | .payload | .payload2 => (some Code.stat, s)

/-- The end of a pass: the code that the wait returns, if it does not go on. `failed` is whether the first switch
has ended with an error. -/
def finish (w : Wait) (failed found : Bool) (rc : Int) (s : Receiver) : Option Int × Receiver :=
  let s := if (s.stat w.stat).read = .wait then s.setRead w.stat .begin else s
  if s.client.nonblock ∧ rc = Code.continue ∧ (s.stat w.stat).read ≠ .begin then (some rc, s)
  else
    let fatal := failed && isFatalProtoError rc
    let s := if fatal then s.scrub else s
    let s := s.readStop w.stat
    if rc < 0 then (some rc, if fatal then {s with client := {s.client with isConnected := false}} else s)
    else if !found then
      let s := s.setRead w.stat .begin
      if s.client.nonblock ∧ w.type.isNone ∧ w.packetId = 0 then (some Code.continue, s) else (none, s)
    else (some rc, s)

/-- The end of a wait on data that cannot be what the peer has to send. -/
def abandon (w : Wait) (s : Receiver) : Receiver :=
  let s := if (s.stat w.stat).isWriteActive then s.writeStop w.stat else s
  let s := s.modifyStat w.stat ({· with read := .begin, ack := .begin})
  let s := s.scrub.readStop w.stat
  {s with client := {s.client with isConnected := false}}

/-- What comes after the first switch. -/
def settle (w : Wait) (r : Switched) (s : Receiver) : Option Int × Receiver :=
  if r.rc < 0 ∧ isFatalProtoError r.rc then (some r.rc, s.abandon w)
  else
    match s.ackSwitch w r.rc with
    | (none, s) => (some Code.continue, s)
    | (some rc, s) => s.finish w (r.rc < 0) r.found rc

/-- `MqttReadStart` -/
def readStart (o : Obj) (s : Receiver) : Int × Receiver :=
  let (rc, client, stat) := s.client.readStart (s.stat o)
  (rc, {s with client}.modifyStat o (fun _ => stat))

/-- `MqttClient_WaitType` once from `wait_again` on: the code that it returns, if it does not wait again. -/
def pass (w : Wait) (s : Receiver) : Option Int × Receiver :=
  match (s.stat w.stat).read with
  | .begin =>
    let (rc, s) := s.readStart w.stat
    if rc ≠ Code.success then (some rc, s)
    else
      let (r, s) := (s.setRead w.stat .wait).await w
      s.settle w r
  | .wait | .header =>
    let (r, s) := s.await w
    s.settle w r
  | .payload | .payload2 =>
    let (rc, s) := s.handle w none 0 0
    s.settle w {rc, found := w.ends none 0}
  | .ack => s.settle w {rc := Code.success}
  | .auth => s.settle w {rc := Code.stat}

/-- `MqttClient_CancelMessage`. A message object stands for itself among the owners of Packet Identifiers. -/
def cancelMessage (o : Obj) (owner : Owner) (s : Receiver) : Receiver :=
  let (client, stat) := s.client.cancelMessage owner (s.stat o)
  {s with client}.modifyStat o (fun _ => stat)

end Receiver
end WolfMqtt.Receive
