import WolfMqtt.Client.Write
import WolfMqtt.Sn.Receive

/-! Waiting for MQTT-SN packets: `SN_Client_WriteResponse`, `SN_Client_HandlePacket` and
`SN_Client_WaitType` of `mqtt_sn_client.c`.

A wait goes through the code once for each packet it looks at, and each time it is resumed:
`pass`. A pass brings what `SN_Packet_Read` finds, what the application's callbacks return, and
what their own sends make of the writer. Beside the members the source has, a client keeps a
record of the messages it received and of what it did with each. -/
namespace WolfMqtt.Sn

/-! ### The client -/

/-- What a client does with a message: it calls a callback, or hands bytes to the transport. -/
inductive Act where
  | message (publish : DecodedPublish)
  | register (topicId : Nat) (topicName : Bytes) (rc : Int)
  | wrote (piece : Bytes)
deriving Repr, DecidableEq

/-- A message the client received: the buffer it came in, its length and type, and what the client did. -/
structure Turn where
  rxBuf : Bytes
  bufLen : Nat
  type : UInt8
  acts : List Act := []
deriving Repr, DecidableEq

/-- `MqttClient` with its members for MQTT-SN, and the message objects it waits with. -/
structure SnClient where
  client : MqttClient
  /-- Is a `msg_cb` set? -/
  msgCb : Bool
  /-- Is a `reg_cb` set? -/
  regCb : Bool
  /-- `client->packet.buf_len` -/
  bufLen : Nat := 0
  snWaitPacketType : UInt8 := MsgType.reserved
  snWaitPacketId : Nat := 0
  stats : Nat → MqttMsgStat := fun _ => {}
  /-- What was received, the last first. -/
  turns : List Turn := []

/-- What `SN_Packet_Read` comes to: the packet it puts into `rx_buf`, or a code of 0 or less; `started` says that
part of a packet has come. -/
inductive Found where
  | packet (bytes : Bytes)
  | fail (rc : Int) (started : Bool)

/-- What a pass of a wait meets outside the client. -/
structure Pass where
  found : Found
  msgRc : Int := Code.success
  regRc : Int := Code.success
  /-- What the sends of a callback leave of the writer. -/
  sends : Writer → Writer := id

/-! ### Answers -/

/-- The return code of a REGACK. -/
def regAckCode : MsgState → Option UInt8
  | .wait => some ReturnCode.accepted
  | .auth => some ReturnCode.invTopicName
  | .payload2 => some ReturnCode.notSupported
  | _ => none

def regAckOf (d : DecodedRegister) (returnCode : UInt8) : RegAck :=
  {topicId := UInt16.ofNat d.topicId, packetId := UInt16.ofNat d.packetId, returnCode}

/-- The answer to a PUBLISH: its topic id is what stands in its topic field. -/
def publishAnswer (txLen : Nat) (publish : DecodedPublish) : Encoded :=
  let topicId := (publish.topicName.getD 0 0).toNat * 256 + (publish.topicName.getD 1 0).toNat
  encodePublishResp txLen (if publish.qos = 1 then MsgType.pubAck else MsgType.pubRec)
    (some {packetId := UInt16.ofNat publish.packetId, topicId := UInt16.ofNat topicId, returnCode := ReturnCode.accepted})

/-! ### Writing an answer -/
namespace SnClient

/-- The received packet, `client->packet.buf_len` bytes of `rx_buf`. -/
def packet (s : SnClient) : Bytes := s.client.reader.rxBuf.take s.bufLen

/-- The record of what is done with the message received last. -/
def note (s : SnClient) (act : Act) : SnClient :=
  match s.turns with
  | [] => s
  | t :: rest => {s with turns := {t with acts := t.acts ++ [act]} :: rest}

/-- Where a handler ends: its code, whether an answer is pending, the client and the wait's object. -/
structure Handled where
  rc : Int
  responsePending : Bool := false
  sn : SnClient
  stat : MqttMsgStat

/-- `SN_Client_WriteResponse` from its write on, with `client->write` and `stat->ack` set up. Its callers have set
`response_pending`. -/
def writeOn (s : SnClient) (stat : MqttMsgStat) : Handled :=
  let xfer := s.client.writer.len
  let (rc, client) := s.client.packetWrite xfer
  let s := ({s with client} : SnClient).note (.wrote (client.writer.wire.drop s.client.writer.wire.length))
  if rc = Code.continue then {rc, responsePending := true, sn := s, stat}
  else
    let (client, stat) := s.client.writeStop stat
    {rc := if rc = xfer then Code.success else rc, responsePending := true, sn := {s with client},
     stat := {stat with ack := .begin}}

/-- The writer is set to write `len` bytes from the front of `tx_buf`. -/
def rewound (s : SnClient) (len : Nat) : SnClient :=
  {s with client := {s.client with writer := {s.client.writer with pos := 0, len}}}

/-- `SN_Client_WriteResponse` -/
def writeResponse (s : SnClient) (stat : MqttMsgStat) (encodedLen : Int) : Handled :=
  if encodedLen > 0 then (s.rewound encodedLen.toNat).writeOn {stat with ack := .header}
  else if stat.ack ≠ .header then {rc := Code.stat, responsePending := true, sn := s, stat}
  else writeOn s stat

/-- The steps from `MqttWriteStart` on that every answer shares. `resets` says whether a failure takes `ack` back
to `MQTT_MSG_BEGIN`, which it does for the messages that have a callback. -/
def respond (s : SnClient) (stat : MqttMsgStat) (resets : Bool) (response : Encoded) : Handled :=
  let (rc, client, stat) := s.client.writeStart stat
  if rc ≠ Code.success then
    let stat := if resets ∧ rc ≠ Code.continue then {stat with ack := .begin} else stat
    {rc, responsePending := true, sn := {s with client}, stat}
  else
    let s := {s with client := client.fill response.out}
    if response.rc ≤ 0 then
      let (client, stat) := s.client.writeStop stat
      let stat := if resets then {stat with ack := .begin} else stat
      {rc := response.rc, responsePending := true, sn := {s with client}, stat}
    else s.writeResponse stat response.rc

/-- A callback has been called, and has used the client's writer in its own way. -/
def called (s : SnClient) (p : Pass) (act : Act) : SnClient :=
  ({s with client := {s.client with writer := p.sends s.client.writer}} : SnClient).note act

/-! ### `SN_Client_HandlePacket` -/

/-- The register callback, unless it has been called: `stat->ack` keeps its result. -/
def callRegCb (s : SnClient) (stat : MqttMsgStat) (p : Pass) (d : DecodedRegister) : SnClient × MqttMsgStat :=
  if stat.ack ≠ .begin then (s, stat)
  else if s.regCb then
    (s.called p (.register d.topicId d.name p.regRc), {stat with ack := if p.regRc ≥ 0 then .wait else .auth})
  else (s, {stat with ack := .payload2})

/-- The decoder puts a zero behind the topic name, in `rx_buf`. -/
def handleRegister (s : SnClient) (stat : MqttMsgStat) (p : Pass) : Handled :=
  match decodeRegister s.client.reader.rxBuf with
  | .error e => {rc := e, sn := s, stat}
  | .ok d =>
    let s := {s with client := {s.client with reader := {s.client.reader with rxBuf := d.rx}}}
    let (s, stat) := s.callRegCb stat p d
    match regAckCode stat.ack with
    | none => {rc := Code.stat, sn := s, stat := {stat with ack := .begin}}
    | some returnCode => s.respond stat true (encodeRegAck s.client.txBufLen (some (regAckOf d returnCode)))

/-- A PUBLISH once the application has it. -/
def answerPublish (s : SnClient) (stat : MqttMsgStat) (rc : Int) (publish : DecodedPublish) : Handled :=
  if publish.qos > 0 then
    if stat.ack ≠ .wait then {rc := Code.stat, sn := s, stat := {stat with ack := .begin}}
    else s.respond stat true (publishAnswer s.client.txBufLen publish)
  else {rc, sn := s, stat := {stat with ack := .begin}}

def handlePublish (s : SnClient) (stat : MqttMsgStat) (p : Pass) : Handled :=
  match decodePublish s.packet with
  | .error e => {rc := e, sn := s, stat}
  | .ok publish =>
    if stat.ack ≠ .begin then s.answerPublish stat publish.totalLen publish
    else if !s.msgCb then {rc := Code.callback, sn := s, stat}
    else
      let s := s.called p (.message publish)
      if p.msgRc ≠ Code.success then {rc := p.msgRc, sn := s, stat}
      else s.answerPublish {stat with ack := .wait} p.msgRc publish

/-- PUBREC and PUBREL. -/
def handlePublishResp (s : SnClient) (type : UInt8) (stat : MqttMsgStat) : Handled :=
  match decodePublishResp type s.packet with
  | .error e => {rc := e, sn := s, stat}
  | .ok resp =>
    s.respond stat false
      (encodePublishResp s.client.txBufLen (if type = MsgType.pubRec then MsgType.pubRel else MsgType.pubComp) (some resp))

def handlePingReq (s : SnClient) (stat : MqttMsgStat) : Handled :=
  match decodePing s.packet with
  | .error e => {rc := e, sn := s, stat}
  | .ok _ => s.respond stat false (encodePing s.client.txBufLen none MsgType.pingResp)

/-- `SN_Client_HandlePacket` -/
def handlePacket (s : SnClient) (type : UInt8) (stat : MqttMsgStat) (p : Pass) : Handled :=
  if stat.ack = .header then s.writeResponse stat 0
  else if type = MsgType.register then s.handleRegister stat p
  else if type = MsgType.publish then s.handlePublish stat p
  else if type = MsgType.pubRec ∨ type = MsgType.pubRel then s.handlePublishResp type stat
  else if type = MsgType.pingReq then s.handlePingReq stat
  else {rc := decodeNoted type s.packet, sn := s, stat}

/-! ### `SN_Client_WaitType` -/

/-- Where the switch of `SN_Client_WaitType` ends, `matched` if the packet is the awaited one. -/
structure Switched extends Handled where
  matched : Bool := false

/-- The packet is forgotten, and the receive lock let go of. -/
def doneReading (s : SnClient) (stat : MqttMsgStat) : SnClient × MqttMsgStat :=
  let (client, stat) := s.client.readStop stat
  ({s with client, snWaitPacketType := MsgType.reserved, snWaitPacketId := 0}, stat)

/-- The case `MQTT_MSG_PAYLOAD`, for the packet type and id it works with. -/
def handleCase (s : SnClient) (stat : MqttMsgStat) (waitType : UInt8) (waitId : Nat) (type : UInt8) (id : Nat)
    (p : Pass) : Switched :=
  let matched := decide ((waitType = MsgType.any ∨ waitType = type) ∧ (waitId = 0 ∨ waitId = id))
  let h := s.handlePacket type stat p
  if h.rc = Code.continue then {h with matched}
  else
    let (sn, stat) := h.sn.doneReading h.stat
    {rc := if h.rc ≥ 0 then Code.success else h.rc, responsePending := h.responsePending, sn, stat, matched}

/-- A packet has come in: `rx_buf` holds it, and what does not fit is cut off. -/
def received (s : SnClient) (bytes : Bytes) : SnClient :=
  let rxBuf := s.client.reader.rxBuf
  let bytes := bytes.take rxBuf.length
  {s with
    client := {s.client with reader := {s.client.reader with rxBuf := bytes ++ rxBuf.drop bytes.length}}
    bufLen := bytes.length}

/-- The message is on record from when its header has been read. -/
def opened (s : SnClient) (h : Header) : SnClient :=
  {s with
    snWaitPacketType := h.type
    snWaitPacketId := h.packetId
    turns := {rxBuf := s.client.reader.rxBuf, bufLen := s.bufLen, type := h.type} :: s.turns}

/-- The cases `MQTT_MSG_WAIT` and `MQTT_MSG_HEADER`. -/
def readCase (s : SnClient) (stat : MqttMsgStat) (waitType : UInt8) (waitId : Nat) (p : Pass) : Switched :=
  match p.found with
  | .fail rc started =>
    let stat := if s.client.nonblock ∧ rc = Code.continue ∧ started then {stat with read := .header} else stat
    {rc, sn := s, stat}
  | .packet bytes =>
    let s := s.received bytes
    if s.bufLen = 0 then {rc := 0, sn := s, stat}
    else
      match decodeHeader s.packet with
      | .error e => {rc := e, sn := s, stat := {stat with read := .header}}
      | .ok h => (s.opened h).handleCase {stat with read := .payload} waitType waitId h.type h.packetId p

/-- How a pass ends: with the wait's return code, or in `goto wait_again`. -/
inductive Next where
  | returned (rc : Int)
  | again
deriving Repr, DecidableEq

/-- The code behind the switch. -/
def finish (w : Switched) (waitType : UInt8) (waitId : Nat) : Next × SnClient × MqttMsgStat :=
  let stat := if w.stat.read = .wait then {w.stat with read := .begin} else w.stat
  let held := w.rc = Code.continue ∧ (stat.read = .header ∨ w.responsePending)
  if held ∧ w.sn.client.nonblock then (.returned w.rc, w.sn, stat)
  else if held ∧ w.responsePending ∧ stat.isWriteActive then (.again, w.sn, stat)
  else
    let (s, stat) := w.sn.doneReading stat
    let stat := if w.rc = Code.continue then {stat with read := .begin} else stat
    if w.rc < 0 then (.returned w.rc, s, stat)
    else if !w.matched then
      let stat := {stat with read := .begin}
      if s.client.nonblock ∧ waitType = MsgType.any ∧ waitId = 0 then (.returned Code.continue, s, stat)
      else (.again, s, stat)
    else (.returned w.rc, s, stat)

def setStat (s : SnClient) (o : Nat) (stat : MqttMsgStat) : SnClient := {s with stats := Function.update s.stats o stat}

/-- `SN_Client_WaitType` with the object `o`, once from `wait_again` on. -/
def pass (s : SnClient) (o : Nat) (waitType : UInt8) (waitId : Nat) (p : Pass) : Next × SnClient :=
  let stat := s.stats o
  match stat.read with
  | .begin =>
    let (rc, client, stat) := s.client.readStart stat
    if rc ≠ Code.success then (.returned rc, s)
    else
      let (next, s, stat) :=
        finish (({s with client} : SnClient).readCase {stat with read := .wait} waitType waitId p) waitType waitId
      (next, s.setStat o stat)
  | .wait | .header =>
    let (next, s, stat) := finish (s.readCase stat waitType waitId p) waitType waitId
    (next, s.setStat o stat)
  | .payload | .payload2 =>
    let (next, s, stat) :=
      finish (s.handleCase stat waitType waitId s.snWaitPacketType s.snWaitPacketId p) waitType waitId
    (next, s.setStat o stat)
  | .ack | .auth =>
    let (next, s, stat) := finish {rc := Code.stat, sn := s, stat} waitType waitId
    (next, s.setStat o stat)

/-- `SN_Client_WaitType`: passes until one returns. There is no code while the passes of the list last. -/
def waitCall (s : SnClient) (o : Nat) (waitType : UInt8) (waitId : Nat) : List Pass → Option Int × SnClient
  | [] => (none, s)
  | p :: rest =>
    match s.pass o waitType waitId p with
    | (.returned rc, s) => (some rc, s)
    | (.again, s) => waitCall s o waitType waitId rest

end SnClient
end WolfMqtt.Sn
