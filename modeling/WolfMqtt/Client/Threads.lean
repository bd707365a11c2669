import WolfMqtt.Client.Tables
import WolfMqtt.Packet.Encode
import WolfMqtt.Lib.Moves
import Mathlib.Logic.Function.Basic

/-! The client under several threads: `WOLFMQTT_MULTITHREAD` in the blocking build, on a connection
that is up.

A message object is at work in at most one call at a time, so a thread is known by the object it
calls with. A step is one section under `lockClient`, or the read or the write of one packet under
`lockRecv` or `lockSend`. Writes succeed. Of the packets only what these sections look at is kept. -/
namespace WolfMqtt
namespace Threads

/-! ### Packets -/

/-- A packet that `MqttClient_DecodePacket` can decode. `qos` stands in the flags of its fixed
header. -/
structure Incoming where
  packetType : PacketType
  packetId : Nat := 0
  qos : QoS := .qos0
  reasonCode : UInt8 := Reason.success
deriving Repr, DecidableEq

/-- What the decoders let through: which packets have a Packet Identifier, and what the flags of the
fixed header say. -/
def Incoming.decodable (level : Nat) (p : Incoming) : Bool :=
  match p.packetType with
  | .publish => if p.qos = .qos0 then p.packetId = 0 else p.packetId ≠ 0
  | .publishAck | .publishRec | .publishComp => p.packetId ≠ 0 && p.qos = .qos0
  | .publishRel => p.packetId ≠ 0 && p.qos = .qos1
  | .subscribeAck | .unsubscribeAck => p.qos = .qos0
  | .connectAck | .pingResp => p.packetId = 0 && p.qos = .qos0
  | .auth | .disconnect => level ≥ level5 && p.packetId = 0 && p.qos = .qos0
  | _ => false

/-- `MqttIsPubRespPacket` -/
def isPubResp (t : PacketType) : Bool :=
  t = .publishAck || t = .publishRec || t = .publishRel || t = .publishComp

/-- The packets that `MqttClient_DecodePacket` gives a Packet Identifier back for. -/
def isFinalAck (t : PacketType) : Bool :=
  t = .publishAck || t = .publishComp || t = .subscribeAck || t = .unsubscribeAck

/-- A PUBREC that ends its exchange. -/
def Incoming.rejects (level : Nat) (p : Incoming) : Bool :=
  p.packetType = .publishRec && level ≥ level5 && p.reasonCode ≥ 0x80

/-- The acknowledgement staged on a wait object. -/
structure Ack where
  packetType : PacketType
  packetId : Nat
  reasonCode : UInt8
deriving Repr, DecidableEq

/-- A packet to be sent and what ends the wait for its answer. A PINGREQ has no Packet Identifier,
and none is reserved for it. -/
structure Request where
  ackType : PacketType
  packetId : Nat
  duplicate : Bool := false
deriving Repr, DecidableEq

/-- What the encoders let through. -/
def Request.encodable (r : Request) : Bool :=
  if isFinalAck r.ackType then r.packetId ≠ 0 else r.ackType = .pingResp && r.packetId = 0

/-- What `MqttClient_WaitType` is asked to wait for: the answer to a request, or any packet. -/
abbrev Wait := Option Request

/-! ### Threads -/

/-- A packet a thread has read, at its place in the stream. `stale` marks what an earlier read left
in `rx_buf`. -/
structure Hold where
  wait : Wait
  packet : Incoming
  index : Nat
  stale : Bool := false
deriving Repr, DecidableEq

/-- What the look at the pending responses found: whether the packet goes into the wait object,
whether it ends the wait, whether a PUBREC belongs to a publish under way, and the object of the
pending response. -/
structure Found where
  own : Bool
  waitMatch : Bool
  tracked : Bool
  pend : Option Nat
deriving Repr, DecidableEq

/-- How far the call on a message object is. -/
inductive Place where
  | idle
  /-- `lockSend` is taken for a request. -/
  | claimed (r : Request)
  /-- `MqttClient_SendIdReserve` is through. -/
  | reserved (r : Request)
  /-- `MqttClient_RespList_Add` is through. -/
  | listed (r : Request)
  /-- `MqttClient_RespList_Add` has refused. -/
  | refused (r : Request)
  /-- In `MqttClient_WaitType`, or between two calls of it. -/
  | waiting (w : Wait)
  /-- `lockRecv` is taken. -/
  | reading (w : Wait)
  | received (h : Hold)
  /-- Decoded once, for its type and its Packet Identifier. -/
  | looked (h : Hold)
  | located (h : Hold) (f : Found)
  /-- In `MqttClient_HandlePacket` with a rejecting PUBREC. -/
  | rejecting (h : Hold)
  | rejected (h : Hold)
  | handled (h : Hold) (f : Found) (ack : Option Ack)
  | completed (h : Hold) (f : Found) (ack : Option Ack)
  /-- `lockRecv` is given back, and the acknowledgement waits for `lockSend`. -/
  | staged (h : Hold) (waitMatch : Bool) (ack : Ack)
  | acking (h : Hold) (waitMatch : Bool) (ack : Ack)
  /-- Before the pending response is taken off the list. -/
  | leaving
deriving Repr, DecidableEq

/-- A message object: where its call stands, and the `read` and `ack` of its wait state. -/
structure Task where
  place : Place := .idle
  read : MsgState := .begin
  ack : MsgState := .begin
deriving Repr, DecidableEq

/-! ### The client -/

/-- `MqttPendResp`, in the message object `object`. `since` is how many packets had been read when
its request was written. -/
structure PendResp where
  packetType : PacketType
  packetId : Nat
  object : Nat
  packetDone : Bool := false
  packetRet : Int := 0
  since : Option Nat := none
deriving Repr, DecidableEq

/-- A request on the wire, and how many packets had been read before. -/
structure Sent where
  ackType : PacketType
  packetId : Nat
  duplicate : Bool
  since : Nat
deriving Repr, DecidableEq

/-- A packet that is to be answered, and the reason code of the answer. -/
structure Accepted where
  index : Nat
  packet : Incoming
  reasonCode : UInt8
deriving Repr, DecidableEq

/-- A reservation that an acknowledgement gave back, or a pending response that it completed: when
the exchange had begun, and the acknowledgement's place in the stream. -/
structure Hit where
  since : Option Nat
  index : Nat
deriving Repr, DecidableEq

/-- The part of `MqttClient` its threads share. From `reads` on it is a record of what has happened,
which nothing depends on: the packets read, the requests written, the packets to be answered, the
acknowledgements written with the place of the packet each answers, and what acknowledgements ended.
`since` belongs to the entries of `send_inflight` as `PendResp.since` to a pending response. -/
structure Sys where
  protocolLevel : Nat
  txBufLen : Nat
  sendInflight : List MqttSendId
  recvQos2 : List Nat
  pendResps : List PendResp := []
  lockRecv : Option Nat := none
  lockSend : Option Nat := none
  rxBuf : Option Incoming := none
  /-- `client->packetAck` is a pending response: `MqttClient_Connect` waits for an AUTH. -/
  autoAuth : Bool := false
  task : Nat → Task := fun _ => {}
  reads : List Incoming := []
  sent : List Sent := []
  accepted : List Accepted := []
  acked : List (Nat × Ack) := []
  hits : List Hit := []
  since : Nat → Option Nat := fun _ => none

/-- A client before any call, with room for `sends` and `recvs` Packet Identifiers. -/
def Sys.start (protocolLevel txBufLen sends recvs : Nat) : Sys where
  protocolLevel
  txBufLen
  sendInflight := List.replicate sends {}
  recvQos2 := List.replicate recvs 0

namespace Sys

def set (s : Sys) (k : Nat) (t : Task) : Sys := {s with task := Function.update s.task k t}

/-- The call on `k` goes on at `place`. -/
def go (s : Sys) (k : Nat) (place : Place) : Sys := s.set k {s.task k with place}

def place (s : Sys) (k : Nat) : Place := (s.task k).place

/-- `MqttReadStop`: the lock is given back by the object that has it. -/
def unlockRecv (s : Sys) (k : Nat) : Sys := {s with lockRecv := if s.lockRecv = some k then none else s.lockRecv}

def unlockSend (s : Sys) (k : Nat) : Sys := {s with lockSend := if s.lockSend = some k then none else s.lockSend}

/-! ### Pending responses -/

/-- `MqttClient_RespList_Add` -/
def respListAdd (pend : List PendResp) (k : Nat) (r : Request) : Option (List PendResp) :=
  if pend.any (fun x => x.object = k || (r.packetId ≠ 0 && x.packetId = r.packetId)) then none
  else some (pend ++ [{packetType := r.ackType, packetId := r.packetId, object := k}])

/-- `MqttClient_RespList_Remove` -/
def respListRemove (pend : List PendResp) (k : Nat) : List PendResp := pend.filter (fun x => x.object ≠ k)

/-- `MqttClient_RespList_Find` -/
def respListFind (pend : List PendResp) (packetType : PacketType) (packetId : Nat) : Option PendResp :=
  pend.find? (fun x => x.packetType = packetType && x.packetId = packetId)

/-- `packetDone` and `packet_ret` of the pending response in the object `k`. -/
def markDone (pend : List PendResp) (k : Nat) (rc : Int) : List PendResp :=
  pend.map (fun x => if x.object = k then {x with packetDone := true, packetRet := rc} else x)

/-- `MqttClient_CheckPendResp`, where it finds the response done. -/
def pendDone (s : Sys) : Wait → Option PendResp
  | none => none
  | some r => (respListFind s.pendResps r.ackType r.packetId).filter (fun x => x.packetDone)

/-! ### Sending -/

/-- `MqttClient_SendIdReserve` for a request. -/
def reserve (s : Sys) (k : Nat) (r : Request) : Sys :=
  let (rc, ids) := SendIds.reserve s.sendInflight r.packetId (.object k) r.duplicate r.ackType
  if rc ≠ Code.success then (s.unlockSend k).go k .idle
  else
    let since := if (SendIds.find s.sendInflight r.packetId).isSome then s.since else Function.update s.since r.packetId none
    {s with sendInflight := ids, since}.go k (.reserved r)

def list (s : Sys) (k : Nat) (r : Request) : Sys :=
  match respListAdd s.pendResps k r with
  | some pendResps => {s with pendResps}.go k (.listed r)
  | none => (s.unlockSend k).go k (.refused r)

/-- The packet goes out whole, and the call turns to waiting. -/
def write (s : Sys) (k : Nat) (r : Request) : Sys :=
  let now := s.reads.length
  let pendResps := s.pendResps.map (fun x => if x.object = k then {x with since := some now} else x)
  let sent := s.sent ++ [{ackType := r.ackType, packetId := r.packetId, duplicate := r.duplicate, since := now}]
  let since := Function.update s.since r.packetId (some ((s.since r.packetId).getD now))
  ({s with pendResps, sent, since}.unlockSend k).go k (.waiting (some r))

/-- `MqttClient_SendIdReleaseOwner` -/
def releaseOwner (s : Sys) (k : Nat) : Sys := {s with sendInflight := SendIds.releaseOwner s.sendInflight (.object k)}

/-! ### Reading -/

/-- `MqttClient_SendIdRelease` by a packet that was read. -/
def release (s : Sys) (h : Hold) (ackType : Option PacketType) : Sys :=
  let (given, sendInflight) := SendIds.release s.sendInflight h.packet.packetId ackType
  let hits := if given then s.hits ++ [Hit.mk (s.since h.packet.packetId) h.index] else s.hits
  {s with sendInflight, hits}

/-- What `MqttClient_DecodePacket` does to the client. -/
def decode (s : Sys) (h : Hold) : Sys :=
  if isFinalAck h.packet.packetType then s.release h (some h.packet.packetType) else s

/-- Whether a packet goes into the wait object. -/
def goesToOwn (w : Wait) (p : Incoming) : Bool :=
  match w with
  | none => true
  | some r =>
    (r.ackType = p.packetType || (isPubResp p.packetType && isPubResp r.ackType)) &&
      (r.packetId = 0 || r.packetId = p.packetId)

/-- Whether a packet in the wait object ends the wait. -/
def endsWait (w : Wait) (p : Incoming) : Bool :=
  match w with
  | none => true
  | some r => p.packetType = r.ackType

/-- The look at the pending responses in `MqttClient_WaitType`, on behalf of the object `k`. What
`rx_buf` still holds from before has no type there, and is not looked for. -/
def locate (s : Sys) (k : Nat) (h : Hold) : Found :=
  let p := h.packet
  if h.stale then {own := h.wait.isNone, waitMatch := h.wait.isNone, tracked := false, pend := none}
  else
    let own := goesToOwn h.wait p
    let x := respListFind s.pendResps p.packetType p.packetId
    let foreign := x.any (fun x => x.object ≠ k) || (h.wait.isNone && p.packetType = .auth && s.autoAuth)
    let isRec := p.packetType = .publishRec && s.protocolLevel ≥ level5
    let mine := isRec && h.wait.any (fun r => r.ackType = .publishComp && r.packetId ≠ 0 && r.packetId = p.packetId)
    let theirs :=
      !mine && isRec &&
        s.pendResps.any (fun x => x.packetType = .publishComp && x.packetId = p.packetId && !x.packetDone)
    { own := own && !foreign
      waitMatch := own && endsWait h.wait p && !foreign && !theirs
      tracked := mine || theirs
      pend := x.map (fun x => x.object) }

/-- How the handling of a PUBLISH ends: with an error, or with the reason code for its answer. -/
inductive Delivery where
  | failed
  | done (reasonCode : UInt8)
deriving Repr, DecidableEq

/-- `MqttClient_Publish_ReadPayload` of a PUBLISH. `cb` is what the message callback makes of it, a
reason code or an error. -/
def deliver (s : Sys) (p : Incoming) (cb : Option UInt8) : Delivery :=
  let isDup := p.qos = .qos2 && RecvQos2.contains s.recvQos2 p.packetId
  let untrackable := p.qos = .qos2 && !isDup && !RecvQos2.hasFreeSlot s.recvQos2
  if isDup then .done Reason.success
  else if untrackable then
    if s.protocolLevel ≥ level5 then .done Reason.quotaExceeded else .failed
  else
    match cb with
    | none => .failed
    | some reasonCode => .done reasonCode

/-- A packet is to be answered. -/
def accept (s : Sys) (k : Nat) (h : Hold) (f : Found) (packetType : PacketType) (reasonCode : UInt8) : Sys :=
  let accepted := s.accepted ++ [{index := h.index, packet := h.packet, reasonCode}]
  {s with accepted}.go k (.handled h f (some {packetType, packetId := h.packet.packetId, reasonCode}))

/-- `MqttClient_WaitType` goes out with an error, and the wait state is left at `read`. -/
def abandon (s : Sys) (k : Nat) (read : MsgState) : Sys :=
  (s.unlockRecv k).set k {s.task k with place := .leaving, read}

/-- The PUBLISH case of `MqttClient_HandlePacket`. -/
def handlePublish (s : Sys) (k : Nat) (h : Hold) (f : Found) (cb : Option UInt8) : Sys :=
  match s.deliver h.packet cb with
  | .failed => s.abandon k (if f.own then .begin else .payload)
  | .done reasonCode =>
    match h.packet.qos with
    | .qos0 => s.go k (.handled h f none)
    | .qos1 => s.accept k h f .publishAck reasonCode
    | .qos2 =>
      let recvQos2 :=
        if s.protocolLevel < level5 || reasonCode < 0x80 then RecvQos2.add s.recvQos2 h.packet.packetId else s.recvQos2
      {s with recvQos2}.accept k h f .publishRec reasonCode

/-- `MqttClient_HandlePacket`, which decodes the packet again. What is left in `rx_buf` from before
it takes for a PUBLISH. -/
def handle (s : Sys) (k : Nat) (h : Hold) (f : Found) (cb : Option UInt8) : Sys :=
  let s := s.decode h
  let p := h.packet
  match if h.stale then PacketType.publish else p.packetType with
  | .publish => s.handlePublish k h f cb
  | .publishRec =>
    if p.rejects s.protocolLevel then s.go k (.rejecting h)
    else
      let untracked := s.protocolLevel ≥ level5 && !f.tracked
      s.accept k h f .publishRel (if untracked then Reason.packetIdNotFound else Reason.success)
  | .publishRel =>
    {s with recvQos2 := RecvQos2.remove s.recvQos2 p.packetId}.accept k h f .publishComp Reason.success
  | .auth => {s with rxBuf := none}.go k (.handled h f none)
  | _ => s.go k (.handled h f none)

/-- A rejecting PUBREC completes the publish that waits for the PUBCOMP. -/
def reject (s : Sys) (k : Nat) (h : Hold) : Sys :=
  match respListFind s.pendResps .publishComp h.packet.packetId with
  | none => s.go k (.rejected h)
  | some x =>
    {s with
      pendResps := markDone s.pendResps x.object Code.publishRejected
      hits := s.hits ++ [Hit.mk x.since h.index]}.go k (.rejected h)

/-- The pending response that was found is marked done. -/
def complete (s : Sys) (k : Nat) (h : Hold) (f : Found) (ack : Option Ack) : Sys :=
  let found := s.pendResps.filter (fun x => f.pend = some x.object && x.packetId ≠ 0)
  {s with
    pendResps := f.pend.elim s.pendResps (fun o => markDone s.pendResps o Code.success)
    hits := s.hits ++ found.map (fun x : PendResp => Hit.mk x.since h.index)}.go k (.completed h f ack)

/-- The wait state after a packet that is not answered. -/
def readAfter (h : Hold) (f : Found) : MsgState :=
  if h.packet.packetType = .pingResp && !h.stale then .begin
  else if (h.packet.packetType = .publish || h.stale) && f.own then .begin
  else .payload

/-- The acknowledgement is staged on the wait object, or there is none; `lockRecv` is given back. -/
def stage (s : Sys) (k : Nat) (h : Hold) (f : Found) : Option Ack → Sys
  | some a =>
    if s.autoAuth then s.abandon k .begin
    else (s.unlockRecv k).set k {place := .staged h f.waitMatch a, read := .ack, ack := .wait}
  | none =>
    if f.waitMatch then (s.unlockRecv k).set k {s.task k with place := .leaving, read := readAfter h f}
    else (s.unlockRecv k).set k {s.task k with place := .waiting h.wait, read := .begin}

/-! ### Acknowledging -/

/-- `MqttEncode_PublishResp` takes the acknowledgement. -/
def encodes (s : Sys) (a : Ack) : Bool :=
  (encodePublishResp s.txBufLen a.packetType
    {packetId := a.packetId, reasonCode := a.reasonCode, protocolLevel := s.protocolLevel}).rc ≥ 0

/-- The acknowledgement goes out, unless it cannot be encoded: it then stays staged for good. -/
def sendAck (s : Sys) (k : Nat) (h : Hold) (waitMatch : Bool) (a : Ack) : Sys :=
  let s' := s.unlockSend k
  if s.encodes a then
    let place := if waitMatch then Place.leaving else .waiting h.wait
    {s' with acked := s.acked ++ [(h.index, a)]}.set k {place, read := if waitMatch then .ack else .begin, ack := .begin}
  else s'.set k {place := .leaving, read := .ack, ack := .ack}

/-! ### Steps -/

/-- `MqttClient_CancelMessage`. Its packet counts as written while the call on it waits for the
answer. -/
def cancel (s : Sys) (k : Nat) (onWire : Bool) : Sys :=
  {s with
    sendInflight :=
      if onWire then SendIds.disown s.sendInflight (.object k) else SendIds.releaseOwner s.sendInflight (.object k)
  }.set k {s.task k with place := .leaving, read := .begin}

/-- The wait on `k` goes on, as the wait state of the object has it. -/
def resume (s : Sys) (k : Nat) (w : Wait) : Sys :=
  match (s.task k).read, (s.task k).ack with
  | .header, _ => s.go k (.reading w)
  | .payload, _ =>
    match s.rxBuf with
    | none => s.abandon k .begin
    | some packet => s.go k (.looked {wait := w, packet, index := s.reads.length - 1, stale := true})
  | .ack, .ack => s.abandon k .ack
  | _, _ => s.set k {s.task k with read := .begin}

/-- The wait is over, for its answer `x` has come to another thread. -/
def answered (s : Sys) (k : Nat) (x : PendResp) : Sys :=
  {s with pendResps := respListRemove s.pendResps x.object}.go k .leaving

/-- `MqttClient_CheckPendResp` before the read. -/
def poll (s : Sys) (k : Nat) (w : Wait) : Option Sys := (s.pendDone w).map (fun x => s.answered k x)

/-- `MqttReadStart`, and `MqttClient_CheckPendResp` again under the lock. -/
def lock (s : Sys) (k : Nat) (w : Wait) : Sys :=
  match s.pendDone w with
  | some x => s.answered k x
  | none => {s with lockRecv := some k}.go k (.reading w)

/-- What a thread can do next. -/
inductive Act where
  /-- `MqttClient_Publish`, `MqttClient_Subscribe`, `MqttClient_Unsubscribe` or `MqttClient_Ping`. -/
  | send (r : Request)
  /-- `MqttClient_WaitMessage` -/
  | wait
  /-- A wait looks whether its answer has come. -/
  | poll
  /-- A wait takes up what the wait state of its object was left at. -/
  | resume
  /-- `MqttReadStart` -/
  | lock
  | read (p : Incoming)
  /-- The read ends with an error, or the packet cannot be decoded. -/
  | fails (fatal : Bool)
  /-- The next section, with what the message callback would say. -/
  | next (cb : Option UInt8)
  | cancel
  /-- `MqttClient_Connect` begins or ends its wait for an AUTH. -/
  | auth (pending : Bool)
deriving Repr, DecidableEq

/-- The section that follows a place, where the thread has no choice. -/
def next (s : Sys) (k : Nat) (cb : Option UInt8) : Option Sys :=
  match s.place k with
  | .claimed r => some (s.reserve k r)
  | .reserved r => some (s.list k r)
  | .listed r => some (s.write k r)
  | .refused r => some ((if r.packetId = 0 then s else s.releaseOwner k).go k .leaving)
  | .received h => some ((s.decode h).go k (.looked h))
  | .looked h => some (s.go k (.located h (s.locate k h)))
  | .located h f => some (s.handle k h f cb)
  | .rejecting h => some (s.reject k h)
  | .rejected h => some ((s.release h none).abandon k .payload)
  | .handled h f ack => some (s.complete k h f ack)
  | .completed h f ack => some (s.stage k h f ack)
  | .staged h waitMatch ack =>
    if s.lockSend = none then some (Sys.go {s with lockSend := some k} k (.acking h waitMatch ack)) else none
  | .acking h waitMatch ack => some (s.sendAck k h waitMatch ack)
  | .leaving => some (Sys.go {s with pendResps := respListRemove s.pendResps k} k .idle)
  | _ => none

/-- One step of the call on the object `k`. -/
def step (s : Sys) (k : Nat) : Act → Option Sys
  | .send r =>
    if s.place k = .idle ∧ s.lockSend = none ∧ r.encodable then
      some (Sys.go {s with lockSend := some k} k (.claimed r))
    else none
  | .wait => if s.place k = .idle then some (s.go k (.waiting none)) else none
  | .poll =>
    match s.place k with
    | .waiting w => if (s.task k).read = .begin then s.poll k w else none
    | _ => none
  | .resume =>
    match s.place k with
    | .waiting w => if (s.task k).read = .begin then none else some (s.resume k w)
    | _ => none
  | .lock =>
    match s.place k with
    | .waiting w => if (s.task k).read = .begin ∧ s.lockRecv = none then some (s.lock k w) else none
    | _ => none
  | .read p =>
    match s.place k with
    | .reading w =>
      if p.decodable s.protocolLevel then
        some (Sys.go {s with rxBuf := some p, reads := s.reads ++ [p]} k
          (.received {wait := w, packet := p, index := s.reads.length}))
      else none
    | _ => none
  | .fails fatal =>
    match s.place k with
    | .reading _ => some (s.abandon k (if fatal then .begin else .header))
    | _ => none
  | .next cb => s.next k cb
  | .cancel =>
    match s.place k with
    | .waiting w => some (s.cancel k w.isSome)
    | .idle => some (s.cancel k false)
    | _ => none
  | .auth pending => some {s with autoAuth := pending}

/-- The step of a system of threads: which object's call moves, and how. -/
def stepOf (s : Sys) (ka : Nat × Act) : Option Sys := s.step ka.1 ka.2

end Sys
end Threads
end WolfMqtt
