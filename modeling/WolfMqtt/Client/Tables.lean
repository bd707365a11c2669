import WolfMqtt.Client.State

/-! The client's tables: outbound and inbound Packet Identifiers, the replay store and the Receive
Maximum counter, as `mqtt_client.c` keeps them. -/
namespace WolfMqtt

/-! ### Outbound Packet Identifiers -/
namespace SendIds

/-- `MqttClient_SendIds_Find` -/
def find (ids : List MqttSendId) (packetId : Nat) : Option Nat := ids.findIdx? (fun s => s.packetId = packetId)

/-- `MqttClient_SendIdReserve` -/
def reserve (ids : List MqttSendId) (packetId : Nat) (owner : Owner) (isRetransmit : Bool) (ackType : PacketType) :
    Int × List MqttSendId :=
  if packetId = 0 then (Code.success, ids)
  else
    match find ids packetId with
    | some i =>
      if !isRetransmit then (Code.packetId, ids)
      else (Code.success, ids.modify i (fun s => {s with owner := some owner, ackType := some ackType}))
    | none =>
      match find ids 0 with
      | some i => (Code.success, ids.set i {packetId, owner := some owner, ackType := some ackType})
      -- no room: the identifier goes untracked
      | none => (Code.success, ids)

/-- Whether an acknowledgement of type `ackType` ends the exchange an entry stands for. -/
def ends (s : MqttSendId) (ackType : Option PacketType) : Bool :=
  ackType.isNone || s.ackType.isNone || s.ackType = ackType

/-- The table's part of `MqttClient_SendIdRelease`, and whether an entry was given back. -/
def release (ids : List MqttSendId) (packetId : Nat) (ackType : Option PacketType) : Bool × List MqttSendId :=
  if packetId = 0 then (false, ids)
  else
    match find ids packetId with
    | some i => if ends (ids.getD i {}) ackType then (true, ids.set i {}) else (false, ids)
    | none => (false, ids)

/-- `MqttClient_SendIdReleaseOwner` -/
def releaseOwner (ids : List MqttSendId) (owner : Owner) : List MqttSendId :=
  ids.map (fun s => if s.packetId ≠ 0 ∧ s.owner = some owner then {} else s)

/-- `MqttClient_SendIdDisown` -/
def disown (ids : List MqttSendId) (owner : Owner) : List MqttSendId :=
  ids.map (fun s => if s.packetId ≠ 0 ∧ s.owner = some owner then {s with owner := none} else s)

/-- `MqttClient_SendIdsReset` -/
def reset (ids : List MqttSendId) : List MqttSendId := ids.map (fun _ => {})

end SendIds

/-! ### The replay store -/
namespace Replay

/-- `MqttClient_Replay_Find` -/
def find (slots : List MqttReplayMsg) (packetId : Nat) : Option Nat :=
  slots.findIdx? (fun s => s.packetId = packetId)

/-- `WOLFMQTT_MALLOC`, and the script after it. -/
def malloc : List Bool → Bool × List Bool
  | [] => (true, [])
  | ok :: rest => (ok, rest)

/-- Whether a PUBLISH can be kept whole: its payload is there, and it has no properties. -/
def copyable (p : MqttPublish) : Bool :=
  !(p.totalLen > 0 && (p.buffer.isNone || p.bufferLen < p.totalLen)) && p.props.isEmpty

/-- The slot of `MqttClient_Replay_Add` once the copies are made, as far as there is memory. -/
def copied (p : MqttPublish) (mallocs : List Bool) : MqttReplayMsg × List Bool :=
  let slot : MqttReplayMsg := {packetId := p.packetId, qos := p.qos, retain := p.retain}
  if !copyable p then (slot, mallocs)
  else
    let (topicOk, mallocs) := malloc mallocs
    if !topicOk then (slot, mallocs)
    else
      let whole : MqttReplayMsg :=
        {slot with
          topic := p.topicName
          payload := (p.buffer.getD []).take p.totalLen
          payloadLen := p.totalLen
          haveCopy := true}
      if p.totalLen > 0 then
        let (payloadOk, mallocs) := malloc mallocs
        if payloadOk then (whole, mallocs) else (slot, mallocs)
      else (whole, mallocs)

/-- `MqttClient_Replay_Add` -/
def add (slots : List MqttReplayMsg) (mallocs : List Bool) (p : MqttPublish) : List MqttReplayMsg × List Bool :=
  if p.packetId = 0 then (slots, mallocs)
  else
    match (find slots p.packetId).orElse (fun _ => find slots 0) with
    | none => (slots, mallocs)
    | some i =>
      let (slot, mallocs) := copied p mallocs
      (slots.set i slot, mallocs)

/-- `MqttClient_Replay_PubRelSent` -/
def pubRelSent (slots : List MqttReplayMsg) (packetId : Nat) : List MqttReplayMsg :=
  if packetId = 0 then slots
  else
    match find slots packetId with
    | some i => slots.modify i (fun s => {s with pubrelSent := true})
    | none =>
      match find slots 0 with
      | some i => slots.set i {packetId, qos := .qos2, pubrelSent := true}
      | none => slots

/-- `MqttClient_Replay_Remove` -/
def remove (slots : List MqttReplayMsg) (packetId : Nat) : List MqttReplayMsg :=
  if packetId = 0 then slots
  else
    match find slots packetId with
    | some i => slots.set i {}
    | none => slots

/-- The slots after `MqttClient_Replay_Reset`. -/
def reset (slots : List MqttReplayMsg) : List MqttReplayMsg := slots.map (fun _ => {})

end Replay

/-! ### Packet Identifiers of inbound QoS 2 messages -/
namespace RecvQos2

/-- `MqttClient_RecvQos2_Contains`; a free slot holds 0. -/
def contains (ids : List Nat) (packetId : Nat) : Bool := packetId ≠ 0 && ids.contains packetId

/-- `MqttClient_RecvQos2_HasFreeSlot` -/
def hasFreeSlot (ids : List Nat) : Bool := ids.contains 0

/-- `MqttClient_RecvQos2_Add` -/
def add (ids : List Nat) (packetId : Nat) : List Nat :=
  if packetId = 0 || contains ids packetId then ids
  else
    match ids.findIdx? (fun i => i = 0) with
    | some i => ids.set i packetId
    | none => ids

/-- `MqttClient_RecvQos2_Remove` -/
def remove (ids : List Nat) (packetId : Nat) : List Nat :=
  if packetId = 0 then ids
  else
    match ids.findIdx? (fun i => i = packetId) with
    | some i => ids.set i 0
    | none => ids

end RecvQos2
namespace MqttClient

/-! ### Reservations on a client -/

def sendIdReserve (c : MqttClient) (packetId : Nat) (owner : Owner) (isRetransmit : Bool) (ackType : PacketType) :
    Int × MqttClient :=
  let (rc, ids) := SendIds.reserve c.sendInflight packetId owner isRetransmit ackType
  (rc, {c with sendInflight := ids})

/-- `MqttClient_SendIdRelease`: what is given back leaves the replay store too. -/
def sendIdRelease (c : MqttClient) (packetId : Nat) (ackType : Option PacketType) : MqttClient :=
  let (given, ids) := SendIds.release c.sendInflight packetId ackType
  {c with
    sendInflight := ids
    replay := if given then Replay.remove c.replay packetId else c.replay}

def replayAdd (c : MqttClient) (p : MqttPublish) : MqttClient :=
  let (replay, mallocs) := Replay.add c.replay c.mallocs p
  {c with replay, mallocs}

def replayRemove (c : MqttClient) (packetId : Nat) : MqttClient := {c with replay := Replay.remove c.replay packetId}

/-! ### Receive Maximum -/

/-- `MqttClient_RecvQuotaReserve` -/
def recvQuotaReserve (c : MqttClient) (stat : MqttMsgStat) : Bool × MqttClient × MqttMsgStat :=
  if stat.recvQuotaHeld then (true, c, stat)
  else if c.serverRecvMax > 0 then
    (true, {c with serverRecvMax := c.serverRecvMax - 1}, {stat with recvQuotaHeld := true})
  else (false, c, stat)

/-- `MqttClient_RecvQuotaRelease` -/
def recvQuotaRelease (c : MqttClient) (stat : MqttMsgStat) : MqttClient × MqttMsgStat :=
  if stat.recvQuotaHeld then
    ({c with
      serverRecvMax :=
        if c.serverRecvMax < c.serverRecvMaxNegotiated then c.serverRecvMax + 1 else c.serverRecvMax},
      {stat with recvQuotaHeld := false})
  else (c, stat)

end MqttClient
end WolfMqtt
