import WolfMqtt.Client.Write

/-! Sending a PUBLISH: `MqttEncode_Publish` with its bookkeeping, `MqttClient_Publish_WritePayload`,
and `MqttPublishMsg` as far as its wait for the acknowledgement. -/
namespace WolfMqtt

/-! ### The encoder's first chunk -/

/-- `MqttEncode_Publish`, and `intBuf_len`: how much of the payload it has put behind the header, or with a payload
length that is negative as an `int` that number as a `word32`. -/
def encodePublishStaged (txLen : Nat) (p : Publish) (useCb : Bool) : Encoded × Nat :=
  match publishVariable p with
  | .error e => (.fail e, 0)
  | .ok vh =>
    if p.buffer.isSome && p.bufferLen > 0 && p.totalLen = 0 then (.fail Code.badArg, 0)
    else
      let payloadLen : Int := if (p.buffer.isSome || useCb) && p.totalLen > 0 then toInt32 p.totalLen else 0
      let header := encodeFixedHeader txLen (vh.length + payloadLen) .publish p.retain p.qos p.duplicate
      if header.rc < 0 then (header, 0)
      else
        let payloadLen : Int := if useCb then 0 else payloadLen
        let used := header.out.length + vh.length
        if txLen < used then (⟨Code.outOfBuffer, header.out⟩, 0)
        else if payloadLen > 0 then
          let fits := min payloadLen (txLen - used : Int)
          let copied := if p.bufferLen > 0 && (p.bufferLen : Int) < fits then (p.bufferLen : Int) else fits
          (⟨used + copied, header.out ++ vh ++ (p.buffer.getD []).take copied.toNat⟩, copied.toNat)
        else (⟨used + payloadLen, header.out ++ vh⟩, (payloadLen % 4294967296).toNat)

/-- What `MqttEncode_Publish` leaves in the message object when it succeeds. -/
def MqttPublish.staged (p : MqttPublish) (useCb : Bool) (copied : Nat) : MqttPublish :=
  let p := {p with intBufPos := 0, intBufLen := copied}
  if !useCb && p.buffer.isSome && toInt32 p.totalLen > 0 then
    {p with bufferPos := copied, bufferLen := if p.bufferLen = 0 then p.totalLen else p.bufferLen}
  else p

/-! ### The payload -/

/-- `MqttPublishCb`: the answer when it is asked for the `n`-th time, and what is then in the buffer. -/
abbrev PublishCb := Nat → Int × Bytes

/-- A `word32`. -/
def word32 (n : Nat) : Nat := n % 4294967296

/-- Difference of two `word32`. -/
def word32Sub (a b : Nat) : Nat := word32 (a + 4294967296 - b)

namespace MqttClient

/-- The inner loop of a publish with a callback: the bytes the callback has supplied go out in pieces of
`tx_buf` size. -/
def writeFill : Nat → MqttClient → MqttPublish → Int × MqttClient × MqttPublish
  | 0, c, p => (Code.success, c, p)
  | fuel + 1, c, p =>
    let len := min (word32Sub p.intBufCbLen p.intBufPos) c.txBufLen
    let p := {p with intBufLen := len}
    let c := (c.setLen len).fill (((p.buffer.getD []).drop p.intBufPos).take len)
    let (rc, c) := c.packetWrite len
    if rc < 0 then (rc, c, p)
    else
      let p := {p with intBufPos := word32 (p.intBufPos + p.intBufLen), intBufLen := 0}
      if p.intBufPos < p.intBufCbLen then writeFill fuel c p else (rc, c, p)

/-- Asking the callback for the next bytes, if all it has supplied so far is out. -/
def askCb (cb : PublishCb) (c : MqttClient) (p : MqttPublish) : Int × MqttClient × MqttPublish :=
  if c.writer.len = 0 then
    let (rc, fill) := cb p.asked
    let p := {p with asked := p.asked + 1, buffer := some fill}
    if rc < 0 then (Code.callback, c, p)
    else
      let remaining := word32Sub p.totalLen p.bufferPos
      (Code.success, c.setLen rc.toNat, {p with intBufCbLen := min (min rc.toNat p.bufferLen) remaining})
  else (Code.success, c, p)

/-- The outer loop of a publish with a callback. -/
def writeCb (cb : PublishCb) : Nat → MqttClient → MqttPublish → Int × MqttClient × MqttPublish
  | 0, c, p => (Code.success, c, p)
  | fuel + 1, c, p =>
    let (rc, c, p) := askCb cb c p
    if rc < 0 then (rc, c, p)
    else
      let (rc, c, p) := writeFill (p.intBufCbLen + 1) c p
      if rc < 0 then (rc, c, p)
      else
        let p := {p with bufferPos := word32 (p.bufferPos + p.intBufPos), intBufPos := 0}
        let c := c.setLen 0
        if p.bufferPos < p.totalLen then writeCb cb fuel c p else (rc, c, p)

/-- The loop of a blocking publish from a buffer. -/
def writeBuffer : Nat → MqttClient → MqttPublish → Int × MqttClient × MqttPublish
  | 0, c, p => (Code.success, c, p)
  | fuel + 1, c, p =>
    let (rc, c) := c.packetWrite c.writer.len
    if rc < 0 then (rc, c, p)
    else
      let p := {p with intBufPos := word32 (p.intBufPos + p.intBufLen), intBufLen := 0}
      if p.intBufPos ≥ p.bufferLen then (Code.success, c, p)
      else
        let len := min (p.bufferLen - p.intBufPos) c.txBufLen
        let p := {p with intBufLen := len}
        writeBuffer fuel ((c.setLen len).fill (((p.buffer.getD []).drop p.intBufPos).take len)) p

/-- The end of a publish from a buffer: what is left is for the next call. -/
def nextChunk (rc : Int) (c : MqttClient) (p : MqttPublish) : Int × MqttClient × MqttPublish :=
  if rc < 0 then (rc, c, p)
  else
    let p := {p with bufferPos := word32 (p.bufferPos + p.intBufPos)}
    if p.bufferPos < p.totalLen then
      (Code.pubContinue, c.setLen (min (p.totalLen - p.bufferPos) c.txBufLen), p)
    else (rc, c, p)

/-- `MqttClient_Publish_WritePayload` -/
def writePayload (c : MqttClient) (p : MqttPublish) : Option PublishCb → Int × MqttClient × MqttPublish
  | some cb => writeCb cb (p.totalLen + 2) c p
  | none =>
    if p.bufferPos < p.totalLen then
      let len := min (p.totalLen - p.bufferPos) c.txBufLen
      let (c, p) :=
        if p.bufferPos > 0 then
          ((c.setLen len).fill (((p.buffer.getD []).drop p.bufferPos).take len),
            if c.nonblock then p else {p with intBufPos := word32 (p.intBufPos + len)})
        else (c, p)
      if c.nonblock then
        let (rc, c) := c.packetWrite c.writer.len
        if rc < 0 then (rc, c, p)
        else
          let p := {p with bufferPos := word32 (p.bufferPos + c.writer.len)}
          if p.bufferPos < p.bufferLen then (Code.pubContinue, c, p) else nextChunk rc c p
      else
        let (rc, c, p) := writeBuffer (p.bufferLen + 1) c p
        nextChunk rc c p
    else (Code.success, c, p)

/-! ### `MqttPublishMsg` -/

/-- How a case of the switch ends. -/
inductive Stage where
  | ret (rc : Int)
  | brk (rc : Int)
  | next
deriving Repr, DecidableEq

/-- The acknowledgement that ends a publish exchange. -/
def publishAckType (qos : QoS) : PacketType := if qos = .qos2 then .publishComp else .publishAck

/-- The checks of a PUBLISH against what the server has announced. -/
def publishAllowed (c : MqttClient) (p : Publish) : Int :=
  if p.qos.toNat > c.maxQos.toNat || (p.retain && !c.retainAvail) then Code.serverProp
  else if c.protocolLevel ≥ level5 then
    match p.props.find? (fun q =>
      (q.type = .topicAlias && (q.dataShort = 0 || q.dataShort > c.topicAliasMax)) || q.type = .subscriptionId) with
    | some q => if q.type = .topicAlias then Code.serverProp else Code.badArg
    | none => Code.success
  else Code.success

/-- `MQTT_MSG_BEGIN` -/
def publishBegin (c : MqttClient) (k : Nat) (cb : Option PublishCb) (p : MqttPublish) :
    Stage × MqttClient × MqttPublish :=
  let (rc, c, stat) := c.writeStart p.stat
  if rc ≠ 0 then (.ret rc, c, {p with stat})
  else
    let (reserved, c, stat) :=
      if c.protocolLevel ≥ level5 ∧ p.qos ≠ .qos0 then c.recvQuotaReserve stat else (true, c, stat)
    if !reserved then
      let (c, stat) := c.writeStop stat
      (.ret Code.serverProp, c, {p with stat})
    else
      let (enc, copied) := encodePublishStaged c.txBufLen p.toPublish cb.isSome
      let c := c.fill enc.out
      if enc.rc ≤ 0 then
        let (c, stat) := c.writeStop stat
        let (c, stat) := c.recvQuotaRelease stat
        (.ret enc.rc, c, {p with stat})
      else
        let p := {p with stat}.staged cb.isSome copied
        -- the whole packet: what is encoded has `intBufLen` bytes of the payload
        if c.packetSzMax > 0 ∧
            (p.totalLen > c.packetSzMax ∨ enc.rc.toNat - p.intBufLen > c.packetSzMax - p.totalLen) then
          let (c, stat) := c.writeStop p.stat
          let (c, stat) := c.recvQuotaRelease stat
          (.ret Code.serverProp, c, {p with stat})
        else
          let c := c.setLen enc.rc.toNat
          let (rc, c) :=
            if p.qos = .qos0 then (Code.success, c)
            else c.sendIdReserve p.packetId (.object k) p.duplicate (publishAckType p.qos)
          if rc ≠ Code.success then
            let (c, stat) := c.writeStop p.stat
            let (c, stat) := c.recvQuotaRelease stat
            (.ret rc, c, {p with stat})
          else
            let c := if p.qos = .qos0 then c else c.replayAdd p
            (.next, c, {p with stat := {p.stat with write := .header}})

/-- `MQTT_MSG_HEADER` -/
def publishHeader (c : MqttClient) (k : Nat) (p : MqttPublish) : Stage × MqttClient × MqttPublish :=
  let xfer := c.writer.len
  let (rc, c) := c.packetWrite xfer
  if c.nonblock ∧ rc = Code.continue then (.ret rc, c, p)
  else
    let wrote := if rc = xfer then xfer else c.writer.pos
    let c := c.setLen 0
    if rc ≠ xfer then
      let (c, stat) := c.writeStop p.stat
      let (c, stat) := c.recvQuotaRelease stat
      let (c, stat) := c.cancelMessage (.object k) stat
      let c :=
        if wrote > 0 then (c.sendIdReserve p.packetId (.object k) true (publishAckType p.qos)).2
        else c.replayRemove p.packetId
      (.ret rc, c, {p with stat})
    else (.next, c, {p with stat := {p.stat with write := .payload}})

/-- `MQTT_MSG_PAYLOAD` -/
def publishPayload (c : MqttClient) (k : Nat) (cb : Option PublishCb) (p : MqttPublish) :
    Stage × MqttClient × MqttPublish :=
  let (rc, c, p) := c.writePayload p cb
  if (c.nonblock ∧ rc = Code.continue) ∨ rc = Code.pubContinue then (.ret rc, c, p)
  else
    let (c, stat) := c.writeStop p.stat
    if rc < 0 then
      let (c, stat) := c.recvQuotaRelease stat
      let (c, stat) := c.cancelMessage (.object k) stat
      let c := (c.sendIdReserve p.packetId (.object k) true (publishAckType p.qos)).2
      (.brk rc, c, {p with stat})
    else if p.qos = .qos0 then (.brk rc, c, {p with stat})
    else (.next, c, {p with stat := {stat with write := .wait}})

/-- The cases of `MqttPublishMsg` that write: `next` is the wait for the acknowledgement. -/
def publishWrite (c : MqttClient) (k : Nat) (cb : Option PublishCb) (p : MqttPublish) :
    Stage × MqttClient × MqttPublish :=
  let header (c : MqttClient) (p : MqttPublish) : Stage × MqttClient × MqttPublish :=
    match c.publishHeader k p with
    | (.next, c, p) => c.publishPayload k cb p
    | done => done
  match p.stat.write with
  | .begin =>
    match c.publishBegin k cb p with
    | (.next, c, p) => header c p
    | done => done
  | .header => header c p
  | .payload => c.publishPayload k cb p
  | .wait => (.next, c, p)
  | _ => (.brk Code.stat, c, p)

/-- The end of `MqttPublishMsg`: the state is reset unless there is more to do. -/
def publishDone (c : MqttClient) (p : MqttPublish) (rc : Int) : Int × MqttClient × MqttPublish :=
  let p :=
    if rc ≠ Code.pubContinue ∧ ¬(c.nonblock ∧ rc = Code.continue) then {p with stat := {p.stat with write := .begin}}
    else p
  (if rc > 0 then Code.success else rc, c, p)

/-- `MqttPublishMsg` as far as its wait for the acknowledgement: what it returns, or `none` when the
whole PUBLISH is out and it goes on to wait. -/
def publishMsgWrite (c : MqttClient) (k : Nat) (cb : Option PublishCb) (p : MqttPublish) :
    Option Int × MqttClient × MqttPublish :=
  if c.checkConnectSent ≠ Code.success then (some c.checkConnectSent, c, p)
  else
    let p := {p with protocolLevel := c.protocolLevel}
    let rc := c.publishAllowed p.toPublish
    if rc ≠ Code.success then (some rc, c, p)
    else
      match c.publishWrite k cb p with
      | (.ret rc, c, p) => (some rc, c, p)
      | (.brk rc, c, p) =>
        let (rc, c, p) := c.publishDone p rc
        (some rc, c, p)
      | (.next, c, p) => (none, c, p)

end MqttClient
end WolfMqtt
