import WolfMqtt.Broker.State

/-! Writing to a connection: `MqttSocket_Write` and the broker's direct responses.

Every packet of a connection goes through one buffer and one offset. `socketWrite`
sends `tx_buf[write.pos .. len)` and resets the offset only when the last byte is out,
so a later call with the same buffer and length finishes the packet, and a call with
anything else continues some other packet at that offset. -/
namespace WolfMqtt.Broker

/-- An `if` without an `else`. -/
def whenDo {σ : Type} (p : Prop) [Decidable p] (m : StateM σ Unit) : StateM σ Unit :=
  if p then m else pure ()

/-- Write to the connection's record. -/
def modifyClient (f : BrokerClient → BrokerClient) : ClientM Unit :=
  modify (fun s => {s with c := f s.c})

/-- Read a value off the connection's record. -/
def readClient {α : Type} (f : BrokerClient → α) : ClientM α := do
  return f (← get).c

def noteObs (obs : List Obs) : ClientM Unit :=
  modify (fun s => {s with env := s.env.note obs})

def persistOp (op : PersistOp) : ClientM Unit :=
  modify (fun s => {s with env := s.env.persistOp op})

/-! ### The buffer -/

/-- Put `out` at the front of the buffer. -/
def overlay (out buf : Bytes) : Bytes := out ++ buf.drop out.length

/-- Run an encoder on the front of `tx_buf`. -/
def encodeInto (e : Encoded) : ClientM Int := do
  modifyClient (fun c => {c with txBuf := overlay e.out c.txBuf})
  return e.rc

/-- `BROKER_FORCE_ZERO(bc->tx_buf, n)` -/
def zeroTxBuf (n : Nat) : ClientM Unit :=
  modifyClient (fun c => {c with txBuf := overlay (List.replicate (min n c.txBuf.length) 0) c.txBuf})

/-! ### The transport -/

/-- One call of the write callback for the bytes from the offset to `len`. A closed socket
answers `MQTT_CODE_ERROR_NETWORK`. What the callback claims beyond the length is clamped. -/
def writeDo (len : Nat) (s : Conn) : Int × Conn :=
  if !s.c.sockOpen then (Code.network, s)
  else
    let r := s.env.netWrite (len - s.c.writePos)
    if r.1 < 0 then (r.1, {s with env := r.2})
    else
      let n := min r.1.toNat (len - s.c.writePos)
      (n, {c := {s.c with writePos := s.c.writePos + n,
                          wire := s.c.wire ++ (s.c.txBuf.drop s.c.writePos).take n},
           env := r.2})

/-- The loop of a blocking `MqttSocket_Write`; every turn takes a byte, so `len` turns do. -/
def writeLoop (len : Nat) : Nat → Conn → Int × Conn
  | 0, s => (0, s)
  | fuel + 1, s =>
    let r := writeDo len s
    if r.1 ≤ 0 then r
    else if r.2.c.writePos < len then writeLoop len fuel r.2
    else r

/-- `MqttSocket_Write` -/
def socketWrite (L : Limits) (len : Nat) : ClientM Int := fun s =>
  if s.c.writePos ≥ len then (Code.outOfBuffer, s)
  else
    let r := if L.nonblock then writeDo len s else writeLoop len len s
    if L.nonblock ∧ 0 ≤ r.1 ∧ r.2.c.writePos < len then (Code.continue, r.2)
    else if r.1 > 0 then (r.2.c.writePos, {r.2 with c := {r.2.c with writePos := 0}})
    else r

/-- `MqttPacket_Write`; the broker never sets a maximum packet size on its side. -/
def packetWrite (L : Limits) (len : Nat) : ClientM Int := socketWrite L len

/-! ### Direct responses -/

/-- `BrokerClient_WriteDirect` -/
def writeDirect (L : Limits) (len : Int) : ClientM Int := do
  if len ≤ 0 then return Code.badArg
  let pending ← readClient (·.directPendingLen)
  if pending ≠ 0 ∧ (pending : Int) ≠ len then return Code.system
  let rc ← packetWrite L len.toNat
  modifyClient (fun c => {c with directPendingLen := if rc = Code.continue then len.toNat else 0})
  return rc

/-- `BrokerClient_WriteResp`: every result that cannot be resumed is a network error. -/
def writeResp (L : Limits) (len : Int) : ClientM Int := do
  let rc ← writeDirect L len
  if rc = len ∨ rc = Code.continue then return rc
  return Code.network

/-- `BrokerSend_PingResp` -/
def sendPingResp (L : Limits) : ClientM Int := do
  let _ ← encodeInto (.done [0xD0, 0])
  writeResp L 2

/-- `MqttPacket_SubAckReturnCodeValid` -/
def subAckReturnCodeValid (code : UInt8) (level : Nat) : Bool :=
  [0x00, 0x01, 0x02, 0x80].contains code ||
    (level ≥ level5 &&
      [Reason.implSpecificErr, Reason.notAuthorized, Reason.topicFilterInvalid, Reason.packetIdInUse,
        Reason.quotaExceeded, Reason.ssNotSupported, Reason.subIdNotSup, Reason.wildcardSubNotSup].contains code)

/-- The packet `BrokerSend_SubAck` builds by hand. -/
def subAckBytes (packetId level : Nat) (codes : List UInt8) : Bytes :=
  let body := encodeNum packetId ++ (if level ≥ level5 then [0] else []) ++ codes
  0x90 :: vbiBytes maxLenBytes body.length ++ body

/-- `BrokerSend_SubAck` -/
def sendSubAck (L : Limits) (packetId : Nat) (codes : List UInt8) : ClientM Int := do
  let level ← readClient (·.protocolLevel)
  if codes.isEmpty then return Code.badArg
  if !codes.all (subAckReturnCodeValid · level) then return Code.malformedData
  if 1 + 4 + (2 + codes.length + if level ≥ level5 then 1 else 0) > L.txBufSz then
    return Code.outOfBuffer
  let pos ← encodeInto (.done (subAckBytes packetId level codes))
  writeResp L pos

/-- `BrokerSend_Disconnect`: nothing below level 5. -/
def sendDisconnect (L : Limits) (reason : UInt8) : ClientM Int := do
  let level ← readClient (·.protocolLevel)
  if level < level5 then return 0
  let rc ← encodeInto (encodeDisconnect L.txBufSz {reasonCode := reason, protocolLevel := level})
  if rc > 0 then writeDirect L rc else return rc

end WolfMqtt.Broker
