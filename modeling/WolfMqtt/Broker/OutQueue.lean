import Mathlib.Logic.Function.Iterate
import Mathlib.Data.List.Perm.Subperm
import WolfMqtt.Broker.Write

/-! The outbound queue of a connection: enqueue, drain and the four acknowledgements.

The drain walks the queue from its head and writes what the in-flight window allows.
One turn of its loop is `drainEntry`; it touches the entry it is at, unlinks it or
leaves it, and says whether the loop goes on. -/
namespace WolfMqtt.Broker

/-! ### Packet identifiers -/

/-- `BrokerPacketIdInQueue` -/
def packetIdInQueue (outQ : List OutPub) (packetId : Nat) : Bool :=
  outQ.any (fun e => e.packetId = packetId)

/-- The identifier after `id` in its 16-bit type, skipping zero. -/
def succPacketId (id : Nat) : Nat :=
  if (id + 1) % 65536 = 0 then 1 else (id + 1) % 65536

theorem succPacketId_ne (id : Nat) : succPacketId id ≠ 0 := by
  unfold succPacketId
  split <;> omega

/-- Identifiers come round after 65535 of them. -/
theorem iterate_succPacketId {id : Nat} (h : 0 < id) (hle : id ≤ 65535) (j : Nat) :
    succPacketId^[j] id = (id - 1 + j) % 65535 + 1 := by
  induction j with
  | zero =>
    show id = _
    omega
  | succ j ih =>
    rw [Function.iterate_succ_apply', ih]
    unfold succPacketId
    split <;> omega

/-- No identifier comes up twice before that, wherever the search starts. -/
theorem iterate_succPacketId_inj {id : Nat} (h : id ≠ 0) {i j : Nat} (hi : i < 65535) (hj : j < 65535)
    (heq : succPacketId^[i] id = succPacketId^[j] id) : i = j := by
  by_cases hle : id ≤ 65535
  · rw [iterate_succPacketId (by omega) hle, iterate_succPacketId (by omega) hle] at heq
    omega
  · have hsucc : 0 < succPacketId id ∧ succPacketId id ≤ 65535 := by
      unfold succPacketId
      split <;> omega
    -- the first candidate is out of range, the others are not
    cases i <;> cases j
    · rfl
    · rw [Function.iterate_succ_apply, iterate_succPacketId hsucc.1 hsucc.2, Function.iterate_zero_apply] at heq
      omega
    · rw [Function.iterate_succ_apply, iterate_succPacketId hsucc.1 hsucc.2, Function.iterate_zero_apply] at heq
      omega
    · rw [Function.iterate_succ_apply, Function.iterate_succ_apply, iterate_succPacketId hsucc.1 hsucc.2,
        iterate_succPacketId hsucc.1 hsucc.2] at heq
      omega

/-- A search over all identifiers finds one that a shorter list does not use. -/
theorem exists_succPacketId_notMem {id : Nat} (h : id ≠ 0) (used : List Nat) (hlen : used.length < 65535) :
    ∃ j < 65535, succPacketId^[j] id ∉ used := by
  by_contra hall
  have hnodup : ((List.range 65535).map (fun j => succPacketId^[j] id)).Nodup := by
    refine List.Nodup.map_on (fun i hi j hj => ?_) List.nodup_range
    exact iterate_succPacketId_inj h (List.mem_range.mp hi) (List.mem_range.mp hj)
  have hsub : ((List.range 65535).map (fun j => succPacketId^[j] id)) ⊆ used := by
    intro x hx
    obtain ⟨j, hj, rfl⟩ := List.mem_map.mp hx
    by_contra hnot
    exact hall ⟨j, List.mem_range.mp hj, hnot⟩
  have hle := (hnodup.subperm hsub).length_le
  simp only [List.length_map, List.length_range] at hle
  omega

/-- The search of `BrokerNextPacketIdForQueue`, `fuel` candidates from `candidate` on. -/
def scanPacketId (outQ : List OutPub) : Nat → Nat → Option Nat
  | 0, _ => none
  | fuel + 1, candidate =>
    if packetIdInQueue outQ candidate then scanPacketId outQ fuel (succPacketId candidate)
    else some candidate

/-- `BrokerNextPacketIdForQueue`: zero when every identifier is taken. -/
def nextPacketIdForQueue (outQ : List OutPub) : BrokerM Nat := fun b =>
  let first := if b.nextPacketId = 0 then 1 else b.nextPacketId
  match scanPacketId outQ 65535 first with
  | none => (0, b)
  | some id => (id, {b with nextPacketId := succPacketId id})

/-! ### Entries -/

/-- What `BrokerOutPub_Alloc` copies, and what its callers fill in. `props` is what the clone says; where it has
pointers is `cloneStr`. -/
def newOutPub (a : Nat) (topic payload : Bytes) (props : List MqttProp) (qos : QoS) (packetId : Nat)
    (retain : Bool) (level now seq expiry : Nat) : OutPub where
  addr := a
  topic := topic
  payload := payload
  qos := qos
  packetId := packetId
  retain := retain
  state := .queued
  retransmitDup := false
  enqTime := now
  enqueueSeq := seq
  expirySec := expiry
  protocolLevel := level
  props := props

/-- `BrokerClient_EnqueueOutPub` -/
def enqueueOutPub (e : OutPub) : ClientM Unit := do
  modifyClient (fun c => {c with outQ := c.outQ.enqueue e})
  noteObs [.enqueued e.addr]

/-- `BrokerClient_FreeOutQueue` -/
def freeOutQueue (cause : Cause) : ClientM Unit := do
  let entries ← readClient (·.outQ.chain)
  noteObs (entries.map (Obs.left · cause))
  modifyClient (fun c => {c with outQ := {}, outQInflight := 0, outQPendingLen := 0})

/-- The drain's own unlinking, which leaves the in-flight count alone. -/
def drainUnlink (e : OutPub) (cause : Cause) : ClientM Unit := do
  modifyClient (fun c => {c with outQ := c.outQ.unlink e.addr})
  noteObs [.left e cause]

/-- `BrokerPersist_DelOutPub`, for a connection with a valid client id. -/
def persistDelOutPub (packetId : Nat) : ClientM Unit := do
  match ← readClient (·.clientId) with
  | none => return ()
  | some id => persistOp (.delOutPub id packetId)

/-- Write to an entry of the queue. -/
def updateOutPub (a : Nat) (f : OutPub → OutPub) : ClientM Unit :=
  modifyClient (fun c => {c with outQ := c.outQ.update a f})

/-! ### The drain -/

/-- What a turn of the drain loop decides. -/
inductive DrainStep where
  /-- Leave the loop with this result. -/
  | stop (rc : Int)
  /-- Go on, with the number of completed writes so far. -/
  | next (sent : Int)
deriving Repr, DecidableEq

/-- The result of a write that neither completed nor was deferred. -/
def writeError (rc : Int) : Int := if rc < 0 then rc else Code.network

/-- How many entries of a queue await an acknowledgement. -/
def inflightCount (outQ : List OutPub) : Nat := outQ.countP (fun e => e.state ≠ .queued)

/-- The in-flight window: `min(BROKER_MAX_INFLIGHT_PER_SUB, Receive Maximum)`, where a Receive
Maximum of 0 stands for none given. -/
def window (L : Limits) (receiveMax : Nat) : Nat :=
  if receiveMax = 0 then L.maxInflightPerSub else min L.maxInflightPerSub receiveMax

/-- Note that the drain encodes for this connection, and from which level. -/
def noteEncoded (e : OutPub) : ClientM Unit :=
  modify (fun s => {s with env := s.env.note [.encoded e.protocolLevel s.c.protocolLevel]})

/-- Note that the PUBLISH of an entry goes to the transport. -/
def noteWriting (L : Limits) (e : OutPub) : ClientM Unit := do
  let c ← readClient id
  whenDo (e.qos ≠ .qos0) (noteObs [.writing e.addr (inflightCount c.outQ.chain) (window L c.clientReceiveMax)])

/-- The entries before the one at an address. -/
def aheadOf (outQ : List OutPub) (a : Nat) : List OutPub := outQ.takeWhile (fun x => x.addr ≠ a)

/-- Note which PUBLISH goes to the transport, and what is before it in the queue. -/
def noteSending (e : OutPub) : ClientM Unit :=
  modify (fun s => {s with env := s.env.note [.sending s.c.addr (aheadOf s.c.outQ.chain e.addr) e]})

/-- Send a PUBREL again after a resumption: an entry in PUBREL_SENT with its flag set. -/
def drainPubrel (L : Limits) (e : OutPub) (sent : Int) : ClientM DrainStep := do
  noteEncoded e
  let relRc ← encodeInto (encodePublishResp L.txBufSz .publishRel
    {packetId := e.packetId, protocolLevel := e.protocolLevel})
  if relRc ≤ 0 then return .next sent
  let pending ← readClient (·.outQPendingLen)
  if pending ≠ 0 ∧ (pending : Int) ≠ relRc then return .stop Code.system
  noteObs [.pubrelIssued e.addr]
  let wrRc ← packetWrite L relRc.toNat
  if wrRc = Code.continue then
    modifyClient (fun c => {c with outQPendingLen := relRc.toNat})
    return .stop wrRc
  modifyClient (fun c => {c with outQPendingLen := 0})
  if wrRc ≠ relRc then return .stop (writeError wrRc)
  updateOutPub e.addr (fun x => {x with retransmitDup := false})
  return .next (sent + 1)

/-- The PUBLISH the drain encodes for an entry. -/
def OutPub.toPublish (e : OutPub) : Publish where
  topicName := e.topic
  qos := e.qos
  packetId := e.packetId
  retain := e.retain
  duplicate := e.retransmitDup
  buffer := if e.payload.isEmpty then none else some e.payload
  totalLen := e.payload.length
  bufferLen := 0
  protocolLevel := e.protocolLevel
  props := e.props

/-- `BrokerProps_Clone` copies a string that has a length; of any other there is no pointer. -/
def cloneStr (s : Bytes) : Option Bytes := if s.length > 0 then some s else none

/-- Whether `MqttEncode_Props` has all the pointers of a clone that it asks for. `MqttPacket_TopicNameValid`
refuses a Response Topic without one. -/
def clonePointed (props : List MqttProp) : Bool :=
  props.all (fun p => p.type ≠ .respTopic || (cloneStr p.dataStr).isSome)

/-- `MqttEncode_Publish` of an entry, whose properties are a clone. -/
def OutPub.encode (txLen : Nat) (e : OutPub) : Encoded :=
  match publishVariable e.toPublish with
  | .error rc => .fail rc
  | .ok _ =>
    if e.protocolLevel ≥ level5 && !clonePointed e.props then .fail Code.property
    else encodePublish txLen e.toPublish

/-- An entry that does not encode is dropped, unless its write is already under way. -/
def drainEncodeFailed (e : OutPub) (encRc sent : Int) : ClientM DrainStep := do
  let pending ← readClient (·.outQPendingLen)
  if pending ≠ 0 then return .stop (if encRc < 0 then encRc else Code.system)
  modifyClient (fun c => {c with txBuf := List.replicate c.txBuf.length 0})
  drainUnlink e .encodeFailure
  whenDo (e.qos ≠ .qos0) (persistDelOutPub e.packetId)
  return .next sent

/-- The transport still holds the packet. -/
def drainDeferred (e : OutPub) (encRc : Int) : ClientM DrainStep := do
  modifyClient (fun c => {c with outQPendingLen := encRc.toNat})
  let pos ← readClient (·.writePos)
  whenDo (e.qos ≠ .qos0 ∧ pos > 0) (updateOutPub e.addr (fun x => {x with retransmitDup := true}))
  return .stop Code.continue

/-- The write failed: a packet cut in the middle is a repetition when it is sent again, and
at QoS 0 is not sent again unless the transport merely timed out. -/
def drainFailed (e : OutPub) (wrRc : Int) : ClientM DrainStep := do
  let pos ← readClient (·.writePos)
  whenDo (pos > 0 ∧ e.qos ≠ .qos0) (updateOutPub e.addr (fun x => {x with retransmitDup := true}))
  whenDo (pos > 0 ∧ e.qos = .qos0 ∧ wrRc ≠ Code.timeout) (do
    drainUnlink e .qos0Cut
    modifyClient (fun c => {c with writePos := 0}))
  return .stop (writeError wrRc)

/-- The PUBLISH is out. -/
def drainSent (e : OutPub) (sent : Int) : ClientM DrainStep := do
  noteObs [.publishSent e.addr]
  if e.qos = .qos0 then
    drainUnlink e .qos0Sent
    return .next (sent + 1)
  else
    updateOutPub e.addr (fun x => {x with retransmitDup := false, state := .publishSent})
    modifyClient (fun c => {c with outQInflight := c.outQInflight + 1})
    return .next (sent + 1)

/-- Encode and write one QUEUED entry. -/
def drainPublish (L : Limits) (e : OutPub) (sent : Int) : ClientM DrainStep := do
  noteEncoded e
  let encRc ← encodeInto (e.encode L.txBufSz)
  if encRc ≤ 0 then drainEncodeFailed e encRc sent
  else
    let pending ← readClient (·.outQPendingLen)
    if pending ≠ 0 ∧ (pending : Int) ≠ encRc then return .stop Code.system
    noteWriting L e
    noteSending e
    let wrRc ← packetWrite L encRc.toNat
    if wrRc = Code.continue then drainDeferred e encRc
    else
      modifyClient (fun c => {c with outQPendingLen := 0})
      zeroTxBuf encRc.toNat
      if wrRc ≠ encRc then drainFailed e wrRc else drainSent e sent

/-- One turn of the drain loop. -/
def drainEntry (L : Limits) (cap : Int) (e : OutPub) (sent : Int) : ClientM DrainStep := do
  if e.state ≠ .queued then
    if e.state = .pubrelSent ∧ e.retransmitDup then drainPubrel L e sent
    else return .next sent
  else
    let inflight ← readClient (·.outQInflight)
    if e.qos ≠ .qos0 ∧ inflight ≥ cap then return .stop sent
    drainPublish L e sent

/-- The drain loop over the addresses of what is left of the queue. A turn unlinks no entry
but the one it is at, so each address still has its entry when its turn comes. -/
def drainLoop (L : Limits) (cap : Int) : List Nat → Int → ClientM Int
  | [], sent => return sent
  | a :: rest, sent => do
    match ← readClient (Chain.at? ·.outQ.chain a) with
    | none => drainLoop L cap rest sent
    | some e =>
      match ← drainEntry L cap e sent with
      | .stop rc => return rc
      | .next sent => drainLoop L cap rest sent

/-- The in-flight window: the broker's cap, or the client's Receive Maximum if it is smaller. -/
def effectiveCap (L : Limits) (receiveMax : Nat) : Int :=
  if receiveMax ≠ 0 ∧ receiveMax < L.maxInflightPerSub then receiveMax else L.maxInflightPerSub

/-- `BrokerClient_DrainOutQueue` -/
def drainOutQueue (L : Limits) : ClientM Int := do
  let c ← readClient id
  if c.outQ.chain.isEmpty ∨ c.connackPendingLen ≠ 0 ∨ c.directPendingLen ≠ 0 then return 0
  drainLoop L (effectiveCap L c.clientReceiveMax) (c.outQ.chain.map (·.addr)) 0

/-! ### Acknowledgements -/

/-- `BrokerClient_FindOutPub` -/
def findOutPub (c : BrokerClient) (packetId : Nat) (state : OutPubState) : Option OutPub :=
  if packetId = 0 then none
  else c.outQ.chain.find? (fun e => e.packetId = packetId ∧ e.state = state)

/-- `BrokerClient_UnlinkOutPub`: an entry that was in flight gives its slot back. -/
def unlinkOutPub (e : OutPub) (cause : Cause) : ClientM Unit := do
  modifyClient (fun c => {c with
    outQ := c.outQ.unlink e.addr
    outQInflight :=
      if e.state ≠ .queued ∧ c.outQInflight > 0 then c.outQInflight - 1 else c.outQInflight})
  noteObs [.left e cause]

/-- Unlink an acknowledged entry, forget its stored record, and use the free slot. -/
def completeOutPub (L : Limits) (e : OutPub) (packetId : Nat) (cause : Cause) : ClientM Unit := do
  unlinkOutPub e cause
  persistDelOutPub packetId
  let _ ← drainOutQueue L

/-- `BrokerClient_OnPubAck`: any entry in PUBLISH_SENT with this identifier, whatever its QoS. -/
def onPubAck (L : Limits) (packetId : Nat) : ClientM Unit := do
  match ← readClient (findOutPub · packetId .publishSent) with
  | none => return ()
  | some e => completeOutPub L e packetId .puback

/-- `BrokerClient_OnPubRec`: 1 when a QoS 2 entry moved on, 0 when there is none, -1 when the
entry is not QoS 2. -/
def onPubRec (packetId : Nat) : ClientM Int := do
  match ← readClient (findOutPub · packetId .publishSent) with
  | none => return 0
  | some e =>
    if e.qos ≠ .qos2 then return -1
    updateOutPub e.addr (fun x => {x with state := .pubrelSent})
    return 1

/-- `BrokerClient_OnPubReject`: a v5 PUBREC that refuses the message. -/
def onPubReject (L : Limits) (packetId : Nat) : ClientM Unit := do
  match ← readClient (findOutPub · packetId .publishSent) with
  | none => return ()
  | some e => whenDo (e.qos = .qos2) (completeOutPub L e packetId .pubrecError)

/-- `BrokerClient_OnPubComp` -/
def onPubComp (L : Limits) (packetId : Nat) : ClientM Unit := do
  match ← readClient (findOutPub · packetId .pubrelSent) with
  | none => return ()
  | some e => completeOutPub L e packetId .pubcomp

end WolfMqtt.Broker
