import WolfMqtt.Broker.Qos2
import WolfMqtt.Static.Carrier

/-! The static-memory broker around its carriers: CONNECT, deliveries, acknowledgements
and the ends of connections.

What decides that a message goes to a subscription, and what a CONNECT is checked for,
is not repeated here: a run takes deliveries and connections in any order. A function
of the source that looks a carrier up by client id does so here too, at the same
point. Subscriptions and the persistence hooks are left out; they change no carrier. -/
namespace WolfMqtt.Static
open Broker Row

/-! ### Looking up -/

/-- `BrokerStaticOrphan_Find`: the slot of the carrier. -/
def findOrphan (b : StaticBroker) (clientId : Option Bytes) : Option Nat :=
  match clientId with
  | none => none
  | some id => b.orphans.findIdx? (fun s => s.any (fun o => o.clientId = id))

/-- `BrokerClient_FindByClientId` -/
def findByClientId (b : StaticBroker) (clientId : Option Bytes) (exclude : Nat) : Option Nat :=
  match clientId with
  | none => none
  | some id =>
    (List.range b.clients.length).find? (fun j => j ≠ exclude ∧ (b.client? j).any (fun c => c.clientId = some id))

/-- `BrokerStaticOrphan_HasLiveClient` -/
def hasLiveClient (clients : List (Option StaticClient)) (clientId : Bytes) : Bool :=
  clients.any (fun s => s.any (fun c => c.connected && decide (c.clientId = some clientId)))

/-- Change the carrier of a client id, if there is one. -/
def withOrphan (clientId : Option Bytes) (f : Carrier → Carrier) (b : StaticBroker) : StaticBroker :=
  match findOrphan b clientId with
  | none => b
  | some k => {b with orphans := b.orphans.modify k (Option.map f)}

/-- `BrokerStaticOrphan_DropFull` or `BrokerStaticOrphan_Clear`, on the carrier of a client id. -/
def dropOrphan (clientId : Option Bytes) (b : StaticBroker) : StaticBroker :=
  match findOrphan b clientId with
  | none => b
  | some k => b.setOrphan k none

/-! ### Reserving a carrier -/

/-- What a sweep leaves of a slot. -/
def sweepSlot (clients : List (Option StaticClient)) (now : Nat) : Option Carrier → Option Carrier
  | none => none
  | some o =>
    let o := removeExpiredQueued now o
    if isExpired now o && !hasLiveClient clients o.clientId then none else some o

/-- `BrokerStaticOrphan_Sweep`, at the time the clock shows. -/
def sweep (b : StaticBroker) : StaticBroker :=
  let now := b.env.getTime
  {b with orphans := b.orphans.map (sweepSlot b.clients now.1), env := now.2}

/-- A carrier taken up for a connection: `now` is where its expiry interval starts. -/
def adoptCarrier (c : StaticClient) (now : Nat) (o : Carrier) : Carrier :=
  {o with protocolLevel := c.protocolLevel, sessionExpirySec := c.sessionExpirySec, orphanSince := now}

/-- A carrier with nothing in it. -/
def freshCarrier (L : StaticLimits) (clientId : Bytes) : Carrier where
  clientId := clientId.take (L.maxClientIdLen - 1)
  qos2Pending := List.replicate L.maxInboundQos2 0
  outQ := ⟨List.replicate L.maxStaticOfflineMsgsPerSub {}, 0⟩

/-- `BrokerStaticOrphan_Take` for the connection `c`: is there a carrier now? -/
def takeOrphan (L : StaticLimits) (c : StaticClient) (b : StaticBroker) : Bool × StaticBroker :=
  match c.clientId with
  | none => (false, b)
  | some id =>
    let now := b.env.getTime.1
    let b := sweep b
    match findOrphan b (some id) with
    | some k => (true, {b with orphans := b.orphans.modify k (Option.map (fun o => adoptCarrier c now (resetDelivery o)))})
    | none =>
      match b.orphans.findIdx? Option.isNone with
      | none => (false, b)
      | some k => (true, b.setOrphan k (some (adoptCarrier c now (freshCarrier L id))))

/-! ### Inbound identifiers -/

/-- `BrokerInboundQos2_Add`, on the array of a connection: did it take the identifier? -/
def addQos2 (packetId : Nat) (pending : List Nat) : Bool × List Nat :=
  if packetId = 0 then (false, pending)
  else if pending.contains packetId then (true, pending)
  else
    match pending.findIdx? (· = 0) with
    | none => (false, pending)
    | some i => (true, pending.set i packetId)

/-- `BrokerStaticOrphan_SaveInboundQos2` -/
def saveInboundQos2 (c : StaticClient) (o : Carrier) : StaticClient × Carrier :=
  if c.qos2Pending.any (· ≠ 0) then
    ({c with qos2Pending := c.qos2Pending.map (fun _ => 0)}, {o with qos2Pending := c.qos2Pending})
  else (c, o)

/-- The loop of `BrokerStaticOrphan_ReclaimInboundQos2`: the array of the connection, and what
stays in the carrier. -/
def reclaimQos2 (pending : List Nat) : List Nat → List Nat × List Nat
  | [] => (pending, [])
  | id :: rest =>
    let r := if id ≠ 0 then addQos2 id pending else (false, pending)
    let tail := reclaimQos2 r.2 rest
    (tail.1, (if r.1 then 0 else id) :: tail.2)

/-! ### Closing -/

/-- `BrokerStaticClient_Close` -/
def clientClose (i : Nat) (b : StaticBroker) : StaticBroker :=
  match b.client? i with
  | none => b
  | some c =>
    match findOrphan b c.clientId with
    | none => b.setClient i (some (closeSocket c))
    | some k =>
      match b.orphan? k with
      | none => b
      | some o =>
        let s := closeLink {c, o, env := b.env}
        {(b.setClient i (some s.c)).setOrphan k (some s.o) with env := s.env}

/-- Run a function of a connection on the one in slot `i`. -/
def onClient {α : Type} (i : Nat) (default : α) (m : ClientM α) (b : StaticBroker) : α × StaticBroker :=
  match b.client? i with
  | none => (default, b)
  | some c =>
    let r := onConn m c b.env
    (r.1, {b.setClient i (some r.2.1) with env := r.2.2})

/-- `BrokerStaticClient_QuotaClose` -/
def quotaClose (L : StaticLimits) (i : Nat) (b : StaticBroker) : StaticBroker :=
  clientClose i (onClient i 0 (sendDisconnect L.toLimits Reason.quotaExceeded) b).2

/-- `BrokerSubs_OrphanClient`: with no subscription left only an existing carrier is kept. -/
def orphanClient (L : StaticLimits) (hasSubs : Bool) (i : Nat) (b : StaticBroker) : StaticBroker :=
  match b.client? i with
  | none => b
  | some c =>
    if hasSubs then
      let r := takeOrphan L c b
      if r.1 then withOrphan c.clientId (fun o => (saveInboundQos2 c o).2) r.2 else r.2
    else
      let now := b.env.getTime
      match findOrphan b c.clientId with
      | none => b
      | some _ =>
        {withOrphan c.clientId (fun o =>
          {(saveInboundQos2 c (resetDelivery o)).2 with sessionExpirySec := c.sessionExpirySec, orphanSince := now.1}) b
          with env := now.2}

/-- `BrokerSubs_EndClientSession` -/
def endClientSession (i : Nat) (b : StaticBroker) : StaticBroker :=
  match b.client? i with
  | none => b
  | some c => dropOrphan c.clientId b

/-- The session of a connection goes on or ends with it, and the connection is removed. -/
def leave (L : StaticLimits) (hasSubs : Bool) (i : Nat) (b : StaticBroker) : StaticBroker :=
  match b.client? i with
  | none => b
  | some c =>
    (if c.sessionExpirySec = 0 then endClientSession i b else orphanClient L hasSubs i b).setClient i none

/-! ### Sending directly -/

/-- `BrokerStaticOutId_InUse` -/
def outIdInUse (table : List StaticOutId) (packetId : Nat) : Bool := table.any (fun x => x.packetId = packetId)

/-- `BrokerStaticOutId_Release` -/
def outIdRelease (packetId : Nat) (qos : QoS) (table : List StaticOutId) : List StaticOutId :=
  if packetId = 0 then table
  else
    match table.findIdx? (fun x => x.packetId = packetId ∧ x.qos = qos) with
    | none => table
    | some i => table.set i {}

/-- The search of `BrokerStaticOutId_Take`. -/
def scanOutId (table : List StaticOutId) : Nat → Nat → Option Nat
  | 0, _ => none
  | fuel + 1, candidate =>
    if outIdInUse table candidate then scanOutId table fuel (succPacketId candidate) else some candidate

/-- `BrokerStaticOutId_Take`: the identifier, the table with it, and `next_packet_id`. -/
def outIdTake (qos : QoS) (table : List StaticOutId) (next : Nat) : Option (Nat × List StaticOutId × Nat) :=
  match table.findIdx? (fun x => x.packetId = 0) with
  | none => none
  | some i =>
    match scanOutId table 65535 (if next = 0 then 1 else next) with
    | none => none
    | some id => some (id, table.set i ⟨id, qos⟩, succPacketId id)

/-- Where a delivery comes from: `BrokerHandle_Publish`, `BrokerClient_PublishWillImmediate` or
`BrokerRetained_DeliverToClient`. -/
inductive Site where
  | publish
  | will
  | retained
deriving Repr, DecidableEq

/-- What one subscription is sent, at the smaller of the two QoS. -/
structure Delivery where
  site : Site
  topic : Bytes
  payload : Bytes
  qos : QoS
  props : List MqttProp := []
deriving Repr, DecidableEq

/-- The PUBLISH of a direct delivery. -/
def directPublish (d : Delivery) (packetId level : Nat) : Publish where
  topicName := d.topic
  qos := d.qos
  packetId := packetId
  retain := d.site = .retained
  duplicate := false
  buffer := if d.site = .publish ∨ d.payload ≠ [] then some d.payload else none
  totalLen := d.payload.length
  bufferLen := if d.site = .publish then d.payload.length else 0
  protocolLevel := level
  props := if d.site = .publish ∧ level ≥ level5 then d.props else []

/-- What becomes of a direct delivery after its write: a forwarded PUBLISH that is not out closes
its connection; a Will or a retained message that failed only gives its identifier back. -/
def afterDirect (d : Delivery) (packetId : Nat) (len wr : Int) (c : StaticClient) : Bool × StaticClient :=
  if wr = len ∨ (wr = Code.continue ∧ d.site ≠ .publish) then
    (true, {c with unacked := if d.qos = .qos0 then c.unacked else c.unacked ++ [(packetId, d.qos)]})
  else if d.site = .publish then (false, c)
  else (true, {c with outInflight := if d.qos = .qos0 then c.outInflight else outIdRelease packetId d.qos c.outInflight})

/-- Encode and write a direct delivery. Does the connection stay open? -/
def writeDelivery (L : StaticLimits) (d : Delivery) (packetId : Nat) (c : StaticClient) (env : Env) :
    Bool × StaticClient × Env :=
  let enc := onConn (encodeInto (encodePublish L.txBufSz (directPublish d packetId c.protocolLevel))) c env
  if enc.1 ≤ 0 then
    (true, {enc.2.1 with outInflight := outIdRelease packetId d.qos enc.2.1.outInflight}, enc.2.2)
  else
    let wr := onConn (writeDirect L.toLimits enc.1) enc.2.1 enc.2.2
    let zeroed := if wr.1 = Code.continue ∧ d.site ≠ .publish then wr
      else (wr.1, (onConn (zeroTxBuf enc.1.toNat) wr.2.1 wr.2.2).2)
    let after := afterDirect d packetId enc.1 wr.1 zeroed.2.1
    (after.1, after.2, zeroed.2.2)

/-- A direct delivery to the connection in slot `i`; without a free identifier it is skipped. -/
def deliverDirect (L : StaticLimits) (d : Delivery) (i : Nat) (b : StaticBroker) : StaticBroker :=
  match b.client? i with
  | none => b
  | some c =>
    if d.qos = .qos0 then
      let r := writeDelivery L d 0 c b.env
      let b := {b.setClient i (some r.2.1) with env := r.2.2}
      if r.1 then b else clientClose i b
    else
      match outIdTake d.qos c.outInflight b.nextPacketId with
      | none => b
      | some (id, table, next) =>
        let r := writeDelivery L d id {c with outInflight := table} b.env
        let b := {b.setClient i (some r.2.1) with env := r.2.2, nextPacketId := next}
        if r.1 then b else clientClose i b

/-! ### Deliveries -/

/-- `BrokerStaticOrphan_Enqueue` on the carrier in slot `k`; none when it does not return. -/
def enqueueAt (L : StaticLimits) (k : Nat) (m : Message) (b : StaticBroker) : Option StaticBroker :=
  match b.orphan? k with
  | none => some b
  | some o =>
    match enqueue L m {o, next := b.nextPacketId, env := b.env} with
    | none => none
    | some r =>
      some {b.setOrphan k (some r.2.o) with
        nextPacketId := r.2.next, env := r.2.env, notes := b.notes ++ r.2.taken.toList.map (fun p => .queued k m p.1 p.2)}

/-- The message a delivery puts into a carrier. -/
def Delivery.message (d : Delivery) : Message where
  topic := d.topic
  payload := d.payload
  qos := d.qos
  retain := d.site = .retained
  props := d.props

/-- A delivery to a subscription of the connection in slot `i`. A session with a carrier that is
full is closed. -/
def deliverLive (L : StaticLimits) (d : Delivery) (i : Nat) (b : StaticBroker) : Option StaticBroker :=
  match b.client? i with
  | none => some b
  | some c =>
    if !c.connected ∨ c.protocolLevel = 0 then some b
    else
      match (if d.qos = .qos0 then none else findOrphan b c.clientId) with
      | none => some (deliverDirect L d i b)
      | some k =>
        let now := b.env.getTime
        let b := {b with orphans := b.orphans.modify k (Option.map (removeExpiredQueued now.1)), env := now.2}
        if (b.orphan? k).any (fun o => decide (o.outQ.count ≥ (L.maxStaticOfflineMsgsPerSub : Int))) then
          some (quotaClose L i b)
        else enqueueAt L k d.message b

/-- A delivery to a subscription of a session that is not connected. -/
def deliverOffline (L : StaticLimits) (d : Delivery) (clientId : Bytes) (b : StaticBroker) : Option StaticBroker :=
  if d.qos = .qos0 then some b
  else
    match findOrphan b (some clientId) with
    | none => some b
    | some k => enqueueAt L k d.message b

/-- A subscription that a message reaches. -/
inductive Target where
  | live (i : Nat)
  | offline (clientId : Bytes)
deriving Repr, DecidableEq

def deliver (L : StaticLimits) (t : Target) (d : Delivery) (b : StaticBroker) : Option StaticBroker :=
  match t with
  | .live i => deliverLive L d i b
  | .offline id => deliverOffline L d id b

/-- One message after another. -/
def deliverAll (L : StaticLimits) : List (Target × Delivery) → StaticBroker → Option StaticBroker
  | [], b => some b
  | (t, d) :: rest, b =>
    match deliver L t d b with
    | none => none
    | some b => deliverAll L rest b

/-- `BrokerStaticOrphan_Drain` -/
def drain (L : StaticLimits) (i : Nat) (b : StaticBroker) : StaticBroker :=
  match b.client? i with
  | none => b
  | some c =>
    if !c.connected ∨ !c.sockOpen ∨ c.writePos ≠ 0 then b
    else
      match findOrphan b c.clientId with
      | none => b
      | some k =>
        match b.orphan? k with
        | none => b
        | some o =>
          let s := drainLink L {c, o, env := b.env}
          {(b.setClient i (some s.c)).setOrphan k (some s.o) with env := s.env, notes := b.notes ++ s.sent.map (.sent k)}

/-! ### Acknowledgements -/

/-- An acknowledgement ends a delivery: for the table of the connection, and for the theorems. -/
def release (packetId : Nat) (qos : QoS) (c : StaticClient) : StaticClient :=
  {c with outInflight := outIdRelease packetId qos c.outInflight, unacked := c.unacked.erase (packetId, qos)}

/-- `MQTT_PACKET_TYPE_PUBLISH_ACK` in `BrokerClient_Process` -/
def handlePubAck (i packetId : Nat) (b : StaticBroker) : StaticBroker :=
  match b.client? i with
  | none => b
  | some c => withOrphan c.clientId (onPubAck packetId) (b.setClient i (some (release packetId .qos1 c)))

/-- `MQTT_PACKET_TYPE_PUBLISH_COMP` in `BrokerClient_Process` -/
def handlePubComp (i packetId : Nat) (b : StaticBroker) : StaticBroker :=
  match b.client? i with
  | none => b
  | some c => withOrphan c.clientId (onPubComp packetId) (b.setClient i (some (release packetId .qos2 c)))

/-- Did the carrier of a client id know the PUBREC? -/
def tracked (packetId : Nat) (clientId : Option Bytes) (b : StaticBroker) : Bool :=
  match findOrphan b clientId with
  | none => false
  | some k => (b.orphan? k).any (fun o => (onPubRec packetId o).1)

/-- `BrokerHandle_PublishRec` -/
def handlePublishRec (L : StaticLimits) (i packetId : Nat) (reason : UInt8) (b : StaticBroker) : StaticBroker :=
  match b.client? i with
  | none => b
  | some c =>
    if c.protocolLevel ≥ level5 ∧ reason ≥ 0x80 then
      withOrphan c.clientId (onPubReject packetId) (b.setClient i (some (release packetId .qos2 c)))
    else
      let known := tracked packetId c.clientId b
      let b := withOrphan c.clientId (fun o => (onPubRec packetId o).2) b
      let enc := onClient i 0 (encodeInto (encodePublishResp L.txBufSz .publishRel
        {packetId, protocolLevel := c.protocolLevel})) b
      if enc.1 ≤ 0 then enc.2
      else
        let wr := onClient i 0 (writeResp L.toLimits enc.1) enc.2
        if known ∧ wr.1 = enc.1 then withOrphan c.clientId (pubRelWritten packetId) wr.2
        else if known ∧ (wr.2.client? i).any (fun c => c.writePos ≠ 0) then clientClose i wr.2
        else wr.2

/-! ### CONNECT -/

/-- What a CONNECT brings that matters to the sessions. `refused` stands for every check of
`BrokerHandle_Connect` before it reserves a carrier, `oldWill` for the Will of the connection it
takes over, `assignFails` for a CONNACK that has no room for an assigned client id, and `ack` for
the CONNACK itself. -/
structure ConnectReq where
  clientId : Bytes
  protocolLevel : Nat
  cleanSession : Bool
  /-- The Session Expiry Interval at level 5. -/
  sessionExpiry : Option Nat := none
  /-- The Receive Maximum at level 5; a Receive Maximum of 0 is refused. -/
  receiveMax : Option Nat := none
  refused : Bool := false
  oldWill : List (Target × Delivery) := []
  assignFails : Bool := false
  hasSubs : Bool := false
  ack : ConnectAck
deriving Repr, DecidableEq

/-- The session expiry of a CONNECT. -/
def ConnectReq.expirySec (req : ConnectReq) : Nat :=
  if req.protocolLevel ≥ level5 then req.sessionExpiry.getD 0
  else if req.cleanSession then 0 else 0xFFFFFFFF

/-- The connection once the CONNECT has been read. -/
def readConnect (L : StaticLimits) (req : ConnectReq) (c : StaticClient) : StaticClient :=
  {c with
    clientId := storeString L.maxClientIdLen req.clientId
    protocolLevel := req.protocolLevel
    cleanSession := req.cleanSession
    sessionExpirySec := req.expirySec
    clientReceiveMax := if req.protocolLevel ≥ level5 then req.receiveMax.getD 0xFFFF else 0xFFFF}

/-- `BrokerInboundQos2_Takeover`: the identifiers move when the old session survives. -/
def takeoverQos2 (old new : StaticClient) : StaticClient :=
  if oldPersists old.toBrokerClient && old.qos2Pending.any (· ≠ 0) then {new with qos2Pending := old.qos2Pending} else new

/-- The connection in slot `j` is taken over by the one in slot `i`, with the same client id: its
Will or a DISCONNECT, then what its session leaves. -/
def takeover (L : StaticLimits) (req : ConnectReq) (i j : Nat) (new old : StaticClient) (b : StaticBroker) :
    Option StaticBroker :=
  let told := if old.protocolLevel < level5 then deliverAll L req.oldWill b
    else some (onClient j 0 (sendDisconnect L.toLimits Reason.sessionTakenOver) b).2
  match told with
  | none => none
  | some b =>
    let b := if !req.cleanSession ∧ old.sessionExpirySec ≠ 0 then
        withOrphan new.clientId resetDelivery (b.setClient i (some (takeoverQos2 old new)))
      else if old.sessionExpirySec = 0 then dropOrphan new.clientId b
      else b
    some (b.setClient j none)

/-- A session resumed by the connection in slot `i`, from the carrier in slot `k`. -/
def resumeCarrier (i k : Nat) (b : StaticBroker) : StaticBroker :=
  match b.client? i, b.orphan? k with
  | some c, some o =>
    let r := reclaimQos2 c.qos2Pending o.qos2Pending
    (b.setOrphan k (some {o with protocolLevel := c.protocolLevel, qos2Pending := r.2})).setClient i
      (some {c with qos2Pending := r.1})
  | _, _ => b

/-- The session of an accepted CONNECT: Clean Start ends the old one; otherwise it is resumed. -/
def openSession (L : StaticLimits) (req : ConnectReq) (i : Nat) (c : StaticClient) (b : StaticBroker) : StaticBroker :=
  if req.cleanSession then
    let b := dropOrphan c.clientId b
    if c.sessionExpirySec ≠ 0 then (takeOrphan L c b).2 else b
  else
    let b := if (findOrphan b c.clientId).isNone ∧ c.sessionExpirySec ≠ 0 then (takeOrphan L c b).2 else b
    match findOrphan b c.clientId with
    | none => b
    | some k => resumeCarrier i k b

/-- The CONNACK: the connection is up once an acceptance is out, and otherwise ends. -/
def answerConnect (L : StaticLimits) (req : ConnectReq) (i : Nat) (b : StaticBroker) : StaticBroker :=
  match b.client? i with
  | none => b
  | some c =>
    let b := if req.assignFails then b.setClient i (some {c with sessionExpirySec := 0}) else b
    let enc := onClient i 0 (encodeInto (encodeConnectAck L.txBufSz req.ack)) b
    let wr := if enc.1 ≤ 0 then enc else onClient i 0 (packetWrite L.toLimits enc.1.toNat) enc.2
    if req.assignFails ∨ wr.1 ≤ 0 then leave L req.hasSubs i wr.2
    else
      match wr.2.client? i with
      | none => wr.2
      | some c => wr.2.setClient i (some {c with connected := true})

/-- The part of `BrokerHandle_Connect` after its checks, for a CONNECT whose session is reserved. -/
def acceptConnect (L : StaticLimits) (req : ConnectReq) (i : Nat) (c : StaticClient) (b : StaticBroker) :
    Option StaticBroker :=
  let taken := match findByClientId b c.clientId i with
    | none => some b
    | some j =>
      match b.client? j with
      | none => some b
      | some old => takeover L req i j c old b
  match taken with
  | none => none
  | some b => some (answerConnect L req i (openSession L req i c b))

/-- `BrokerHandle_Connect` on the connection in slot `i`, with what `BrokerClient_Process` does about
its result. -/
def handleConnect (L : StaticLimits) (req : ConnectReq) (i : Nat) (b : StaticBroker) : Option StaticBroker :=
  match b.client? i with
  | none => some b
  | some c =>
    if c.connected ∨ !c.sockOpen then some b
    else if req.refused ∨ (req.protocolLevel ≥ level5 ∧ req.receiveMax = some 0) then some ((sweep b).setClient i none)
    else
      let c := readConnect L req c
      let b := (sweep b).setClient i (some c)
      let reserved := if c.sessionExpirySec ≠ 0 then takeOrphan L c b else (true, sweep b)
      if !reserved.1 then some (reserved.2.setClient i none)
      else acceptConnect L req i {c with sessionEstablished := true}
        (reserved.2.setClient i (some {c with sessionEstablished := true}))

/-! ### Runs -/

/-- A connection as `BrokerClient_Add` sets it up. -/
def newClient (L : StaticLimits) (i now : Nat) : StaticClient where
  addr := i
  lastRx := now
  txBuf := List.replicate L.txBufSz 0
  qos2Pending := List.replicate L.maxInboundQos2 0
  outInflight := List.replicate L.maxInflightPerSub {}

/-- `BrokerClient_Add`: a connection in the first free slot. -/
def addClient (L : StaticLimits) (b : StaticBroker) : StaticBroker :=
  match b.clients.findIdx? Option.isNone with
  | none => b
  | some i =>
    let now := b.env.getTime
    {b.setClient i (some (newClient L i now.1)) with env := now.2}

/-- `BrokerClient_AbnormalClose`, with what its Will sends, or the last part of a DISCONNECT, which may
set a new expiry interval. -/
def endConnection (L : StaticLimits) (expirySec : Option Nat) (will : List (Target × Delivery)) (hasSubs : Bool) (i : Nat)
    (b : StaticBroker) : Option StaticBroker :=
  match b.client? i with
  | none => some b
  | some c =>
    match deliverAll L will (b.setClient i (some {c with sessionExpirySec := expirySec.getD c.sessionExpirySec})) with
    | none => none
    | some b => some (leave L hasSubs i b)

/-- What can happen to the sessions and connections of the static-memory broker. -/
inductive Event where
  | accept
  | connect (i : Nat) (req : ConnectReq)
  | deliver (target : Target) (d : Delivery)
  | drain (i : Nat)
  | puback (i packetId : Nat)
  | pubrec (i packetId : Nat) (reason : UInt8)
  | pubcomp (i packetId : Nat)
  | close (i : Nat)
  | leave (i : Nat) (expirySec : Option Nat) (will : List (Target × Delivery)) (hasSubs : Bool)
  | sweep
deriving Repr, DecidableEq

/-- One event; none when the broker does not come back from it. -/
def step (L : StaticLimits) (b : StaticBroker) : Event → Option StaticBroker
  | .accept => some (addClient L b)
  | .connect i req => handleConnect L req i b
  | .deliver t d => deliver L t d b
  | .drain i => some (drain L i b)
  | .puback i id => some (handlePubAck i id b)
  | .pubrec i id reason => some (handlePublishRec L i id reason b)
  | .pubcomp i id => some (handlePubComp i id b)
  | .close i => some (clientClose i b)
  | .leave i expirySec will hasSubs => endConnection L expirySec will hasSubs i b
  | .sweep => some (sweep b)

/-- A run of events from a state. -/
def run (L : StaticLimits) : List Event → StaticBroker → Option StaticBroker
  | [], b => some b
  | ev :: rest, b =>
    match step L b ev with
    | none => none
    | some b => run L rest b

end WolfMqtt.Static
