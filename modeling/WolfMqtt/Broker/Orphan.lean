import WolfMqtt.Broker.OutQueue

/-! Orphan sessions: what the broker keeps of a disconnected persistent session.

A session moves from a connection to an orphan when the connection ends
(`orphanTake`), grows there while its client is away (`orphanEnqueue`), and moves back
when a CONNECT resumes it (`orphanReclaim`). It ends when its expiry elapses, when the
pool is full and it is the oldest, or when a clean CONNECT discards it. -/
namespace WolfMqtt.Broker

/-- The Session Expiry that never elapses, and the value a CONNECT gets that names none. -/
def neverExpires : Nat := 0xFFFFFFFF

def persistOps (ops : List PersistOp) : BrokerM Unit :=
  modify (fun b => {b with env := {b.env with persist := b.env.persist ++ ops}})

def noteBroker (obs : List Obs) : BrokerM Unit :=
  modify (fun b => {b with env := b.env.note obs})

def getTime : BrokerM Nat := fun b =>
  let r := b.env.getTime
  (r.1, {b with env := r.2})

def alloc : BrokerM (Option Nat) := fun b =>
  let r := b.env.alloc
  (r.1, {b with env := r.2})

/-- `BrokerOrphan_Find` -/
def orphanFind (b : MqttBroker) (clientId : Bytes) : Option OrphanSession :=
  b.orphanSessions.find? (fun o => o.clientId = clientId)

/-- Write to the orphan at an address. -/
def MqttBroker.updateOrphan (b : MqttBroker) (a : Nat) (f : OrphanSession → OrphanSession) : MqttBroker :=
  {b with orphanSessions := Chain.writeAt a f b.orphanSessions}

/-- The orphan at an address. -/
def MqttBroker.orphan? (b : MqttBroker) (a : Nat) : Option OrphanSession := Chain.at? b.orphanSessions a

/-- `BrokerOrphan_Remove`: unlink the slot and free what it still holds. -/
def orphanRemove (o : OrphanSession) : BrokerM Unit := do
  noteBroker (o.outQ.chain.map (Obs.left · .sessionEnd))
  modify (fun b => {b with
    orphanSessions := Chain.removeAt o.addr b.orphanSessions
    orphanSessionCount :=
      if (b.orphan? o.addr).isSome ∧ b.orphanSessionCount > 0
      then b.orphanSessionCount - 1 else b.orphanSessionCount})

/-- `BrokerOrphan_DropFull`: the session is over, with its subscriptions. -/
def orphanDropFull (o : OrphanSession) : BrokerM Unit := do
  persistOps [.delSubs o.clientId, .delSession o.clientId, .delOutQueue o.clientId]
  modify (fun b => {b with
    subs := b.subs.filter (fun s => !(s.client.isNone && s.clientId = some o.clientId))})
  orphanRemove o

/-- The orphan with the smallest `orphan_since`, the first of several. -/
def oldestOrphan : List OrphanSession → Option OrphanSession
  | [] => none
  | o :: rest =>
    match oldestOrphan rest with
    | none => some o
    | some p => if p.orphanSince < o.orphanSince then some p else some o

/-- `BrokerOrphan_EvictOldest`, repeated while the pool is full; every turn drops one. -/
def evictOldest (L : Limits) : Nat → BrokerM Unit
  | 0 => return ()
  | fuel + 1 => do
    let b ← get
    if b.orphanSessionCount ≥ L.maxPersistSessions then
      match oldestOrphan b.orphanSessions with
      | none => return ()
      | some o =>
        orphanDropFull o
        evictOldest L fuel
    else return ()

/-- The QoS 0 entry whose bytes are partly on the wire, if there is one. -/
def partialQos0 (c : BrokerClient) : Option OutPub :=
  if c.writePos > 0 then
    match c.outQ.chain.find? (fun e => e.state = .queued) with
    | some e => if e.qos = .qos0 then some e else none
    | none => none
  else none

/-- A QoS 0 packet cut off by the end of its connection is not part of the session. -/
def dropPartialQos0 : ClientM Unit := do
  match ← readClient partialQos0 with
  | none => return ()
  | some e =>
    drainUnlink e .qos0Cut
    modifyClient (fun c => {c with writePos := 0})

/-- Number the entries from 1 on. -/
def renumber (n : Nat) : List OutPub → List OutPub
  | [] => []
  | e :: rest => {e with enqueueSeq := n} :: renumber (n + 1) rest

/-- The slot a session's state moves into. -/
def newOrphan (a : Nat) (clientId : Bytes) (now : Nat) (c : BrokerClient) : OrphanSession where
  addr := a
  clientId := clientId
  protocolLevel := c.protocolLevel
  sessionExpirySec := c.sessionExpirySec
  orphanSince := now
  outQ := {c.outQ with chain := renumber 1 c.outQ.chain}
  outQInflight := c.outQInflight
  qos2Pending := c.qos2Pending
  qos2PendingCount := c.qos2PendingCount

/-- The connection once its session has moved out. -/
def BrokerClient.handOver (c : BrokerClient) : BrokerClient :=
  {c with outQ := {}, outQInflight := 0, qos2Pending := [], qos2PendingCount := 0}

/-- Drop the orphan that already stands under this client id. -/
def orphanReplace (clientId : Bytes) : BrokerM Unit := do
  match orphanFind (← get) clientId with
  | none => return ()
  | some o =>
    orphanRemove o
    persistOps [.delOutQueue clientId]

/-- Link a slot at the head of the pool and store it. -/
def orphanLink (o : OrphanSession) : BrokerM Unit := do
  modify (fun b => {b with
    orphanSessions := o :: b.orphanSessions
    orphanSessionCount := b.orphanSessionCount + 1})
  persistOps (.putOrphanSession o.clientId o.protocolLevel o.sessionExpirySec o.orphanSince ::
    (o.outQ.chain.filter (fun e => e.qos ≠ .qos0)).map (PersistOp.putOutPub o.clientId ·))

/-- `BrokerOrphan_Take`: move the session of the connection at `a` into a slot. -/
def orphanTake (L : Limits) (a : Nat) : BrokerM Bool := do
  match ((← get).client? a).bind (·.clientId) with
  | none => return false
  | some clientId =>
    orphanReplace clientId
    evictOldest L (← get).orphanSessions.length
    match ← alloc with
    | none => return false
    | some slot =>
      let now ← getTime
      onClient a () dropPartialQos0
      match (← get).client? a with
      | none => return false
      | some c =>
        modify (·.updateClient a BrokerClient.handOver)
        orphanLink (newOrphan slot clientId now c)
        return true

/-- An entry as the resumed session finds it: what was sent goes out again. -/
def OutPub.resume (e : OutPub) : OutPub :=
  match e.state with
  | .queued => e
  | .publishSent => {e with state := .queued, retransmitDup := true}
  | .pubrelSent => {e with retransmitDup := true}

/-- The connection that resumes an orphan: its queue, its QoS 2 identifiers, and its Session
Expiry when the CONNECT left it at the default. -/
def BrokerClient.resume (c : BrokerClient) (o : OrphanSession) : BrokerClient :=
  {c with
    outQ := o.outQ.updateAll OutPub.resume
    outQInflight := o.outQ.chain.countP (fun e => e.state = .pubrelSent)
    sessionExpirySec := if c.sessionExpirySec = neverExpires then o.sessionExpirySec else c.sessionExpirySec
    qos2Pending := o.qos2Pending
    qos2PendingCount := o.qos2PendingCount}

/-- `BrokerOrphan_Reclaim` -/
def orphanReclaim (a : Nat) : BrokerM Bool := do
  match ((← get).client? a).bind (·.clientId) with
  | none => return false
  | some clientId =>
    match orphanFind (← get) clientId with
    | none => return false
    | some o =>
      modify (·.updateClient a (·.resume o))
      orphanRemove {o with outQ := {}, outQInflight := 0, qos2Pending := [], qos2PendingCount := 0}
      return true

/-! ### Enqueueing for a client that is away -/

/-- Drop the head of an orphan's queue. -/
def orphanDropHead (o : OrphanSession) (head : OutPub) : OrphanSession :=
  {o with
    outQ := o.outQ.unlink head.addr
    outQInflight := if head.state ≠ .queued ∧ o.outQInflight > 0 then o.outQInflight - 1 else o.outQInflight}

/-- Drop the head of the queue of the orphan at `a`, and its stored record. -/
def orphanEvictHead (a : Nat) (clientId : Bytes) (head : OutPub) : BrokerM Unit := do
  modify (·.updateOrphan a (orphanDropHead · head))
  noteBroker [.left head .evicted]
  whenDo (head.packetId ≠ 0) (persistOps [.delOutPub clientId head.packetId])

/-- Make room in an orphan's queue, oldest first; every turn drops one entry. -/
def orphanEvict (L : Limits) (a : Nat) : Nat → BrokerM Unit
  | 0 => return ()
  | fuel + 1 => do
    match (← get).orphan? a with
    | none => return ()
    | some o =>
      if o.outQ.count ≥ L.maxOfflineMsgsPerSub then
        match o.outQ.chain with
        | [] => return ()
        | head :: _ =>
          orphanEvictHead a o.clientId head
          orphanEvict L a fuel
      else return ()

/-- The largest value of the 64-bit enqueue sequence. -/
def maxEnqueueSeq : Nat := 0xFFFFFFFFFFFFFFFF

/-- The sequence of the entry the tail pointer is at. -/
def tailSeq (q : TailQueue OutPub) : Nat :=
  match q.tail with
  | none => 0
  | some t => ((Chain.at? q.chain t).map (·.enqueueSeq)).getD 0

/-- `BrokerOrphan_Enqueue`, for the orphan at `a`. -/
def orphanEnqueue (L : Limits) (a : Nat) (topic payload : Bytes) (qos : QoS) (retain : Bool)
    (props : List MqttProp) : BrokerM Unit := do
  match (← get).orphan? a with
  | none => return ()
  | some before =>
    if qos = .qos0 then return ()
    orphanEvict L a before.outQ.chain.length
    match ← alloc, (← get).orphan? a with
    | some slot, some o =>
      let packetId ← nextPacketIdForQueue o.outQ.chain
      if packetId = 0 then return ()
      let now ← getTime
      if tailSeq o.outQ = maxEnqueueSeq then return ()
      let e := newOutPub slot topic payload props qos packetId retain o.protocolLevel now (tailSeq o.outQ + 1) 0
      modify (·.updateOrphan a (fun o => {o with outQ := o.outQ.enqueue e}))
      noteBroker [.enqueued e.addr]
      persistOps [.putOutPub o.clientId e]
    | _, _ => return ()

/-! ### Expiry -/

/-- Has the Session Expiry of an orphan elapsed? -/
def orphanExpired (now : Nat) (o : OrphanSession) : Bool :=
  o.sessionExpirySec ≠ neverExpires && now ≥ o.orphanSince && now - o.orphanSince ≥ o.sessionExpirySec

/-- The rescan of `BrokerOrphan_ExpireSweep`; every turn drops one. -/
def expireLoop (now : Nat) : Nat → BrokerM Unit
  | 0 => return ()
  | fuel + 1 => do
    match (← get).orphanSessions.find? (orphanExpired now) with
    | none => return ()
    | some o =>
      orphanDropFull o
      expireLoop now fuel

/-- `BrokerOrphan_ExpireSweep` -/
def orphanExpireSweep : BrokerM Unit := do
  let now ← getTime
  expireLoop now (← get).orphanSessions.length

end WolfMqtt.Broker
