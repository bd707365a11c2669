import WolfMqtt.Broker.Orphan

/-! Subscriptions and the list of connections.

A subscription points at the connection that owns it, or at nothing while its session
is an orphan; then the stored client id says whose it is. -/
namespace WolfMqtt.Broker

/-! ### Topic matching -/

/-- The loop of `BrokerTopicMatch`: what is left of the filter and of the topic. -/
def topicMatchLoop : Bytes → Bytes → Bool
  | [], topic => topic.isEmpty
  | f :: rest, [] => if f = 0x23 then rest.isEmpty else f = 0x2B && rest.isEmpty
  | f :: rest, t :: ts =>
    if f = 0x23 then rest.isEmpty
    else if f ≠ 0x2B ∧ f ≠ t then false
    else
      let topic := if f = 0x2B then (t :: ts).dropWhile (· ≠ 0x2F) else ts
      match rest with
      | [] => topic.isEmpty
      | g :: gs =>
        if g = 0x2F then
          match topic with
          | 0x2F :: tail => topicMatchLoop gs tail
          | _ => gs = [0x23] && topic.isEmpty
        else if topic.head? = some 0x2F then false
        else topicMatchLoop (g :: gs) topic

/-- `BrokerTopicMatch`: a leading wildcard does not reach topics that start with `$`. -/
def topicMatch (filter topic : Bytes) : Bool :=
  if topic.head? = some 0x24 ∧ (filter.head? = some 0x2B ∨ filter.head? = some 0x23) then false
  else topicMatchLoop filter topic

/-! ### The list of connections -/

/-- `BrokerClient_Add`: a new connection stands at the head of the list. -/
def clientAdd : BrokerM (Option Nat) := do
  match ← alloc with
  | none => return none
  | some a =>
    let now ← getTime
    modify (fun b => {b with clients := {addr := a, lastRx := now} :: b.clients})
    return some a

/-- `BrokerClient_Remove`: unlink the connection and free what it holds. -/
def clientRemove (a : Nat) (cause : Cause) : BrokerM Unit := do
  onClient a () (freeOutQueue cause)
  modify (fun b => {b with clients := Chain.removeAt a b.clients})

/-- `BrokerClient_FindByClientId`: the first connection other than `exclude` that carries the
id, whether its session is established or not. -/
def findByClientId (b : MqttBroker) (clientId : Bytes) (exclude : Nat) : Option BrokerClient :=
  if clientId.isEmpty then none
  else b.clients.find? (fun c => c.addr ≠ exclude ∧ c.clientId = some clientId)

/-! ### Owning subscriptions -/

/-- Does this subscription belong to the session under `clientId`: through the connection it
points at, or through its stored id while it points at none? -/
def subOwnedBy (b : MqttBroker) (clientId : Bytes) (s : BrokerSub) : Bool :=
  match s.client with
  | none => s.clientId = some clientId
  | some a => (b.client? a).bind (·.clientId) = some clientId

/-- `BrokerSubs_RemoveByClientId` -/
def subsRemoveByClientId (clientId : Bytes) : BrokerM Unit :=
  modify (fun b =>
    if clientId.isEmpty then b
    else {b with subs := b.subs.filter (fun s => !subOwnedBy b clientId s)})

/-- `BrokerSubs_ReassociateClient`: how many subscriptions now point at `a`. -/
def subsReassociateClient (clientId : Bytes) (a : Nat) : BrokerM Nat := fun b =>
  if clientId.isEmpty then (0, b)
  else
    let count := b.subs.countP (subOwnedBy b clientId)
    (count,
      {b.updateClient a (fun c => {c with subCount := c.subCount + count}) with
        subs := b.subs.map (fun s => if subOwnedBy b clientId s then {s with client := some a} else s)})

/-- `BrokerSubs_RemoveClient`: the subscriptions that point at `a` are gone. -/
def subsRemoveClient (a : Nat) : BrokerM Unit := do
  modify (fun b =>
    {b.updateClient a (fun c => {c with subCount := 0}) with
      subs := b.subs.filter (fun s => s.client ≠ some a)})
  match (← get).client? a with
  | none => return ()
  | some c =>
    match c.clientId with
    | none => return ()
    | some id =>
      whenDo (c.sessionEstablished ∧ c.sessionExpirySec = 0)
        (persistOps [.delSubs id, .delSession id, .delOutQueue id])

/-- `BrokerSubs_EndClientSession`: the session ends, and with it any orphan under its id. -/
def subsEndClientSession (a : Nat) : BrokerM Unit := do
  subsRemoveClient a
  match ((← get).client? a).bind (·.clientId) with
  | none => return ()
  | some clientId =>
    match orphanFind (← get) clientId with
    | none => return ()
    | some o => orphanDropFull o

/-- `BrokerSubs_OrphanClient`: the session outlives its connection; if no slot can be had, its
subscriptions go. -/
def subsOrphanClient (L : Limits) (a : Nat) : BrokerM Unit := do
  if ← orphanTake L a then
    modify (fun b => {b with
      subs := b.subs.map (fun s => if s.client = some a then {s with client := none} else s)})
  else subsRemoveClient a

/-! ### Adding and removing one -/

/-- `BrokerSubs_Add`: 1 for a new entry, 0 for a new QoS on an old one. -/
def subsAdd (L : Limits) (a : Nat) (filter : Bytes) (qos : QoS) : BrokerM Int := do
  let b ← get
  if b.subs.any (fun s => s.client = some a ∧ s.filter = filter) then
    modify (fun b => {b with
      subs := b.subs.replaceF (fun s => if s.client = some a ∧ s.filter = filter then some {s with qos := qos} else none)})
    return Code.success
  else
    match b.client? a with
    | none => return Code.badArg
    | some c =>
      if c.subCount ≥ L.maxSubsPerClient then return Code.memory
      match ← alloc with
      | none => return Code.memory
      | some _ =>
        modify (fun b =>
          {b.updateClient a (fun c => {c with subCount := c.subCount + 1}) with
            subs := {filter := filter, clientId := c.clientId, client := some a, qos := qos} :: b.subs})
        return 1

/-- `BrokerSubs_Remove` -/
def subsRemove (a : Nat) (filter : Bytes) : BrokerM Unit :=
  modify (fun b =>
    if b.subs.any (fun s => s.client = some a ∧ s.filter = filter) then
      {b.updateClient a (fun c => {c with subCount := if c.subCount > 0 then c.subCount - 1 else c.subCount}) with
        subs := b.subs.eraseP (fun s => s.client = some a ∧ s.filter = filter)}
    else b)

/-! ### Fan-out -/

/-- `BrokerFanoutTarget`: a destination, and the QoS already narrowed to its grant. -/
structure FanoutTarget where
  client : Nat
  qos : QoS
deriving Repr, DecidableEq

/-- `BrokerFanoutList`: it grows by allocation past its first sixteen places. -/
structure FanoutList where
  items : List FanoutTarget := []
  cap : Nat := 16
  truncated : Bool := false
deriving Repr, DecidableEq

/-- `BrokerFanout_Add` -/
def fanoutAdd (fl : FanoutList) (t : FanoutTarget) : BrokerM FanoutList := do
  if fl.truncated then return fl
  if fl.items.length = fl.cap then
    match ← alloc with
    | none => return {fl with truncated := true}
    | some _ => return {fl with items := fl.items ++ [t], cap := fl.cap * 2}
  else return {fl with items := fl.items ++ [t]}

/-- Append a copy of a message to the queue of the connection at `a`. -/
def enqueueFor (a : Nat) (topic payload : Bytes) (props : List MqttProp) (qos : QoS) (retain : Bool) :
    BrokerM Int := do
  match ← alloc with
  | none => return Code.memory
  | some slot =>
    match (← get).client? a with
    | none => return Code.badArg
    | some c =>
      if qos = .qos0 then
        onClient a () (enqueueOutPub (newOutPub slot topic payload props qos 0 retain c.protocolLevel 0 0 0))
        return Code.success
      else
        let packetId ← nextPacketIdForQueue c.outQ.chain
        if packetId = 0 then return Code.packetId
        onClient a () (enqueueOutPub (newOutPub slot topic payload props qos packetId retain c.protocolLevel 0 0 0))
        return Code.success

/-- A subscriber whose queue is full is told so, and its socket closed. -/
def quotaDisconnect (L : Limits) : ClientM Unit := do
  let _ ← sendDisconnect L Reason.quotaExceeded
  modifyClient (fun c => {c with sockOpen := false, connected := false})

end WolfMqtt.Broker
