import WolfMqtt.Broker.Connect
import WolfMqtt.Broker.Subscribe

/-! One connection's turn, and the broker's runs.

`process` is `BrokerClient_Process`: finish what is half written, drain, read one packet,
dispatch it, and look at the clock. A turn ends early wherever the connection is removed.
The broker takes its turns one event at a time; `MqttBroker_Step` is a sequence of
events, so what holds in every state the events reach holds between its parts too. -/
namespace WolfMqtt.Broker

/-! ### Packets -/

/-- A DISCONNECT as `MqttDecode_Disconnect` leaves it. -/
structure InDisconnect where
  reasonCode : UInt8
  props : List MqttProp := []
deriving Repr, DecidableEq

/-- A packet by its type, as its decoder leaves it. -/
inductive InPacket where
  | connect (decoded : Except DecodeError InConnect)
  | publish (decoded : Except DecodeError InPublish)
  | publishAck (decoded : Except DecodeError Nat)
  | publishRec (decoded : Except DecodeError (Nat × UInt8))
  | publishRel (decoded : Except DecodeError Nat)
  | publishComp (decoded : Except DecodeError Nat)
  | subscribe (decoded : Except DecodeError InSubscribe)
  | unsubscribe (decoded : Except DecodeError InUnsubscribe)
  | pingReq (remainLen : Nat)
  | disconnect (remainLen : Nat) (decoded : Except DecodeError InDisconnect)
  /-- A type the broker does not serve. -/
  | unhandled

def InPacket.isConnect : InPacket → Bool
  | connect _ => true
  | _ => false

/-- What reading from the socket gives. -/
inductive Rx where
  /-- Nothing yet. -/
  | nothing
  | failed
  | packet (flagsValid : Bool) (p : InPacket)

/-! ### Teardown -/

/-- The session of a connection that goes: its Session Expiry says whether it is kept. -/
def leaveSession (L : Limits) (a : Nat) : BrokerM Unit := do
  match (← get).client? a with
  | none => return ()
  | some c => if c.sessionExpirySec = 0 then subsEndClientSession a else subsOrphanClient L a

/-- `BrokerClient_AbnormalClose` -/
def abnormalClose (L : Limits) (a : Nat) : BrokerM Unit := do
  publishWill L a
  leaveSession L a
  clientRemove a .sessionEnd

/-- The session of a connection whose CONNECT did not leave it live, if one was established. -/
def leaveConnect (L : Limits) (a : Nat) : BrokerM Unit := do
  match (← get).client? a with
  | none => return ()
  | some c => if c.sessionEstablished then leaveSession L a else subsRemoveClient a

/-- `BrokerClient_EndConnect` -/
def endConnect (L : Limits) (a : Nat) : BrokerM Unit := do
  leaveConnect L a
  clientRemove a .sessionEnd

/-- Drop a connection that has no session. -/
def dropClient (a : Nat) : BrokerM Unit := do
  subsRemoveClient a
  clientRemove a .sessionEnd

/-- `BrokerRcIsFatal` -/
def rcIsFatal (rc : Int) : Bool :=
  [Code.network, Code.malformedData, Code.packetType, Code.packetId, Code.property,
    Code.propertyMismatch, Code.memory, Code.outOfBuffer].contains rc

/-! ### Writes left over from an earlier turn -/

/-- Close a connection whose CONNACK will never be out whole, or was a refusal. -/
def closeConnAck (L : Limits) (a : Nat) (refused : Bool) : BrokerM Unit := do
  modify (·.updateClient a (fun c => {c with connackPendingLen := 0, connackRefused := false}))
  if refused then endConnect L a else abnormalClose L a

/-- `BrokerClient_ResumeConnAck`: CONTINUE while it is pending, success once an accepted CONNACK
is out; otherwise the connection is gone. -/
def resumeConnAck (L : Limits) (a : Nat) : BrokerM Int := do
  match (← get).client? a with
  | none => return Code.badArg
  | some c =>
    let rc ← onClient a Code.badArg (packetWrite L c.connackPendingLen)
    if rc = Code.continue then return rc
    else if rc ≠ c.connackPendingLen then
      closeConnAck L a c.connackRefused
      return (if rc < 0 then rc else Code.network)
    else if c.connackRefused then
      closeConnAck L a true
      return Code.network
    else
      let now ← getTime
      modify (·.updateClient a (fun c => {c with connackPendingLen := 0, lastRx := now}))
      onClient a () (drainResumed L)
      return Code.success

/-- `BrokerClient_ResumeDirect` -/
def resumeDirect (L : Limits) (a : Nat) : BrokerM Int := do
  match (← get).client? a with
  | none => return Code.badArg
  | some c =>
    let rc ← onClient a Code.badArg (writeDirect L c.directPendingLen)
    if rc = Code.continue then return rc
    else
      onClient a () (zeroTxBuf c.directPendingLen)
      if rc ≠ c.directPendingLen then
        abnormalClose L a
        return (if rc < 0 then rc else Code.network)
      else return Code.success

/-! ### The clock -/

/-- A whole 1.5 keep-alives, rounded up. -/
def keepAliveDeadline (keepAliveSec : Nat) : Nat := (keepAliveSec * 3 + 1) / 2

/-- The keep-alive that ran out: a DISCONNECT if the buffer is free, then the end. -/
def keepAliveTimeout (L : Limits) (a : Nat) (c : BrokerClient) : BrokerM Unit := do
  whenDo (c.connackPendingLen = 0 ∧ c.directPendingLen = 0 ∧ c.outQPendingLen = 0) (do
    let _ ← onClient a 0 (sendDisconnect L Reason.keepAliveTimeout))
  abnormalClose L a

/-- The timeouts at the end of a turn. -/
def checkTimeouts (L : Limits) (a : Nat) : BrokerM Unit := do
  match (← get).client? a with
  | none => return ()
  | some c =>
    if c.connackPendingLen ≠ 0 then
      let now ← getTime
      whenDo (now ≥ c.lastRx ∧ now - c.lastRx > L.connectTimeoutSec) (closeConnAck L a c.connackRefused)
    else if c.keepAliveSec > 0 then
      let now ← getTime
      whenDo (now ≥ c.lastRx ∧ now - c.lastRx ≥ keepAliveDeadline c.keepAliveSec) (keepAliveTimeout L a c)
    else if !c.connected then
      let now ← getTime
      whenDo (now ≥ c.lastRx ∧ now - c.lastRx > L.connectTimeoutSec) (dropClient a)
    else return ()

/-! ### Dispatch -/

/-- A handler's result: close on a fatal one. Does the turn go on? -/
def closeIfFatal (L : Limits) (a : Nat) (rc : Int) : BrokerM Bool := do
  if rcIsFatal rc then
    abnormalClose L a
    return false
  else return true

/-- After a CONNECT: the connection is live, refused but still answering, or gone. -/
def afterConnect (L : Limits) (a : Nat) (rc : Int) : BrokerM Bool := do
  match (← get).client? a with
  | none => return false
  | some c =>
    if rc ≤ 0 ∧ c.connackPendingLen = 0 then
      endConnect L a
      return false
    else
      whenDo (!c.connackRefused) (modify (·.updateClient a (fun c => {c with connected := true})))
      return true

/-- A PUBACK or PUBCOMP: its handler, unless it does not decode. -/
def onAck (L : Limits) (a : Nat) (decoded : Except DecodeError Nat) (handler : Nat → ClientM Unit) :
    BrokerM Bool := do
  match decoded with
  | .error e => closeIfFatal L a e.val
  | .ok packetId =>
    onClient a () (handler packetId)
    return true

/-- The Will a v5 DISCONNECT asks for, or discards. -/
def disconnectWill (L : Limits) (a : Nat) (reasonCode : UInt8) : BrokerM Unit := do
  if reasonCode = Reason.disconnectWithWill then publishWill L a
  else modify (·.updateClient a BrokerClient.clearWill)

/-- The Session Expiry and the Will of a v5 DISCONNECT; false when it is a protocol error. -/
def applyDisconnect (L : Limits) (a : Nat) (c : BrokerClient) (d : InDisconnect) : BrokerM Bool := do
  let expiry := (findProp d.props .sessionExpiryInterval).map (·.dataInt)
  if c.sessionExpirySec = 0 ∧ expiry.any (· ≠ 0) then return false
  else
    modify (·.updateClient a (fun c => {c with sessionExpirySec := expiry.getD c.sessionExpirySec}))
    disconnectWill L a d.reasonCode
    return true

/-- A DISCONNECT the broker follows: the session is left as its expiry says, with no Will. -/
def followDisconnect (L : Limits) (a : Nat) : BrokerM Unit := do
  leaveSession L a
  clientRemove a .sessionEnd

/-- DISCONNECT -/
def handleDisconnect (L : Limits) (a : Nat) (remainLen : Nat) (decoded : Except DecodeError InDisconnect) :
    BrokerM Unit := do
  match (← get).client? a with
  | none => return ()
  | some c =>
    if c.protocolLevel < level5 ∧ remainLen ≠ 0 then abnormalClose L a
    else if c.protocolLevel ≥ level5 ∧ remainLen > 0 then
      match decoded with
      | .error _ =>
        modify (·.updateClient a BrokerClient.clearWill)
        followDisconnect L a
      | .ok d =>
        if ← applyDisconnect L a c d then followDisconnect L a else abnormalClose L a
    else
      modify (·.updateClient a BrokerClient.clearWill)
      followDisconnect L a

/-- The `switch` on the packet type; false when the connection is gone. -/
def dispatch (L : Limits) (a : Nat) (p : InPacket) : BrokerM Bool := do
  match p with
  | .connect decoded => afterConnect L a (← handleConnect L a decoded)
  | .publish decoded => closeIfFatal L a (← handlePublish L a decoded)
  | .publishAck decoded => onAck L a decoded (onPubAck L)
  | .publishRec decoded => closeIfFatal L a (← onClient a Code.badArg (handlePublishRec L decoded))
  | .publishRel decoded => closeIfFatal L a (← onClient a Code.badArg (handlePublishRel L decoded))
  | .publishComp decoded => onAck L a decoded (onPubComp L)
  | .subscribe decoded => closeIfFatal L a (← handleSubscribe L a decoded)
  | .unsubscribe decoded => closeIfFatal L a (← handleUnsubscribe L a decoded)
  | .pingReq remainLen =>
    if remainLen ≠ 0 then
      abnormalClose L a
      return false
    else closeIfFatal L a (← onClient a Code.badArg (sendPingResp L))
  | .disconnect remainLen decoded =>
    handleDisconnect L a remainLen decoded
    return false
  | .unhandled =>
    abnormalClose L a
    return false

/-! ### A turn -/

/-- The moment a packet arrives. -/
def stampRx (a : Nat) : BrokerM Unit := do
  let now ← getTime
  modify (·.updateClient a (fun c => {c with lastRx := now}))

/-- A packet has arrived. -/
def receivePacket (L : Limits) (a : Nat) (flagsValid : Bool) (p : InPacket) : BrokerM Unit := do
  stampRx a
  match (← get).client? a with
  | none => return ()
  | some c =>
    if !flagsValid then
      if c.connected then abnormalClose L a else dropClient a
    else if !p.isConnect ∧ !c.connected then dropClient a
    else if p.isConnect ∧ c.connected then abnormalClose L a
    else if ← dispatch L a p then checkTimeouts L a
    else return ()

/-- Read from the socket; a closed one fails. -/
def receive (L : Limits) (a : Nat) (rx : Rx) : BrokerM Unit := do
  match (← get).client? a with
  | none => return ()
  | some c =>
    if !c.sockOpen then abnormalClose L a
    else
      match rx with
      | .nothing => checkTimeouts L a
      | .failed => abnormalClose L a
      | .packet flagsValid p => receivePacket L a flagsValid p

/-- Finish a direct write; does the turn go on? -/
def finishDirect (L : Limits) (a : Nat) : BrokerM Bool := do
  match (← get).client? a with
  | none => return false
  | some c =>
    if c.directPendingLen ≠ 0 then
      let rc ← resumeDirect L a
      whenDo (rc = Code.continue) (checkTimeouts L a)
      return rc = Code.success
    else return true

/-- The CONNACK and the queue come before anything is read; does the turn go on? -/
def finishQueued (L : Limits) (a : Nat) : BrokerM Bool := do
  match (← get).client? a with
  | none => return false
  | some c =>
    if c.connackPendingLen ≠ 0 then
      let rc ← resumeConnAck L a
      whenDo (rc = Code.success ∨ rc = Code.continue) (checkTimeouts L a)
      return false
    else if c.connected ∧ c.outQ.count > 0 then
      let rc ← onClient a 0 (drainOutQueue L)
      if rc = Code.continue then
        checkTimeouts L a
        return false
      else if rc < 0 then
        abnormalClose L a
        return false
      else return true
    else return true

/-- What is written before anything is read; does the turn go on? -/
def finishWrites (L : Limits) (a : Nat) : BrokerM Bool := do
  if ← finishDirect L a then finishQueued L a else return false

/-- `BrokerClient_Process` -/
def process (L : Limits) (a : Nat) (rx : Rx) : BrokerM Unit := do
  if ← finishWrites L a then receive L a rx else return ()

/-! ### Runs -/

/-- The sweep at the head of `MqttBroker_Step`, at most once a second. -/
def sweep : BrokerM Unit := do
  let now ← getTime
  let b ← get
  whenDo (now < b.orphanLastExpireCheck ∨ now - b.orphanLastExpireCheck ≥ 1) (do
    orphanExpireSweep
    modify (fun b => {b with orphanLastExpireCheck := now}))

/-- What the broker does between two looks at its state. -/
inductive Event where
  | sweep
  | accept
  | process (a : Nat) (rx : Rx)
  | pendingWills

/-- What the outside world answers during one event: readings of the clock, which allocations
succeed, and what the transport takes. -/
structure Script where
  clock : List Nat := []
  now : Nat := 0
  allocs : List Bool := []
  writes : List Int := []
deriving Repr, DecidableEq

def Env.arm (env : Env) (s : Script) : Env :=
  {env with clock := s.clock, now := s.now, allocs := s.allocs, writes := s.writes}

/-- The broker's part of an event. -/
def handleEvent (L : Limits) : Event → BrokerM Unit
  | .sweep => sweep
  | .accept => do
    let _ ← clientAdd
  | .process a rx => process L a rx
  | .pendingWills => pendingWillProcess L

/-- One event, with the answers the outside world gives during it. -/
def step (L : Limits) (b : MqttBroker) (e : Event × Script) : MqttBroker :=
  (handleEvent L e.1 {b with env := b.env.arm e.2}).2

/-- A run of the broker. -/
def run (L : Limits) (b : MqttBroker) (es : List (Event × Script)) : MqttBroker :=
  es.foldl (step L) b

/-- A broker before its first event; nothing but its credentials is configured. -/
def initial (authUser authPass : Option Bytes) : MqttBroker := {authUser, authPass}

/-- The states a broker can be in between two events. -/
def Reachable (L : Limits) (b : MqttBroker) : Prop :=
  ∃ authUser authPass es, b = run L (initial authUser authPass) es

end WolfMqtt.Broker
