import WolfMqtt.Broker.Publish

/-! CONNECT.

`BrokerHandle_Connect` works in three parts. Until `session_established` is set it only
checks, and writes to nothing but its own connection (`connectChecks`). Then it takes
over, resumes or discards the session under the client id (`adoptSession`). Last it
answers: a refusal (`refuseConnect`), or the CONNACK that accepts and what was queued
(`acceptConnect`). -/
namespace WolfMqtt.Broker

/-- The Will of a CONNECT. -/
structure InWill where
  topicName : Bytes
  payload : Bytes
  qos : QoS
  retain : Bool
  props : List MqttProp := []
deriving Repr, DecidableEq

/-- A CONNECT as `MqttDecode_Connect` leaves it. -/
structure InConnect where
  protocolLevel : Nat
  cleanSession : Bool
  keepAliveSec : Nat := 0
  clientId : Bytes
  username : Option Bytes := none
  password : Option Bytes := none
  will : Option InWill := none
  props : List MqttProp := []
deriving Repr, DecidableEq

/-! ### Checks -/

/-- `MQTT_CONNECT_ACK_CODE_*`: the return codes below level 5. -/
def ackCodeAccepted : UInt8 := 0
def ackCodeRefusedProto : UInt8 := 1
def ackCodeRefusedId : UInt8 := 2
def ackCodeRefusedUnavail : UInt8 := 3
def ackCodeRefusedBadUserPwd : UInt8 := 4

/-- The return code of a refusal at the level of the CONNECT. -/
def refusalCode (mc : InConnect) (v5 v3 : UInt8) : UInt8 :=
  if mc.protocolLevel ≥ level5 then v5 else v3

/-- An allocation made for a connection. -/
def allocFor : ClientM Bool := fun s =>
  let r := s.env.alloc
  (r.1.isSome, {s with env := r.2})

/-- `BrokerStore_String`: the copy of a string, NULL when the allocation fails. -/
def storeString (str : Bytes) : ClientM (Option Bytes) := do
  if ← allocFor then return some str else return none

/-- "auto-" -/
def autoPrefix : Bytes := [0x61, 0x75, 0x74, 0x6F, 0x2D]

/-- The protocol level, and the client id that was sent. -/
def checkClientId (mc : InConnect) : ClientM (Option UInt8) := do
  if mc.protocolLevel ≠ level4 ∧ mc.protocolLevel ≠ level5 then return some ackCodeRefusedProto
  else if mc.clientId.isEmpty then
    if !mc.cleanSession ∧ mc.protocolLevel < level5 then return some ackCodeRefusedId
    else return none
  else
    let stored ← storeString mc.clientId
    modifyClient (fun c => {c with clientId := stored})
    if stored.isNone then return some (refusalCode mc Reason.serverUnavailable ackCodeRefusedUnavail)
    else if autoPrefix.isPrefixOf mc.clientId then
      return some (refusalCode mc Reason.clientIdNotValid ackCodeRefusedId)
    else return none

/-- The Session Expiry of a CONNECT that names none. -/
def defaultExpiry (mc : InConnect) : Nat :=
  if mc.protocolLevel ≥ level5 then 0
  else if !mc.cleanSession then neverExpires
  else 0

/-- The Session Expiry Interval property, at level 5. -/
def expiryProp (mc : InConnect) : Option Nat :=
  if mc.protocolLevel ≥ level5 then (findProp mc.props .sessionExpiryInterval).map (·.dataInt) else none

/-- The Receive Maximum property, at level 5. -/
def receiveMaxProp (mc : InConnect) : Option Nat :=
  if mc.protocolLevel ≥ level5 then (findProp mc.props .receiveMax).map (·.dataShort) else none

/-- The parameters of the connection, and the protocol errors of its properties. -/
def checkParams (mc : InConnect) : ClientM (Option UInt8) := do
  let s ← get
  let now := s.env.getTime
  set (Conn.mk {s.c with protocolLevel := mc.protocolLevel, keepAliveSec := mc.keepAliveSec, lastRx := now.1,
                         sessionExpirySec := defaultExpiry mc} now.2)
  if receiveMaxProp mc = some 0 then return some Reason.protocolErr
  else if mc.protocolLevel ≥ level5 ∧ (findProp mc.props .authMethod).isSome then
    return some Reason.badAuthMethod
  else
    modifyClient (fun c => {c with
      clientReceiveMax := (receiveMaxProp mc).getD c.clientReceiveMax
      sessionExpirySec := (expiryProp mc).getD c.sessionExpirySec})
    return none

/-- The hexadecimal digit of a nibble. -/
def hexDigit (n : Nat) : UInt8 := UInt8.ofNat (if n < 10 then 0x30 + n else 0x57 + n)

/-- `digits` hexadecimal digits of a number, most significant first. -/
def hexDigits : Nat → Nat → Bytes
  | 0, _ => []
  | digits + 1, n => hexDigits digits (n / 16) ++ [hexDigit (n % 16)]

/-- The client id the broker assigns for a value of its counter. -/
def autoId (n : Nat) : Bytes := autoPrefix ++ hexDigits 8 n

/-- The counter after `n` in its 32-bit type, skipping zero. -/
def succAutoId (n : Nat) : Nat := if (n + 1) % 2 ^ 32 = 0 then 1 else (n + 1) % 2 ^ 32

/-- Assign a client id to a connection that sent none; was one assigned? -/
def assignClientId (a : Nat) (mc : InConnect) : BrokerM (Except UInt8 Bool) := do
  match ((← get).client? a).bind (·.clientId) with
  | some _ => return .ok false
  | none =>
    if mc.clientId.isEmpty then
      let n := (← get).nextAutoId
      modify (fun b => {b with nextAutoId := succAutoId n})
      let stored ← onClient a none (storeString (autoId n))
      modify (·.updateClient a (fun c => {c with clientId := stored}))
      if stored.isNone then return .error (refusalCode mc Reason.serverUnavailable ackCodeRefusedUnavail)
      else return .ok true
    else return .ok false

/-- `BrokerBufCompare`: equal, and short enough to have been compared whole. -/
def bufEqual (cmpLen : Nat) (x y : Bytes) : Bool := x = y && x.length < cmpLen

/-- The credential gate: a broker with either half configured wants both. -/
def credentialsOk (L : Limits) (authUser authPass username password : Option Bytes) : Bool :=
  match authUser, authPass with
  | none, none => true
  | some user, some pass =>
    (username.any (fun u => !u.isEmpty && bufEqual L.maxUsernameLen user u)) &&
      (password.any (fun p => !p.isEmpty && bufEqual L.maxPasswordLen pass p))
  | _, _ => false

/-- Store a credential, when the CONNECT carries it. -/
def storeCredential (given : Option Bytes) (old : Option Bytes) : ClientM (Option Bytes) := do
  match given with
  | none => return old
  | some str => storeString str

/-- The credentials, against what the broker is configured with. -/
def checkCredentials (L : Limits) (authUser authPass : Option Bytes) (mc : InConnect) :
    ClientM (Option UInt8) := do
  let c ← readClient id
  let username ← storeCredential mc.username c.username
  let password ← storeCredential mc.password (c.password.map (fun _ => []))
  modifyClient (fun c => {c with cleanSession := mc.cleanSession, username := username, password := password})
  if credentialsOk L authUser authPass username password then return none
  else return some (refusalCode mc Reason.badUserOrPass ackCodeRefusedBadUserPwd)

/-- A Will whose payload the broker will not keep. -/
def willRefusal (L : Limits) (mc : InConnect) : Option UInt8 :=
  match mc.will with
  | none => none
  | some w =>
    if w.payload.length > L.maxWillPayloadLen then
      some (refusalCode mc Reason.packetTooLarge ackCodeRefusedUnavail)
    else none

/-- Everything before the session is established: the return code of a refusal, or whether a
client id was assigned. -/
def connectChecks (L : Limits) (a : Nat) (mc : InConnect) : BrokerM (Except UInt8 Bool) := do
  match ← onClient a none (checkClientId mc) with
  | some code => return .error code
  | none =>
    match ← onClient a none (checkParams mc) with
    | some code => return .error code
    | none =>
      match ← assignClientId a mc with
      | .error code => return .error code
      | .ok auto =>
        let b ← get
        match ← onClient a none (checkCredentials L b.authUser b.authPass mc) with
        | some code => return .error code
        | none =>
          match willRefusal L mc with
          | some code => return .error code
          | none => return .ok auto

/-! ### The session -/

/-- `BrokerInboundQos2_Takeover`, on the connections at two addresses. -/
def qos2TakeoverAt (a old : Nat) : BrokerM Bool := fun b =>
  match b.client? a, b.client? old with
  | some new, some c =>
    let r := qos2Takeover new c
    (r.1, (b.updateClient a (fun _ => r.2.1)).updateClient old (fun _ => r.2.2))
  | _, _ => (false, b)

/-- Carry the subscriptions and the QoS 2 identifiers of a surviving session over from the
connection at `old` to the one at `a`; was there any session state? -/
def carryOver (survives : Bool) (a old : Nat) (clientId : Bytes) : BrokerM Bool := do
  if survives then
    let subs ← subsReassociateClient clientId a
    let qos2 ← qos2TakeoverAt a old
    return subs > 0 || qos2
  else return false

/-- The Will of a connection that is taken over: published below level 5, discarded with a
DISCONNECT from level 5 on. -/
def closeTakenOver (L : Limits) (old : BrokerClient) : BrokerM Unit := do
  if old.protocolLevel < level5 then publishWill L old.addr
  else
    let _ ← onClient old.addr 0 (sendDisconnect L Reason.sessionTakenOver)
    modify (·.updateClient old.addr BrokerClient.clearWill)

/-- Does the session of a connection that is taken over live on: it outlives its connection,
and the CONNECT does not start clean? -/
def survivesTakeover (mc : InConnect) (old : BrokerClient) : Bool :=
  !mc.cleanSession && old.sessionExpirySec ≠ 0

/-- Take the client id over from another connection. -/
def takeover (L : Limits) (a : Nat) (mc : InConnect) (clientId : Bytes) (old : BrokerClient) :
    BrokerM Bool := do
  closeTakenOver L old
  let present ← carryOver (survivesTakeover mc old) a old.addr clientId
  subsRemoveClient old.addr
  clientRemove old.addr (if survivesTakeover mc old then .takenOver else .sessionEnd)
  return present

/-- The subscriptions a CONNECT that does not start clean finds without a connection to take
over. -/
def reassociate (a : Nat) (mc : InConnect) (clientId : Bytes) : BrokerM Bool := do
  if mc.cleanSession then return false
  else return (← subsReassociateClient clientId a) > 0

/-- Find the session under the client id: with another connection, or among the subscriptions. -/
def claimSession (L : Limits) (a : Nat) (mc : InConnect) (clientId : Bytes) : BrokerM Bool := do
  match findByClientId (← get) clientId a with
  | some old => takeover L a mc clientId old
  | none => reassociate a mc clientId

/-- A clean start discards whatever stands under the client id. -/
def discardSession (clientId : Bytes) : BrokerM Unit := do
  subsRemoveByClientId clientId
  match orphanFind (← get) clientId with
  | none => return ()
  | some o => orphanRemove o

/-- What an accepted CONNECT does to the session under its client id; is a session present? -/
def adoptSession (L : Limits) (a : Nat) (mc : InConnect) (clientId : Bytes) : BrokerM Bool := do
  pendingWillCancel clientId
  let carried ← claimSession L a mc clientId
  if mc.cleanSession then
    discardSession clientId
    persistOps [.delSubs clientId, .delSession clientId, .delOutQueue clientId]
    return carried
  else
    let reclaimed ← orphanReclaim a
    return reclaimed || carried

/-! ### The Will -/

/-- The Will Delay Interval, clamped. -/
def willDelay (L : Limits) (w : InWill) : Nat :=
  match findProp w.props .willDelayInterval with
  | none => 0
  | some p => if p.dataInt > L.maxWillDelaySec then L.maxWillDelaySec else p.dataInt

/-- `BrokerStore_String`, of a string that may be empty. -/
def storeNonempty (str : Bytes) : ClientM (Option Bytes) := do
  if str.isEmpty then return none else storeString str

/-- Store the Will of a CONNECT. -/
def storeWill (L : Limits) (mc : InConnect) : ClientM Unit := do
  modifyClient BrokerClient.clearWill
  match mc.will with
  | none => return ()
  | some w =>
    let topic ← storeNonempty w.topicName
    let payload ← storeNonempty w.payload
    modifyClient (fun c => {c with willTopic := topic, willPayload := payload.getD [], willQos := w.qos,
                                   willRetain := w.retain, willDelaySec := willDelay L w, hasWill := true})

/-! ### The answer -/

/-- `MqttProps_Add` and the assignment that follows it; a pool with no room adds nothing. -/
def addProp (p : MqttProp) (props : List MqttProp) : ClientM (List MqttProp) := do
  if ← allocFor then return props ++ [p] else return props

/-- What the broker says about itself in a CONNACK. -/
def featureProps (L : Limits) (props : List MqttProp) : ClientM (List MqttProp) := do
  let props ← addProp {type := .retainAvail, dataByte := 1} props
  let props ← addProp {type := .wildcardSubAvail, dataByte := 1} props
  if L.maxInboundQos2 > 0 then addProp {type := .receiveMax, dataShort := min L.maxInboundQos2 0xFFFF} props
  else return props

/-- The properties of the CONNACK that accepts; `none` when the assigned client id finds no
room. -/
def connackProps (L : Limits) (auto : Bool) : ClientM (Option (List MqttProp)) := do
  let c ← readClient id
  if c.protocolLevel < level5 then return some []
  else if auto then
    if ← allocFor then
      return some (← featureProps L [{type := .assignedClientId, dataStr := c.clientId.getD []}])
    else return none
  else return some (← featureProps L [])

/-- Encode and write a CONNACK, and remember what the transport has not taken. -/
def sendConnAck (L : Limits) (ack : ConnectAck) : ClientM Int := do
  let rc ← encodeInto (encodeConnectAck L.txBufSz ack)
  if rc > 0 then
    modify (fun s => {s with env := s.env.note [.connack s.c.addr ack.flags ack.returnCode]})
    let wrRc ← packetWrite L rc.toNat
    whenDo (wrRc = Code.continue) (modifyClient (fun c => {c with
      connackPendingLen := rc.toNat
      connackRefused := c.connackRefused || ack.returnCode ≠ ackCodeAccepted}))
    return wrRc
  else return rc

/-- Answer with a refusal; an unsupported level is answered at level 4. -/
def refuseConnect (L : Limits) (mc : InConnect) (code : UInt8) : ClientM Int := do
  let level := if mc.protocolLevel = level5 then level5 else level4
  let _ ← sendConnAck L {flags := 0, returnCode := code, protocolLevel := level}
  return 0

/-- Store the session of an accepted CONNECT, or remove what an earlier one left. -/
def persistConnect (a : Nat) (present : Bool) : BrokerM Unit := do
  match (← get).client? a with
  | none => return ()
  | some c =>
    match c.clientId with
    | none => return ()
    | some id =>
      if c.sessionExpirySec ≠ 0 then
        persistOps ((if present then [] else [.delOutQueue id, .delSubs id]) ++
          [.putSession id c.protocolLevel c.sessionExpirySec])
      else persistOps [.delSubs id, .delSession id, .delOutQueue id]

/-- Send what a resumed session has queued. -/
def drainResumed (L : Limits) : ClientM Unit := do
  let c ← readClient id
  whenDo (c.outQ.count > 0) (do
    let _ ← drainOutQueue L)

/-- The credentials are not kept past the CONNECT. -/
def BrokerClient.scrub (c : BrokerClient) : BrokerClient :=
  {c with username := c.username.map (fun _ => []), password := c.password.map (fun _ => [])}

/-- Answer an accepted CONNECT. -/
def acceptConnect (L : Limits) (a : Nat) (mc : InConnect) (auto present : Bool) : BrokerM Int := do
  match ← onClient a none (connackProps L auto) with
  | none =>
    -- the client could never learn its id, so the session it would leave behind goes with it
    modify (·.updateClient a (fun c => {c with sessionExpirySec := 0}))
    onClient a 0 (refuseConnect L mc Reason.serverUnavailable)
  | some props =>
    let rc ← onClient a Code.badArg (sendConnAck L
      {flags := if present then 1 else 0, returnCode := ackCodeAccepted, protocolLevel := mc.protocolLevel,
       props := props})
    persistConnect a present
    onClient a () (drainResumed L)
    modify (·.updateClient a BrokerClient.scrub)
    return rc

/-- The session under the client id of the connection at `a`. -/
def adoptOwnSession (L : Limits) (a : Nat) (mc : InConnect) : BrokerM Bool := do
  match ((← get).client? a).bind (·.clientId) with
  | none => return false
  | some clientId => adoptSession L a mc clientId

/-- From the moment the session is established. -/
def establishSession (L : Limits) (a : Nat) (mc : InConnect) (auto : Bool) : BrokerM Int := do
  modify (·.updateClient a (fun c => {c with sessionEstablished := true}))
  let present ← adoptOwnSession L a mc
  onClient a () (storeWill L mc)
  acceptConnect L a mc auto present

/-- `BrokerHandle_Connect`: positive once accepted and written, 0 when refused. A packet that
decodes has a positive length, so the test of the decoder's result always passes. -/
def handleConnect (L : Limits) (a : Nat) (decoded : Except DecodeError InConnect) : BrokerM Int := do
  match decoded with
  | .error e => return e.val
  | .ok mc =>
    match ← connectChecks L a mc with
    | .error code => onClient a 0 (refuseConnect L mc code)
    | .ok auto => establishSession L a mc auto

end WolfMqtt.Broker
