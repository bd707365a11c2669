import WolfMqtt.Packet.Decode
import WolfMqtt.Static.State

/-! Carriers: the bounded queue of a persistent session in the static-memory build.

An entry is QUEUED until its PUBLISH is written, and leaves the queue when its
acknowledgement arrives. The drain writes what the in-flight window allows to the
connection of the session; a connection that does not take a whole packet is closed. -/
namespace WolfMqtt.Static
open Broker Row

/-! ### Entries -/

/-- `BrokerStaticOrphan_RemoveAt` -/
def removeAt (i : Nat) (o : Carrier) : Carrier := {o with outQ := o.outQ.removeAt {} i}

/-- Has an entry that was never sent outlived its expiry interval? -/
def entryExpired (now : Nat) (e : StaticOutPub) : Bool :=
  !e.wasSent && e.hasExpiry && decide (now ≥ e.enqTime) && decide (now - e.enqTime ≥ e.expirySec)

/-- The loop of `BrokerStaticOrphan_RemoveExpiredQueued` from entry `i` on; a turn either goes
on to the next entry or leaves one entry less. -/
def removeExpiredFrom (now : Nat) (i : Nat) (o : Carrier) : Nat → Carrier
  | 0 => o
  | fuel + 1 =>
    match o.outQ.live[i]? with
    | none => o
    | some e =>
      if e.state = .queued ∧ entryExpired now e then removeExpiredFrom now i (removeAt i o) fuel
      else removeExpiredFrom now (i + 1) o fuel

/-- `BrokerStaticOrphan_RemoveExpiredQueued` -/
def removeExpiredQueued (now : Nat) (o : Carrier) : Carrier := removeExpiredFrom now 0 o o.outQ.count.toNat

/-- An entry after the end of its connection: a PUBLISH without its acknowledgement is sent
again, and of a QoS 2 delivery that has reached PUBREL only the PUBREL is. -/
def resetEntry (e : StaticOutPub) : StaticOutPub :=
  match e.state with
  | .queued => e
  | .publishSent => {e with state := .queued, duplicate := true}
  | .pubrelSent => {e with duplicate := true}

/-- `BrokerStaticOrphan_ResetDelivery` -/
def resetDelivery (o : Carrier) : Carrier :=
  {o with outQ := o.outQ.map resetEntry
          outQInflight := o.outQ.live.countP (fun e => e.state = .pubrelSent)}

/-- `BrokerStaticOrphan_IsExpired` -/
def isExpired (now : Nat) (o : Carrier) : Bool :=
  decide (o.sessionExpirySec ≠ 0xFFFFFFFF) && decide (now ≥ o.orphanSince) &&
    decide (now - o.orphanSince ≥ o.sessionExpirySec)

/-! ### Enqueue -/

/-- `BrokerNextPacketId`, on `next_packet_id`: the identifier, and the one after it. -/
def nextPacketId (next : Nat) : Nat × Nat :=
  let id := if next = 0 then 1 else next
  (id, succPacketId id)

/-- How the search for an identifier ends, with `next_packet_id` then. -/
structure IdSearch where
  /-- The identifier, unless the one asked for is taken. -/
  id : Option Nat
  next : Nat
deriving Repr, DecidableEq

/-- The search loop of `BrokerStaticOrphan_Enqueue`, `fuel` turns of it: none when it is still
searching then. -/
def searchPacketId (live : List StaticOutPub) (packetId : Nat) : Nat → Nat → Option IdSearch
  | 0, _ => none
  | fuel + 1, next =>
    let candidate := if packetId = 0 then nextPacketId next else (packetId, next)
    if live.any (fun e => e.packetId = candidate.1) then
      if packetId ≠ 0 then some ⟨none, candidate.2⟩ else searchPacketId live packetId fuel candidate.2
    else some ⟨some candidate.1, candidate.2⟩

/-- The checks of `BrokerStaticOrphan_Enqueue` on its arguments: the encoded properties, if the
message has the size of an entry. -/
def enqueueProps (L : StaticLimits) (m : Message) : Except Int Bytes :=
  if m.topic.isEmpty || m.qos = .qos0 || decide (m.topic.length ≥ L.maxTopicLen) then .error Code.badArg
  else
    match encodeProps .publish m.props with
    | .error e => .error e
    | .ok props =>
      if props.length + m.payload.length > L.maxStaticOfflineDataLen then .error Code.outOfBuffer
      else if 1 + maxLenBytes + 2 + m.topic.length + 2 + maxLenBytes + props.length + m.payload.length > L.txBufSz then
        .error Code.outOfBuffer
      else .ok props

/-- The entry a message becomes. -/
def newEntry (m : Message) (props : Bytes) (packetId now : Nat) : StaticOutPub where
  topic := m.topic
  data := props ++ m.payload
  payloadLen := m.payload.length
  propLen := props.length
  qos := m.qos
  packetId := packetId
  retain := m.retain
  hasExpiry := (findProp m.props .msgExpiryInterval).isSome
  expirySec := ((findProp m.props .msgExpiryInterval).map (·.dataInt)).getD 0
  enqTime := now

/-- A carrier with what the broker gives out to it: identifiers and the time. `taken` is for the
theorems only: the identifier under which the message is taken, and the time. -/
structure Desk where
  o : Carrier
  next : Nat
  env : Env
  taken : Option (Nat × Nat) := none
deriving Repr, DecidableEq

/-- How many turns of the search see every identifier. -/
def searchTurns : Nat := 65535

/-- `BrokerStaticOrphan_Enqueue`: none when the search for an identifier does not end. -/
def enqueue (L : StaticLimits) (m : Message) (s : Desk) : Option (Int × Desk) :=
  match enqueueProps L m with
  | .error e => some (e, s)
  | .ok props =>
    let now := s.env.getTime
    let o := removeExpiredQueued now.1 s.o
    if o.outQ.count ≥ L.maxStaticOfflineMsgsPerSub then some (Code.outOfBuffer, ⟨o, s.next, now.2, none⟩)
    else
      match searchPacketId o.outQ.live m.packetId searchTurns s.next with
      | none => none
      | some ⟨none, next⟩ => some (Code.packetId, ⟨o, next, now.2, none⟩)
      | some ⟨some id, next⟩ =>
        some (Code.success, ⟨{o with outQ := o.outQ.push (newEntry m props id now.1)}, next, now.2, some (id, now.1)⟩)

/-! ### Acknowledgements -/

/-- `BrokerStaticOrphan_FindPub`: the index of the entry. -/
def findPub (packetId : Nat) (state : OutPubState) (o : Carrier) : Option Nat :=
  o.outQ.live.findIdx? (fun e => e.packetId = packetId ∧ e.state = state)

/-- Take out an entry that was in flight. -/
def complete (i : Nat) (o : Carrier) : Carrier :=
  {removeAt i o with outQInflight := if o.outQInflight > 0 then o.outQInflight - 1 else o.outQInflight}

/-- Complete the entry in PUBLISH_SENT with this identifier, if it has the QoS that the
acknowledgement belongs to. -/
def completeSent (qos : QoS) (packetId : Nat) (o : Carrier) : Carrier :=
  match findPub packetId .publishSent o with
  | none => o
  | some i => if o.outQ.live[i]?.any (fun e => e.qos = qos) then complete i o else o

/-- `BrokerStaticOrphan_OnPubAck` -/
def onPubAck (packetId : Nat) (o : Carrier) : Carrier := completeSent .qos1 packetId o

/-- `BrokerStaticOrphan_OnPubReject` -/
def onPubReject (packetId : Nat) (o : Carrier) : Carrier := completeSent .qos2 packetId o

/-- `BrokerStaticOrphan_OnPubRec`: did an entry move on? -/
def onPubRec (packetId : Nat) (o : Carrier) : Bool × Carrier :=
  match (findPub packetId .publishSent o).or (findPub packetId .pubrelSent o) with
  | none => (false, o)
  | some i =>
    if o.outQ.live[i]?.any (fun e => e.qos = .qos2) then
      (true, {o with outQ := o.outQ.modify i (fun e => {e with state := .pubrelSent, duplicate := true})})
    else (false, o)

/-- `BrokerStaticOrphan_PubRelWritten` -/
def pubRelWritten (packetId : Nat) (o : Carrier) : Carrier :=
  match findPub packetId .pubrelSent o with
  | none => o
  | some i =>
    if o.outQ.live[i]?.any (fun e => e.qos = .qos2) then
      {o with outQ := o.outQ.modify i (fun e => {e with duplicate := false})}
    else o

/-- `BrokerStaticOrphan_OnPubComp` -/
def onPubComp (packetId : Nat) (o : Carrier) : Carrier :=
  match findPub packetId .pubrelSent o with
  | none => o
  | some i => complete i o

/-! ### Close -/

/-- A connection and the carrier of its session. `sent` is for the theorems only: the PUBLISHes that
the drain has written whole. -/
structure Link where
  c : StaticClient
  o : Carrier
  env : Env
  sent : List Sending := []
deriving Repr, DecidableEq

/-- The socket of a connection is closed and its half-written packet forgotten. -/
def closeSocket (c : StaticClient) : StaticClient :=
  {c with sockOpen := false, writePos := 0, connected := false}

/-- `BrokerStaticClient_Close` on a connection whose session has a carrier: the session's expiry
interval starts now. -/
def closeLink (s : Link) : Link :=
  let now := s.env.getTime
  {s with c := closeSocket s.c
          o := {s.o with protocolLevel := s.c.protocolLevel, sessionExpirySec := s.c.sessionExpirySec, orphanSince := now.1}
          env := now.2}

/-! ### The drain -/

/-- Run a function of a connection on the connection of a link. -/
def Link.onConn {α : Type} (m : ClientM α) (s : Link) : α × Link :=
  let r := Static.onConn m s.c s.env
  (r.1, {s with c := r.2.1, env := r.2.2})

/-- One turn of the first loop of `BrokerStaticOrphan_Drain`: the PUBREL of an entry that
reached that stage on an earlier connection. Does the drain go on? -/
def drainPubrel (L : StaticLimits) (i : Nat) (s : Link) : Bool × Link :=
  match s.o.outQ.live[i]? with
  | none => (true, s)
  | some e =>
    if e.state ≠ .pubrelSent ∨ !e.duplicate then (true, s)
    else
      let enc := s.onConn (encodeInto (encodePublishResp L.txBufSz .publishRel
        {packetId := e.packetId, protocolLevel := s.c.protocolLevel}))
      if enc.1 ≤ 0 then
        (false, closeLink (enc.2.onConn (zeroTxBuf L.txBufSz)).2)
      else
        let wr := enc.2.onConn (writeDirect L.toLimits enc.1)
        if wr.1 ≠ enc.1 then (false, closeLink wr.2)
        else
          let s := (wr.2.onConn (zeroTxBuf enc.1.toNat)).2
          (true, {s with o := {s.o with outQ := s.o.outQ.modify i (fun e => {e with duplicate := false})}})

/-- The first loop of `BrokerStaticOrphan_Drain`, over the entries from `i` on. -/
def drainPubrels (L : StaticLimits) (i : Nat) : Nat → Link → Bool × Link
  | 0, s => (true, s)
  | left + 1, s =>
    let r := drainPubrel L i s
    if r.1 then drainPubrels L (i + 1) left r.2 else r

/-- The properties of an entry for its connection, with the expiry interval that is left. -/
def entryProps (level now : Nat) (e : StaticOutPub) : Except Int (List MqttProp) :=
  if level ≥ level5 ∧ e.propLen > 0 then
    match decodeProps .publish maxProps (e.data.take e.propLen) e.propLen with
    | .error rc => .error rc
    | .ok props =>
      .ok (props.map (fun p =>
        if p.type = .msgExpiryInterval then
          if e.wasSent then {p with dataInt := e.expirySec}
          else if now ≥ e.enqTime then {p with dataInt := e.expirySec - (now - e.enqTime)}
          else p
        else p))
  else .ok []

/-- The PUBLISH of an entry. -/
def entryPublish (level : Nat) (props : List MqttProp) (e : StaticOutPub) : Publish where
  topicName := e.topic
  qos := e.qos
  packetId := e.packetId
  retain := e.retain
  duplicate := e.duplicate
  buffer := some (e.data.drop e.propLen)
  totalLen := e.payloadLen
  bufferLen := e.payloadLen
  protocolLevel := level
  props := props

/-- An entry whose PUBLISH is out: a repetition keeps the expiry interval that was sent. -/
def sentEntry (props : List MqttProp) (e : StaticOutPub) : StaticOutPub :=
  {e with state := .publishSent
          expirySec := ((findProp props .msgExpiryInterval).map (·.dataInt)).getD e.expirySec
          wasSent := true
          duplicate := false}

/-- Write the PUBLISH of entry `i`. An entry that does not encode whole is dropped; a connection
that does not take the whole packet is closed. -/
def drainPublish (L : StaticLimits) (i : Nat) (e : StaticOutPub) (now : Nat) (props : List MqttProp) (s : Link) : Bool × Link :=
  let p := entryPublish s.c.protocolLevel props e
  let enc := s.onConn (encodeInto (encodePublish L.txBufSz p))
  if enc.1 ≤ 0 then
    let s := (enc.2.onConn (zeroTxBuf L.txBufSz)).2
    (true, {s with o := removeAt i s.o})
  else if publishBufferPos L.txBufSz p ≠ p.totalLen then
    let s := (enc.2.onConn (zeroTxBuf enc.1.toNat)).2
    (true, {s with o := removeAt i s.o})
  else
    let wr := enc.2.onConn (writeDirect L.toLimits enc.1)
    if wr.1 ≠ enc.1 then
      (false, closeLink {wr.2 with o := {wr.2.o with outQ := wr.2.o.outQ.modify i (fun e => {e with duplicate := true})}})
    else
      let s := (wr.2.onConn (zeroTxBuf enc.1.toNat)).2
      (true, {s with o := {s.o with outQ := s.o.outQ.modify i (sentEntry props), outQInflight := s.o.outQInflight + 1}
                     c := {s.c with unacked := s.c.unacked ++ [(e.packetId, e.qos)]}
                     sent := s.sent ++ [⟨e, p.protocolLevel, now, props⟩]})

/-- The first QUEUED entry, and its index. -/
def firstQueued (o : Carrier) : Option (Nat × StaticOutPub) :=
  match o.outQ.live.findIdx? (fun e => e.state = .queued) with
  | none => none
  | some i => o.outQ.live[i]?.map (fun e => (i, e))

/-- One turn of the second loop of `BrokerStaticOrphan_Drain`, at the first QUEUED entry. -/
def drainTurn (L : StaticLimits) (s : Link) : Bool × Link :=
  match firstQueued s.o with
  | none => (false, s)
  | some (i, e) =>
    let now := s.env.getTime
    let s := {s with env := now.2}
    if entryExpired now.1 e then (true, {s with o := removeAt i s.o})
    else if s.o.outQInflight ≥ (L.maxInflightPerSub : Int) then (false, s)
    else if s.c.clientReceiveMax ≠ 0 ∧ s.o.outQInflight ≥ (s.c.clientReceiveMax : Int) then (false, s)
    else
      match entryProps s.c.protocolLevel now.1 e with
      | .error _ => (true, {s with o := removeAt i s.o})
      | .ok props => drainPublish L i e now.1 props s

/-- The second loop of `BrokerStaticOrphan_Drain`. A turn that goes on leaves one QUEUED entry
less, so as many turns as there are entries do. -/
def drainLoop (L : StaticLimits) : Nat → Link → Link
  | 0, s => s
  | fuel + 1, s =>
    let r := drainTurn L s
    if r.1 then drainLoop L fuel r.2 else r.2

/-- `BrokerStaticOrphan_Drain`, on a connection that can be written to and its carrier. -/
def drainLink (L : StaticLimits) (s : Link) : Link :=
  let r := drainPubrels L 0 s.o.outQ.count.toNat s
  if r.1 then drainLoop L r.2.o.outQ.count.toNat r.2 else r.2

end WolfMqtt.Static
