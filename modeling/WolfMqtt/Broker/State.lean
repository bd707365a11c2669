import WolfMqtt.Lib.TailQueue
import WolfMqtt.Packet.Encode
import Mathlib.Algebra.Group.Nat.Defs
import Mathlib.Algebra.Group.Int.Defs

/-! Broker state: the records of `mqtt_broker.h` for the dynamic-memory build.

A record on the heap carries the address it lives at, and a pointer to it is that
address; a linked list is a list from its head. What the broker cannot decide for
itself (the clock, whether an allocation succeeds, what the transport answers to a
write) is scripted in `Env`: a script that has run out allocates, and writes whole
buffers. Two fields are kept for the theorems only and read by no function: `wire`,
the bytes a connection's transport has taken, and `trace`, the CONNACKs and the life of
each queue entry. -/
namespace WolfMqtt.Broker

/-! ### Limits -/

theorem maxOfflineMsgs_lt : 32 < 65535 := by decide

theorem maxQueuedMsgs_lt : 48 < 65535 := by decide

/-- The build's limits, with the bounds its `#error` lines enforce. -/
structure Limits where
  txBufSz : Nat := 4096
  maxInflightPerSub : Nat := 16
  maxOfflineMsgsPerSub : Nat := 32
  maxQueuedMsgsPerSub : Nat := 48
  maxPersistSessions : Nat := 64
  maxInboundQos2 : Nat := 16
  maxSubs : Nat := 32
  maxSubsPerClient : Nat := 8
  maxRetained : Nat := 16
  maxTopicLen : Nat := 128
  maxFilterLen : Nat := 128
  maxPayloadLen : Nat := 4096
  maxWillPayloadLen : Nat := 256
  maxPendingWills : Nat := 4
  maxWillDelaySec : Nat := 3600
  connectTimeoutSec : Nat := 10
  maxUsernameLen : Nat := 64
  maxPasswordLen : Nat := 64
  /-- Was the library built with `WOLFMQTT_NONBLOCK`? -/
  nonblock : Bool := true
  /-- The width of `WOLFMQTT_BROKER_TIME_T`. -/
  timeBits : Nat := 64
  offline_lt : maxOfflineMsgsPerSub < 65535 := by first | exact maxOfflineMsgs_lt | decide
  queued_lt : maxQueuedMsgsPerSub < 65535 := by first | exact maxQueuedMsgs_lt | decide

/-! ### Queue entries and sessions -/

inductive OutPubState where
  | queued
  | publishSent
  | pubrelSent
deriving Repr, DecidableEq

/-- `BrokerOutPub`. An empty `payload` is the NULL pointer. -/
structure OutPub where
  addr : Nat
  topic : Bytes
  payload : Bytes
  qos : QoS
  packetId : Nat
  retain : Bool
  state : OutPubState
  retransmitDup : Bool
  enqTime : Nat
  enqueueSeq : Nat
  expirySec : Nat
  protocolLevel : Nat
  props : List MqttProp
deriving Repr, DecidableEq

instance : Node OutPub := ⟨OutPub.addr⟩

/-- `BrokerOrphanSession`: what is kept of a disconnected persistent session. -/
structure OrphanSession where
  addr : Nat
  clientId : Bytes
  protocolLevel : Nat
  sessionExpirySec : Nat
  orphanSince : Nat
  outQ : TailQueue OutPub
  outQInflight : Int
  qos2Pending : List Nat
  qos2PendingCount : Int
deriving Repr, DecidableEq

/-- `BrokerClient`: one connection. -/
structure BrokerClient where
  addr : Nat
  clientId : Option Bytes := none
  username : Option Bytes := none
  password : Option Bytes := none
  txBuf : Bytes := []
  /-- `client.write.pos` -/
  writePos : Nat := 0
  /-- The bytes the transport has taken on this connection. -/
  wire : Bytes := []
  /-- `sock != BROKER_SOCKET_INVALID` -/
  sockOpen : Bool := true
  protocolLevel : Nat := 0
  keepAliveSec : Nat := 0
  lastRx : Nat := 0
  cleanSession : Bool := false
  connected : Bool := false
  subCount : Int := 0
  hasWill : Bool := false
  willTopic : Option Bytes := none
  willPayload : Bytes := []
  willQos : QoS := .qos0
  willRetain : Bool := false
  willDelaySec : Nat := 0
  qos2Pending : List Nat := []
  qos2PendingCount : Int := 0
  outQ : TailQueue OutPub := {}
  outQInflight : Int := 0
  outQPendingLen : Nat := 0
  directPendingLen : Nat := 0
  clientReceiveMax : Nat := 0
  sessionExpirySec : Nat := 0
  sessionEstablished : Bool := false
  connackPendingLen : Nat := 0
  connackRefused : Bool := false
deriving Repr, DecidableEq

instance : Node OrphanSession := ⟨OrphanSession.addr⟩

instance : Node BrokerClient := ⟨BrokerClient.addr⟩

structure BrokerSub where
  filter : Bytes
  clientId : Option Bytes
  client : Option Nat
  qos : QoS
deriving Repr, DecidableEq

structure RetainedMsg where
  topic : Bytes
  payload : Bytes
  storeTime : Nat
  expirySec : Nat
  qos : QoS
deriving Repr, DecidableEq

structure PendingWill where
  clientId : Bytes
  topic : Bytes
  payload : Bytes
  qos : QoS
  retain : Bool
  publishTime : Nat
deriving Repr, DecidableEq

/-! ### The environment -/

/-- The calls the broker makes into its persistence hooks, with what they store. -/
inductive PersistOp where
  | putSession (clientId : Bytes) (level expirySec : Nat)
  | putOrphanSession (clientId : Bytes) (level expirySec orphanSince : Nat)
  | delSession (clientId : Bytes)
  | putSubs (clientId : Bytes) (subs : List BrokerSub)
  | delSubs (clientId : Bytes)
  | putRetained (msg : RetainedMsg)
  | delRetained (topic : Bytes)
  | putOutPub (clientId : Bytes) (entry : OutPub)
  | delOutPub (clientId : Bytes) (packetId : Nat)
  | delOutQueue (clientId : Bytes)
deriving Repr, DecidableEq

/-- Why an entry left its queue. -/
inductive Cause where
  | puback
  | pubcomp
  /-- A PUBREC that refuses the message, at level 5. -/
  | pubrecError
  | encodeFailure
  /-- QoS 0, written out. -/
  | qos0Sent
  /-- QoS 0, cut off by a write error or by the end of its connection. -/
  | qos0Cut
  | evicted
  /-- Freed with its session. -/
  | sessionEnd
  /-- Freed with a connection whose session lives on in the connection that took it over. -/
  | takenOver
deriving Repr, DecidableEq

/-- What the theorems look at: CONNACKs, and the life of each queue entry. -/
inductive Obs where
  /-- A CONNACK goes to the transport of a connection. -/
  | connack (conn : Nat) (flags returnCode : UInt8)
  | enqueued (entry : Nat)
  /-- The drain encodes a packet at `level` for a connection at `connLevel`. -/
  | encoded (level connLevel : Nat)
  /-- A PUBLISH with QoS above 0 goes to the transport while this many entries of the queue
  are in flight and the window is this wide. -/
  | writing (entry : Nat) (inflight window : Nat)
  /-- The PUBLISH of an entry goes to the transport of a connection, behind these entries of the
  queue. -/
  | sending (conn : Nat) (ahead : List OutPub) (entry : OutPub)
  /-- The last byte of the PUBLISH is out. -/
  | publishSent (entry : Nat)
  /-- A PUBREL goes to the transport. -/
  | pubrelIssued (entry : Nat)
  | left (entry : OutPub) (cause : Cause)
deriving Repr, DecidableEq

structure Env where
  /-- Readings of the clock still to come, then `now` for ever. -/
  clock : List Nat := []
  now : Nat := 0
  /-- Does the next allocation succeed? -/
  allocs : List Bool := []
  /-- What the transport's write callback returns next. -/
  writes : List Int := []
  nextAddr : Nat := 1
  persist : List PersistOp := []
  trace : List Obs := []
deriving Repr, DecidableEq

namespace Env

/-- `WOLFMQTT_BROKER_GET_TIME_S` -/
def getTime (env : Env) : Nat × Env :=
  match env.clock with
  | [] => (env.now, env)
  | t :: rest => (t, {env with clock := rest})

/-- An allocation: the address it returns, unless it fails. -/
def alloc (env : Env) : Option Nat × Env :=
  match env.allocs with
  | [] => (some env.nextAddr, {env with nextAddr := env.nextAddr + 1})
  | ok :: rest =>
    if ok then (some env.nextAddr, {env with nextAddr := env.nextAddr + 1, allocs := rest})
    else (none, {env with allocs := rest})

/-- The transport's answer to a write of `len` bytes. -/
def netWrite (env : Env) (len : Nat) : Int × Env :=
  match env.writes with
  | [] => (len, env)
  | rc :: rest => (rc, {env with writes := rest})

def note (env : Env) (obs : List Obs) : Env := {env with trace := env.trace ++ obs}

def persistOp (env : Env) (op : PersistOp) : Env := {env with persist := env.persist ++ [op]}

end Env

/-! ### The broker -/

structure MqttBroker where
  clients : List BrokerClient := []
  subs : List BrokerSub := []
  retained : List RetainedMsg := []
  retainedCount : Int := 0
  pendingWills : List PendingWill := []
  orphanSessions : List OrphanSession := []
  orphanSessionCount : Int := 0
  orphanLastExpireCheck : Nat := 0
  nextPacketId : Nat := 1
  nextAutoId : Nat := 1
  authUser : Option Bytes := none
  authPass : Option Bytes := none
  env : Env := {}
deriving Repr, DecidableEq

/-- One connection and the environment: what the functions on a `BrokerClient` work on. -/
structure Conn where
  c : BrokerClient
  env : Env
deriving Repr, DecidableEq

abbrev ClientM := StateM Conn
abbrev BrokerM := StateM MqttBroker

namespace MqttBroker

/-- The connection at an address, if it is still in the list. -/
def client? (b : MqttBroker) (a : Nat) : Option BrokerClient := Chain.at? b.clients a

/-- Write to the connection at an address. -/
def updateClient (b : MqttBroker) (a : Nat) (f : BrokerClient → BrokerClient) : MqttBroker :=
  {b with clients := Chain.writeAt a f b.clients}

end MqttBroker

/-- Run a function of a connection on the one at `a`. -/
def onClient {α : Type} (a : Nat) (default : α) (m : ClientM α) : BrokerM α := fun b =>
  match b.client? a with
  | none => (default, b)
  | some c =>
    let r := m ⟨c, b.env⟩
    (r.1, {b.updateClient a (fun _ => r.2.c) with env := r.2.env})

end WolfMqtt.Broker
