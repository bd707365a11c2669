import WolfMqtt.Lib.Row
import WolfMqtt.Broker.OutQueue

/-! Broker state of the static-memory build.

Connections and carriers live in arrays of slots; a slot is empty while its `in_use`
is 0. A carrier holds the QoS 1 and 2 messages of a persistent session, also while the
session is connected. A session without a carrier is sent its messages directly, and
only their packet identifiers are kept, in `outInflight` of the connection. -/
namespace WolfMqtt.Static
open Broker Row

/-- The limits of the static-memory build. Every entry of a carrier needs an identifier of its
own, and there are 65535. -/
structure StaticLimits extends Limits where
  maxClients : Nat := 8
  maxStaticOrphanSessions : Nat := 8
  maxStaticOfflineMsgsPerSub : Nat := 8
  maxStaticOfflineDataLen : Nat := 256
  maxClientIdLen : Nat := 64
  staticOffline_le : maxStaticOfflineMsgsPerSub ≤ 65535 := by decide

/-- `BrokerStaticOutPub`. `data` is the part of the array that is filled: `propLen` bytes of
properties, then the payload. -/
structure StaticOutPub where
  topic : Bytes := []
  data : Bytes := []
  payloadLen : Nat := 0
  propLen : Nat := 0
  qos : QoS := .qos0
  packetId : Nat := 0
  retain : Bool := false
  duplicate : Bool := false
  state : OutPubState := .queued
  wasSent : Bool := false
  hasExpiry : Bool := false
  enqTime : Nat := 0
  expirySec : Nat := 0
deriving Repr, DecidableEq

/-- `BrokerStaticOrphanSession`, in use. `outQ` is `out_q` with `out_q_count`. -/
structure Carrier where
  clientId : Bytes
  protocolLevel : Nat := 0
  sessionExpirySec : Nat := 0
  orphanSince : Nat := 0
  qos2Pending : List Nat := []
  outQ : Cells StaticOutPub
  outQInflight : Int := 0
deriving Repr, DecidableEq

/-- `BrokerStaticOutId`; identifier 0 marks an empty slot. -/
structure StaticOutId where
  packetId : Nat := 0
  qos : QoS := .qos0
deriving Repr, DecidableEq

/-- `BrokerClient` of the static-memory build: an empty client id is none, and
`clientReceiveMax` is `static_client_receive_max`. `unacked` is for the theorems only: the
identifiers of the QoS 1 and 2 PUBLISHes sent on this connection and not yet completed by
their acknowledgement. -/
structure StaticClient extends BrokerClient where
  outInflight : List StaticOutId
  unacked : List (Nat × QoS) := []
deriving Repr, DecidableEq

/-- What `BrokerStaticOrphan_Enqueue` is given. -/
structure Message where
  topic : Bytes
  payload : Bytes
  qos : QoS
  retain : Bool
  packetId : Nat := 0
  props : List MqttProp := []
deriving Repr, DecidableEq

/-- A PUBLISH of the drain, written whole: its entry as it stood, the level of the connection, the
time, and the properties of the entry for that connection. -/
structure Sending where
  entry : StaticOutPub
  level : Nat
  time : Nat
  props : List MqttProp
deriving Repr, DecidableEq

/-- What is noted of the carrier in a slot. -/
inductive Mark where
  | queued (slot : Nat) (m : Message) (packetId time : Nat)
  | sent (slot : Nat) (τ : Sending)
deriving Repr, DecidableEq

/-- `notes` is for the theorems only: each message that a carrier has taken, with its identifier and
the time, and each PUBLISH that the drain has written whole, as they happen. -/
structure StaticBroker where
  clients : List (Option StaticClient)
  orphans : List (Option Carrier)
  nextPacketId : Nat := 1
  env : Env := {}
  notes : List Mark := []
deriving Repr, DecidableEq

namespace StaticBroker

/-- The connection in slot `i`. -/
def client? (b : StaticBroker) (i : Nat) : Option StaticClient := b.clients[i]?.join

/-- The carrier in slot `k`. -/
def orphan? (b : StaticBroker) (k : Nat) : Option Carrier := b.orphans[k]?.join

def setClient (i : Nat) (c : Option StaticClient) (b : StaticBroker) : StaticBroker :=
  {b with clients := b.clients.set i c}

def setOrphan (k : Nat) (o : Option Carrier) (b : StaticBroker) : StaticBroker :=
  {b with orphans := b.orphans.set k o}

/-- The carriers in use. -/
def carriers (b : StaticBroker) : List Carrier := b.orphans.filterMap id

end StaticBroker

/-- `MqttBroker_Init`: no connection and no carrier, whatever the environment will do. -/
def initial (L : StaticLimits) (env : Env) : StaticBroker where
  clients := List.replicate L.maxClients none
  orphans := List.replicate L.maxStaticOrphanSessions none
  env := env

/-- Run a function of a connection on its record. -/
def onConn {α : Type} (m : ClientM α) (c : StaticClient) (env : Env) : α × StaticClient × Env :=
  let r := m ⟨c.toBrokerClient, env⟩
  (r.1, {c with toBrokerClient := r.2.c}, r.2.env)

/-- `BrokerClient_WriteDirect`: there is no pending length to keep. -/
def writeDirect (L : Limits) (len : Int) : ClientM Int := do
  if len ≤ 0 then return Code.badArg
  packetWrite L len.toNat

/-- `BrokerClient_WriteResp` -/
def writeResp (L : Limits) (len : Int) : ClientM Int := do
  let rc ← writeDirect L len
  if rc = len ∨ rc = Code.continue then return rc
  return Code.network

/-- `BrokerSend_Disconnect` -/
def sendDisconnect (L : Limits) (reason : UInt8) : ClientM Int := do
  let level ← readClient (·.protocolLevel)
  if level < level5 then return 0
  let rc ← encodeInto (encodeDisconnect L.txBufSz {reasonCode := reason, protocolLevel := level})
  if rc > 0 then writeDirect L rc else return rc

/-- `BrokerStore_String` into an array of `maxLen` characters. -/
def storeString (maxLen : Nat) (s : Bytes) : Option Bytes :=
  let kept := s.take (maxLen - 1)
  if kept.isEmpty then none else some kept

end WolfMqtt.Static
