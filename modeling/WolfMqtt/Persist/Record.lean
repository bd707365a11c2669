import WolfMqtt.Lib.BigEndian
import WolfMqtt.Broker.Orphan

/-! Stored records: what `mqtt_broker_persist.c` writes, as bytes.

A record is a header of twelve bytes and a body, under a key, in one of five
namespaces. The storage hooks are a map that never fails; in which order it gives its
records back is left open. Records are plaintext. -/
namespace WolfMqtt.Persist

open Broker

/-! ### The store -/

/-- `BROKER_PERSIST_NS_*` -/
inductive Ns
  | «meta»
  | session
  | subs
  | retained
  | outq
deriving Repr, DecidableEq

def Ns.code : Ns → UInt8
  | .meta => 1
  | .session => 2
  | .subs => 3
  | .retained => 4
  | .outq => 5

/-- A key and a blob. -/
abbrev Record := Bytes × Bytes

/-- The records of each namespace. -/
abbrev Kv := Ns → List Record

def kvDel (ns : Ns) (key : Bytes) (kv : Kv) : Kv :=
  Function.update kv ns ((kv ns).filter (fun r => r.1 ≠ key))

theorem kvDel_apply (ns ns' : Ns) (key : Bytes) (kv : Kv) :
    kvDel ns key kv ns' = if ns = ns' then (kv ns').filter (fun r => r.1 ≠ key) else kv ns' := by
  by_cases h : ns = ns'
  · subst h
    rw [kvDel, Function.update_self, if_pos rfl]
  · rw [kvDel, Function.update_of_ne (Ne.symm h), if_neg h]

def kvPut (ns : Ns) (key blob : Bytes) (kv : Kv) : Kv :=
  Function.update kv ns ((kv ns).filter (fun r => r.1 ≠ key) ++ [(key, blob)])

/-! ### The header -/

def hdrLen : Nat := 12

/-- `WOLFMQTT_BROKER_PERSIST_MAGIC0` to `3` -/
def magic : Bytes := [0x57, 0x4D, 0x51, 0x42]

def schemaVer : Nat := 5

/-- `WOLFMQTT_BROKER_PERSIST_WRAP_PLAIN` -/
def wrapMode : UInt8 := 0

/-- `wmqb_write_header` -/
def writeHeader (kind : Ns) (bodyLen : Nat) : Bytes :=
  magic ++ (BigEndian.write 2 schemaVer ++ ([kind.code, wrapMode] ++ BigEndian.write 4 bodyLen))

/-- A header and the body it announces. -/
def frameRecord (kind : Ns) (body : Bytes) : Bytes := writeHeader kind body.length ++ body

/-- `wmqb_read_header`: the body the header announces. -/
def readHeader (blob : Bytes) (expectKind : Ns) : Except Int Bytes :=
  if blob.length < hdrLen then .error Code.malformedData
  else if blob.take 4 ≠ magic then .error Code.malformedData
  else if BigEndian.read ((blob.drop 4).take 2) ≠ schemaVer then .error Code.badArg
  else if (blob.drop 6).take 1 ≠ [expectKind.code] then .error Code.badArg
  else if (blob.drop 7).take 1 ≠ [wrapMode] then .error Code.badArg
  else
    let bodyLen := BigEndian.read ((blob.drop 8).take 4)
    if bodyLen > blob.length - hdrLen then .error Code.malformedData
    else .ok ((blob.drop hdrLen).take bodyLen)

/-! ### Sessions -/

/-- `WMQB_SESSION_FLAG_EXPIRY_VALID` -/
def sessionFlagExpiryValid : UInt8 := 0x01

def sessionBody (clientId : Bytes) (level expirySec orphanSince : Nat) : Bytes :=
  [UInt8.ofNat level, sessionFlagExpiryValid] ++ (BigEndian.write 4 expirySec ++
    (BigEndian.write 8 orphanSince ++ (BigEndian.write 2 clientId.length ++ clientId)))

/-- `wmqb_put_session_record`: the length of the client id is a `word16`. -/
def putSessionRecord (clientId : Bytes) (level expirySec orphanSince : Nat) (kv : Kv) : Kv :=
  let cid := clientId.take (clientId.length % 65536)
  kvPut .session cid (frameRecord .session (sessionBody cid level expirySec orphanSince)) kv

/-- `BrokerPersist_PutSession` -/
def putSession (clientId : Bytes) (level expirySec : Nat) (kv : Kv) : Kv :=
  if clientId = [] ∨ expirySec = 0 then kv else putSessionRecord clientId level expirySec 0 kv

/-- `BrokerPersist_PutOrphanSession` -/
def putOrphanSession (clientId : Bytes) (level expirySec orphanSince : Nat) (kv : Kv) : Kv :=
  if clientId = [] then kv else putSessionRecord clientId level expirySec orphanSince kv

/-- `BrokerPersist_DelSession` -/
def delSession (clientId : Bytes) (kv : Kv) : Kv := kvDel .session (clientId.take (clientId.length % 65536)) kv

/-! ### Subscriptions -/

def subEntry (s : BrokerSub) : Bytes :=
  [UInt8.ofNat s.qos.toNat, 0] ++ (BigEndian.write 2 s.filter.length ++ s.filter.take (s.filter.length % 65536))

def subsBody (subs : List BrokerSub) : Bytes := BigEndian.write 2 subs.length ++ (subs.map subEntry).flatten

/-- `BrokerPersist_PutSubs`, for the entries that stand under the client id. -/
def putSubs (clientId : Bytes) (subs : List BrokerSub) (kv : Kv) : Kv :=
  if clientId = [] ∨ clientId.length > 65535 then kv
  else if subs = [] then kvDel .subs clientId kv
  else kvPut .subs clientId (frameRecord .subs (subsBody subs)) kv

/-- `BrokerPersist_DelSubs` -/
def delSubs (clientId : Bytes) (kv : Kv) : Kv := kvDel .subs (clientId.take (clientId.length % 65536)) kv

/-! ### Retained messages -/

def retainedBody (m : RetainedMsg) : Bytes :=
  [UInt8.ofNat m.qos.toNat, 0] ++ (BigEndian.write 8 m.storeTime ++ (BigEndian.write 4 m.expirySec ++
    (BigEndian.write 2 m.topic.length ++ (m.topic.take (m.topic.length % 65536) ++
      (BigEndian.write 4 m.payload.length ++ m.payload)))))

/-- `BrokerPersist_PutRetained` -/
def putRetained (m : RetainedMsg) (kv : Kv) : Kv :=
  if m.topic = [] then kv
  else kvPut .retained (m.topic.take (m.topic.length % 65536)) (frameRecord .retained (retainedBody m)) kv

/-- `BrokerPersist_DelRetained` -/
def delRetained (topic : Bytes) (kv : Kv) : Kv := kvDel .retained (topic.take (topic.length % 65536)) kv

/-! ### Queue entries -/

def outPubStateCode : OutPubState → UInt8
  | .queued => 0
  | .publishSent => 1
  | .pubrelSent => 2

/-- The longest client id a queue key has room for. -/
def maxKeyClientId : Nat := 256

/-- `wmqb_outq_build_key` -/
def outqKey (clientId : Bytes) (packetId : Nat) : Except Int Bytes :=
  if clientId.length > maxKeyClientId then .error Code.outOfBuffer
  else .ok (clientId ++ ([0] ++ BigEndian.write 2 packetId))

def outPubBody (e : OutPub) : Bytes :=
  [outPubStateCode e.state, UInt8.ofNat e.qos.toNat, e.retain.toUInt8, UInt8.ofNat e.protocolLevel,
      e.retransmitDup.toUInt8, 0] ++
    (BigEndian.write 2 e.packetId ++ (BigEndian.write 8 e.enqTime ++ (BigEndian.write 8 e.enqueueSeq ++
      (BigEndian.write 4 e.expirySec ++ (BigEndian.write 2 e.topic.length ++
        (e.topic.take (e.topic.length % 65536) ++ (BigEndian.write 4 e.payload.length ++ e.payload)))))))

/-- `BrokerPersist_PutOutPub`: the v5 properties of the message are not part of the record. -/
def putOutPub (clientId : Bytes) (e : OutPub) (kv : Kv) : Kv :=
  if e.qos = .qos0 ∨ e.enqueueSeq = 0 then kv
  else
    match outqKey clientId e.packetId with
    | .error _ => kv
    | .ok key => kvPut .outq key (frameRecord .outq (outPubBody e)) kv

/-- `BrokerPersist_DelOutPub` -/
def delOutPub (clientId : Bytes) (packetId : Nat) (kv : Kv) : Kv :=
  match outqKey clientId packetId with
  | .error _ => kv
  | .ok key => kvDel .outq key kv

/-- Does a queue key belong to a client? -/
def ownsKey (clientId key : Bytes) : Bool :=
  key.length ≥ clientId.length + 1 && key.take clientId.length = clientId &&
    key.getD clientId.length 1 = 0

/-- `BrokerPersist_DelOutQueue` -/
def delOutQueue (clientId : Bytes) (kv : Kv) : Kv :=
  Function.update kv .outq ((kv .outq).filter (fun r => !ownsKey clientId r.1))

/-! ### What the broker's calls store -/

def applyOp : PersistOp → Kv → Kv
  | .putSession id level expirySec => putSession id level expirySec
  | .putOrphanSession id level expirySec orphanSince => putOrphanSession id level expirySec orphanSince
  | .delSession id => delSession id
  | .putSubs id subs => putSubs id subs
  | .delSubs id => delSubs id
  | .putRetained m => putRetained m
  | .delRetained topic => delRetained topic
  | .putOutPub id e => putOutPub id e
  | .delOutPub id packetId => delOutPub id packetId
  | .delOutQueue id => delOutQueue id

/-- The store after a list of calls. -/
def applyOps (ops : List PersistOp) (kv : Kv) : Kv := ops.foldl (fun kv op => applyOp op kv) kv

def metaKey : Bytes := [0]

def metaBody : Bytes := BigEndian.write 4 schemaVer

/-- `wmqb_meta_write` -/
def metaWrite (kv : Kv) : Kv := kvPut .meta metaKey (frameRecord .meta metaBody) kv

/-- The store of a broker after its first start. -/
def freshStore : Kv := metaWrite (fun _ => [])

end WolfMqtt.Persist
