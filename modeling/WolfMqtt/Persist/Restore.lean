import WolfMqtt.Persist.Record

/-! Restoring a broker from its store: `BrokerPersist_Restore` in the dynamic-memory build.

`order` is the order in which the backend gives its records back, and `now` what the
clock says while the broker starts. The lists of keys that the pruning passes collect are
allocated without failure, and so are the parts of one restored record after its first. -/
namespace WolfMqtt.Persist

open Broker

/-- `MQTT_CODE_ERROR_NOT_FOUND` -/
def notFound : Int := -15

/-- A time read from a record, as the broker's time type. -/
def toTime (L : Limits) (t : Nat) : Nat := t % 2 ^ L.timeBits

/-- A byte that stands for a QoS. No Put function writes another one. -/
def qosOfByte (b : Nat) : Except Int QoS :=
  match b with
  | 0 => .ok .qos0
  | 1 => .ok .qos1
  | 2 => .ok .qos2
  | _ => .error Code.malformedData

def stateOfByte (b : Nat) : Except Int OutPubState :=
  match b with
  | 0 => .ok .queued
  | 1 => .ok .publishSent
  | 2 => .ok .pubrelSent
  | _ => .error Code.malformedData

/-! ### Sessions -/

/-- What a session record says. -/
structure StoredSession where
  clientId : Bytes
  level : Nat
  expirySec : Nat
  orphanSince : Nat
deriving Repr, DecidableEq

/-- The fields of `wmqb_decode_and_insert_session`. A session with no Session Expiry is over. -/
def decodeSession (blob : Bytes) : Except Int StoredSession := do
  let body ← readHeader blob .session
  if body.length < 16 then .error Code.malformedData
  else
    let expirySec := BigEndian.read ((body.drop 2).take 4)
    let orphanSince := BigEndian.read ((body.drop 6).take 8)
    let cidLen := BigEndian.read ((body.drop 14).take 2)
    if body.length < 16 + cidLen then .error Code.malformedData
    else if expirySec = 0 then .error notFound
    else .ok {clientId := (body.drop 16).take cidLen, level := (body.headD 0).toNat, expirySec, orphanSince}

/-- The slot a stored session comes back in. A session stored while its client was connected starts its
expiry now. -/
def orphanOfStored (L : Limits) (now slot : Nat) (s : StoredSession) : OrphanSession where
  addr := slot
  clientId := s.clientId
  protocolLevel := s.level
  sessionExpirySec := s.expirySec
  orphanSince := if s.orphanSince ≠ 0 then toTime L s.orphanSince else now
  outQ := {}
  outQInflight := 0
  qos2Pending := []
  qos2PendingCount := 0

/-- `wmqb_restore_create_orphan` -/
def restoreCreateOrphan (L : Limits) (now : Nat) (s : StoredSession) : BrokerM Bool := do
  if s.clientId = [] then return false
  if (← get).orphanSessionCount ≥ L.maxPersistSessions then return false
  match ← alloc with
  | none => return false
  | some slot =>
    modify (fun b => {b with
      orphanSessions := orphanOfStored L now slot s :: b.orphanSessions
      orphanSessionCount := b.orphanSessionCount + 1})
    return true

/-- `wmqb_decode_and_insert_session` -/
def decodeAndInsertSession (L : Limits) (now : Nat) (blob : Bytes) : BrokerM Int := do
  match decodeSession blob with
  | .error e => return e
  | .ok s =>
    if ← restoreCreateOrphan L now s then return 0 else return Code.memory

/-- `wmqb_session_key_is_client_id` -/
def sessionKeyIsClientId (key blob : Bytes) : Bool :=
  if key = [] ∨ key.length = 65535 then false
  else
    match readHeader blob .session with
    | .error _ => false
    | .ok body =>
      let cidLen := BigEndian.read ((body.drop 14).take 2)
      body.length ≥ 16 && cidLen = key.length && body.length ≥ 16 + cidLen &&
        (body.drop 16).take cidLen = key && !key.contains 0

/-- The pass over the sessions; `ended` collects those that were over before the restart. -/
def iterSessions (L : Limits) (now : Nat) (ended : List Bytes) : List Record → BrokerM (List Bytes)
  | [] => return ended
  | (key, blob) :: rest => do
    let rc ← decodeAndInsertSession L now blob
    let gone := rc = notFound ∧ ended.length < L.maxPersistSessions ∧ sessionKeyIsClientId key blob
    iterSessions L now (if gone then key :: ended else ended) rest

/-- `wmqb_restore_drop_ended` -/
def restoreDropEnded (ended : List Bytes) (kv : Kv) : Kv :=
  if ended = [] then kv
  else
    let kv := Function.update kv .outq ((kv .outq).filter (fun r => !ended.any (ownsKey · r.1)))
    ended.foldl (fun kv key => kvDel .session key (delSubs key kv)) kv

/-! ### Retained messages -/

def retainedBodyMin : Nat := 16

/-- Has the Message Expiry of a message elapsed? A clock that went back does not expire it. -/
def messageExpired (L : Limits) (now storeTime expirySec : Nat) : Bool :=
  expirySec ≠ 0 && now ≥ toTime L storeTime && now - toTime L storeTime ≥ expirySec

/-- `wmqb_retained_expired` -/
def retainedExpired (L : Limits) (now : Nat) (blob : Bytes) : Bool :=
  match readHeader blob .retained with
  | .error _ => false
  | .ok body =>
    body.length ≥ retainedBodyMin &&
      messageExpired L now (BigEndian.read ((body.drop 2).take 8)) (BigEndian.read ((body.drop 10).take 4))

def retainedPurgeBuf : Nat := 256

def retainedPurgePasses : Nat := 32

/-- `wmqb_purge_expired_retained_cb` over the records: the keys staged, `used` bytes of the buffer being
taken, and whether one had to wait for another scan. -/
def purgeScan (L : Limits) (now used : Nat) : List Record → List Bytes × Bool
  | [] => ([], false)
  | (key, blob) :: rest =>
    if key = [] ∨ !retainedExpired L now blob then purgeScan L now used rest
    else if key.length + 2 > retainedPurgeBuf then purgeScan L now used rest
    else if used + 2 + key.length > retainedPurgeBuf then ([], true)
    else
      let r := purgeScan L now (used + 2 + key.length) rest
      (key :: r.1, r.2)

/-- `wmqb_restore_purge_expired_retained`, at most `passes` scans. -/
def purgeExpiredRetained (L : Limits) (now : Nat) (order : List Record → List Record) : Nat → Kv → Kv
  | 0, kv => kv
  | passes + 1, kv =>
    let scan := purgeScan L now 0 (order (kv .retained))
    if scan.1 = [] then kv
    else
      let kv := scan.1.foldl (fun kv key => kvDel .retained key kv) kv
      if scan.2 then purgeExpiredRetained L now order passes kv else kv

/-- The fields of `wmqb_decode_and_insert_retained`. -/
def decodeRetained (L : Limits) (blob : Bytes) : Except Int RetainedMsg := do
  let body ← readHeader blob .retained
  if body.length < retainedBodyMin then .error Code.malformedData
  else
    let qos ← qosOfByte (body.headD 0).toNat
    let storeTime := BigEndian.read ((body.drop 2).take 8)
    let expirySec := BigEndian.read ((body.drop 10).take 4)
    let topicLen := BigEndian.read ((body.drop 14).take 2)
    let p := body.drop 16
    if p.length < topicLen + 4 then .error Code.malformedData
    else
      let payloadLen := BigEndian.read ((p.drop topicLen).take 4)
      let q := (p.drop topicLen).drop 4
      if q.length < payloadLen then .error Code.malformedData
      else .ok {topic := p.take topicLen, payload := q.take payloadLen, storeTime := toTime L storeTime, expirySec, qos}

/-- A new node at the head of the retained list, unless that is full. -/
def insertRetained (L : Limits) (m : RetainedMsg) : BrokerM Unit := do
  if (← get).retainedCount ≥ L.maxRetained then return ()
  match ← alloc with
  | none => return ()
  | some _ => modify (fun b => {b with retained := m :: b.retained, retainedCount := b.retainedCount + 1})

/-- `wmqb_decode_and_insert_retained` -/
def decodeAndInsertRetained (L : Limits) (now : Nat) (blob : Bytes) : BrokerM Unit :=
  match decodeRetained L blob with
  | .error _ => return ()
  | .ok m => if retainedExpired L now blob then return () else insertRetained L m

/-! ### Subscriptions -/

/-- The entries of a subscription record, `count` of them being left. -/
def decodeSubEntries (clientId : Bytes) : Nat → Bytes → Except Int (List BrokerSub)
  | 0, _ => .ok []
  | count + 1, p => do
    if p.length < 4 then .error Code.malformedData
    else
      let qos ← qosOfByte (p.headD 0).toNat
      let flen := BigEndian.read ((p.drop 2).take 2)
      let p := p.drop 4
      if p.length < flen then .error Code.malformedData
      else
        let rest ← decodeSubEntries clientId count (p.drop flen)
        .ok ({filter := p.take flen, clientId := some clientId, client := none, qos} :: rest)

def decodeSubs (key blob : Bytes) : Except Int (List BrokerSub) := do
  let body ← readHeader blob .subs
  if key = [] then .error Code.badArg
  else if body.length < 2 then .error Code.malformedData
  else decodeSubEntries key (BigEndian.read (body.take 2)) (body.drop 2)

/-- The subscriptions of a client whose session was restored. -/
def insertSubs (clientId : Bytes) (subs : List BrokerSub) : BrokerM Unit := do
  if (orphanFind (← get) clientId).isNone then return ()
  match ← alloc with
  | none => return ()
  | some _ => modify (fun b => {b with subs := subs ++ b.subs})

/-- `wmqb_decode_and_insert_subs`: all of a record's entries, or none. -/
def decodeAndInsertSubs (key blob : Bytes) : BrokerM Unit :=
  match decodeSubs key blob with
  | .error _ => return ()
  | .ok subs => insertSubs key subs

/-! ### Queue entries -/

def outqBodyMin : Nat := 30

/-- The fields of `wmqb_decode_and_insert_outq`, for an entry at `addr`. -/
def decodeOutPub (L : Limits) (addr : Nat) (blob : Bytes) : Except Int OutPub := do
  let body ← readHeader blob .outq
  if body.length < outqBodyMin then .error Code.malformedData
  else
    let state ← stateOfByte (body.headD 0).toNat
    let qos ← qosOfByte (body.getD 1 0).toNat
    let retain := body.getD 2 0
    let level := body.getD 3 0
    let dup := body.getD 4 0
    if dup > 1 then .error Code.malformedData
    else
      let packetId := BigEndian.read ((body.drop 6).take 2)
      let enqTime := BigEndian.read ((body.drop 8).take 8)
      let enqueueSeq := BigEndian.read ((body.drop 16).take 8)
      if enqueueSeq = 0 then .error Code.malformedData
      else
        let expirySec := BigEndian.read ((body.drop 24).take 4)
        let topicLen := BigEndian.read ((body.drop 28).take 2)
        let p := body.drop 30
        if p.length < topicLen + 4 then .error Code.malformedData
        else
          let payloadLen := BigEndian.read ((p.drop topicLen).take 4)
          let q := (p.drop topicLen).drop 4
          if q.length < payloadLen then .error Code.malformedData
          else .ok {
            addr, topic := p.take topicLen, payload := q.take payloadLen, qos, packetId
            retain := retain ≠ 0, state, retransmitDup := dup ≠ 0, enqTime := toTime L enqTime
            enqueueSeq, expirySec, protocolLevel := level.toNat, props := []}

/-- Link an entry in front of the first one with a sequence that is not smaller. -/
def insertBySeq (e : OutPub) : List OutPub → List OutPub
  | [] => [e]
  | x :: xs => if x.enqueueSeq < e.enqueueSeq then x :: insertBySeq e xs else e :: x :: xs

/-- The queue with an entry linked in by its sequence. -/
def insertOutPub (e : OutPub) (o : OrphanSession) : OrphanSession :=
  {o with
    outQ := {
      chain := insertBySeq e o.outQ.chain
      tail := if o.outQ.chain.all (fun x => x.enqueueSeq < e.enqueueSeq) then some e.addr else o.outQ.tail
      count := o.outQ.count + 1}
    outQInflight := if e.state = .queued then o.outQInflight else o.outQInflight + 1}

/-- A new entry for the restored session of a client. -/
def insertOutq (L : Limits) (clientId blob : Bytes) : BrokerM Unit := do
  match orphanFind (← get) clientId with
  | none => return ()
  | some o =>
    match ← alloc with
    | none => return ()
    | some slot =>
      match decodeOutPub L slot blob with
      | .error _ => return ()
      | .ok e => modify (·.updateOrphan o.addr (insertOutPub e))

/-- `wmqb_decode_and_insert_outq`: the key is the client id, a zero byte and the packet identifier. -/
def decodeAndInsertOutq (L : Limits) (key blob : Bytes) : BrokerM Unit :=
  if key.length < 3 then return ()
  else if key.getD (key.length - 3) 1 ≠ 0 then return ()
  else insertOutq L (key.take (key.length - 3)) blob

/-! ### The whole restore -/

/-- Call a function for each record. -/
def iterRecords (f : Bytes → Bytes → BrokerM Unit) : List Record → BrokerM Unit
  | [] => return ()
  | (key, blob) :: rest => do
    f key blob
    iterRecords f rest

/-- `wmqb_restore_expiry_sweep` -/
def restoreExpirySweep (now : Nat) : List OrphanSession → BrokerM Unit
  | [] => return ()
  | o :: rest => do
    if orphanExpired now o then orphanDropFull o
    restoreExpirySweep now rest

/-- `wmqb_meta_check`: is there a META record of this build's schema? The read takes sixteen bytes at most. -/
def metaCheck (kv : Kv) : Except Int Bool :=
  match (kv .meta).find? (fun r => r.1 = metaKey) with
  | none => .ok false
  | some r =>
    if (r.2.take (hdrLen + 4)).length < hdrLen + 4 then .error Code.malformedData
    else
      match readHeader (r.2.take (hdrLen + 4)) .meta with
      | .error e => .error e
      | .ok _ => .ok true

/-- What the restore reads of the store, once its META record stands. -/
def restoreRecords (L : Limits) (now : Nat) (order : List Record → List Record) (kv : Kv) : BrokerM Unit := do
  let ended ← iterSessions L now [] (order (kv .session))
  let kv := restoreDropEnded ended kv
  let kv := purgeExpiredRetained L now order retainedPurgePasses kv
  iterRecords (fun _ blob => decodeAndInsertRetained L now blob) (order (kv .retained))
  iterRecords decodeAndInsertSubs (order (kv .subs))
  iterRecords (decodeAndInsertOutq L) (order (kv .outq))
  restoreExpirySweep now (← get).orphanSessions

/-- `BrokerPersist_Restore`. A store of another schema is wiped; a new one is stamped. -/
def restore (L : Limits) (now : Nat) (order : List Record → List Record) (kv : Kv) : BrokerM Unit := do
  match metaCheck kv with
  | .error _ => return ()
  | .ok false => return ()
  | .ok true => restoreRecords L now order kv

end WolfMqtt.Persist
