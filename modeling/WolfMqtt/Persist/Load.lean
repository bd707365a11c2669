import WolfMqtt.Lib.Attempt
import WolfMqtt.Packet.PropScan
import WolfMqtt.Persist.Restore

/-! Restoring stored records, on their bytes: the four `wmqb_decode_and_insert_*`, for the dynamic-memory build.

A decoder reads a record where it lies, allocates what it makes of it, and links that into the broker's
lists. It gives up with the return value that says why. A read past the end of the key or of the blob is an
`overrun`. What a byte of the record stands for is kept as it was stored, whatever its value. -/
namespace WolfMqtt.Persist.Load

open Broker
open Attempt (Prog lift fail fetch change)

/-! ### What is restored -/

/-- `BrokerOutPub` of a restored queue. -/
structure QueueEntry where
  addr : Nat
  topic : Bytes
  payload : Bytes
  qos : Nat
  packetId : Nat
  retain : Nat
  state : Nat
  retransmitDup : Nat
  enqTime : Nat
  enqueueSeq : Nat
  expirySec : Nat
  protocolLevel : Nat
deriving Repr, DecidableEq

instance : Node QueueEntry := ⟨QueueEntry.addr⟩

/-- A session slot. `clientId` is what was copied to `client_id`, in front of its NUL. -/
structure SessionSlot where
  addr : Nat
  clientId : Bytes
  protocolLevel : Nat
  sessionExpirySec : Nat
  orphanSince : Nat
  outQ : TailQueue QueueEntry := {}
  outQInflight : Int := 0
deriving Repr, DecidableEq

instance : Node SessionSlot := ⟨SessionSlot.addr⟩

/-- The client id as a C string. -/
def SessionSlot.cString (o : SessionSlot) : Bytes := o.clientId.takeWhile (· ≠ 0)

/-- `BrokerSub` of a session without a connection. -/
structure SubSlot where
  filter : Bytes
  clientId : Bytes
  qos : Nat
deriving Repr, DecidableEq

/-- `BrokerRetainedMsg` -/
structure RetainedSlot where
  topic : Bytes
  payload : Bytes
  qos : Nat
  storeTime : Nat
  expirySec : Nat
deriving Repr, DecidableEq

/-- What of `MqttBroker` a restore writes to. -/
structure Lists where
  sessions : List SessionSlot := []
  sessionCount : Nat := 0
  subs : List SubSlot := []
  retained : List RetainedSlot := []
  retainedCount : Nat := 0
deriving Repr, DecidableEq

/-- The broker, whether the next allocations succeed, and the address of the next one. -/
structure Heap where
  broker : Lists := {}
  allocs : List Bool := []
  nextAddr : Nat := 1
deriving Repr, DecidableEq

abbrev LoadM : Type → Type := Prog Heap Fault

/-- Give up with a return value. -/
def reject {α : Type} (rc : Int) : LoadM α := fail (.code rc)

/-- An allocation that a decoder gives up without. -/
def malloc : LoadM Nat := fun h =>
  match h.allocs with
  | [] => (.ok h.nextAddr, {h with nextAddr := h.nextAddr + 1})
  | true :: rest => (.ok h.nextAddr, {h with nextAddr := h.nextAddr + 1, allocs := rest})
  | false :: rest => (.error (.code Code.memory), {h with allocs := rest})

/-- Write to the broker. -/
def update (f : Lists → Lists) : LoadM Unit := change fun h => {h with broker := f h.broker}

/-! ### Reading a record -/

/-- `wmqb_r_u16`, `wmqb_r_u32` and `wmqb_r_u64`, by their number of bytes. -/
def readNumber (w : Nat) (blob : Bytes) (pos : Nat) : Except Fault Nat := do
  let bytes ← readBytes blob pos w
  .ok (BigEndian.read bytes)

/-- `wmqb_read_header`: the length of the body. -/
def scanHeader (blob : Bytes) (expectKind : Ns) : Except Fault Nat :=
  if blob.length < hdrLen then .error (.code Code.malformedData)
  else do
    if (← readBytes blob 0 4) ≠ magic then .error (.code Code.malformedData)
    else if (← readNumber 2 blob 4) ≠ schemaVer then .error (.code Code.badArg)
    else if (← readByte blob 6) ≠ expectKind.code then .error (.code Code.badArg)
    else if (← readByte blob 7) ≠ wrapMode then .error (.code Code.badArg)
    else
      let bodyLen ← readNumber 4 blob 8
      if bodyLen > wordDiff blob.length hdrLen then .error (.code Code.malformedData)
      else .ok bodyLen

/-! ### Sessions -/

/-- What a session record says: the client id is `cidLen` bytes long. -/
structure SessionFields where
  level : Nat
  expirySec : Nat
  orphanSince : Nat
  cidLen : Nat
deriving Repr, DecidableEq

/-- The fields of `wmqb_decode_and_insert_session` behind its flags. -/
def sessionFields (blob : Bytes) (bodyLen : Nat) : Except Fault SessionFields := do
  let level ← readByte blob hdrLen
  let expirySec ← readNumber 4 blob (hdrLen + 2)
  let orphanSince ← readNumber 8 blob (hdrLen + 6)
  let cidLen ← readNumber 2 blob (hdrLen + 14)
  if bodyLen < 16 + cidLen then .error (.code Code.malformedData)
  else if expirySec = 0 then .error (.code notFound)
  else .ok {level := level.toNat, expirySec, orphanSince, cidLen}

/-- Where the client id of a session record begins. -/
def cidPos : Nat := hdrLen + 16

/-- `wmqb_restore_create_orphan` -/
def restoreCreateOrphan (L : Limits) (now : Nat) (blob : Bytes) (s : SessionFields) : LoadM Unit := do
  if s.cidLen = 0 then reject Code.memory
  else if (← fetch).broker.sessionCount ≥ L.maxPersistSessions then reject Code.memory
  else
    let addr ← malloc
    let _ ← malloc
    let clientId ← lift (readBytes blob cidPos s.cidLen)
    update fun b => {b with
      sessions :=
        { addr, clientId, protocolLevel := s.level, sessionExpirySec := s.expirySec
          orphanSince := if s.orphanSince ≠ 0 then toTime L s.orphanSince else now } :: b.sessions
      sessionCount := b.sessionCount + 1}

/-- `wmqb_decode_and_insert_session` -/
def decodeAndInsertSession (L : Limits) (now : Nat) (blob : Bytes) : LoadM Unit := do
  let bodyLen ← lift (scanHeader blob .session)
  if bodyLen < 16 then reject Code.malformedData
  else
    let s ← lift (sessionFields blob bodyLen)
    restoreCreateOrphan L now blob s

/-- `wmqb_restore_find_orphan` -/
def findOrphan (b : Lists) (clientId : Bytes) : Option SessionSlot :=
  b.sessions.find? (fun o => o.cString = clientId)

/-! ### Retained messages -/

/-- `wmqb_retained_expired` -/
def scanRetainedExpired (L : Limits) (now : Nat) (blob : Bytes) : Except Fault Bool :=
  match scanHeader blob .retained with
  | .error .overrun => .error .overrun
  | .error (.code _) => .ok false
  | .ok bodyLen =>
    if bodyLen < retainedBodyMin then .ok false
    else do
      let storeTime ← readNumber 8 blob (hdrLen + 2)
      let expirySec ← readNumber 4 blob (hdrLen + 10)
      .ok (messageExpired L now storeTime expirySec)

/-- What a retained record says in front of its topic. -/
structure RetainedFields where
  qos : Nat
  storeTime : Nat
  expirySec : Nat
  topicLen : Nat
deriving Repr, DecidableEq

def retainedFields (blob : Bytes) (end_ : Nat) : Except Fault RetainedFields :=
  if wordDiff end_ hdrLen < retainedBodyMin then .error (.code Code.malformedData)
  else do
    let qos ← readByte blob hdrLen
    let storeTime ← readNumber 8 blob (hdrLen + 2)
    let expirySec ← readNumber 4 blob (hdrLen + 10)
    let topicLen ← readNumber 2 blob (hdrLen + 14)
    if wordDiff end_ (hdrLen + 16) < topicLen + 4 then .error (.code Code.malformedData)
    else .ok {qos := qos.toNat, storeTime, expirySec, topicLen}

/-- Where the topic of a retained record begins. -/
def topicPos : Nat := hdrLen + 16

/-- Space for a payload, when there is one, and the payload. -/
def copyPayload (blob : Bytes) (pos len : Nat) : LoadM Bytes := do
  if len > 0 then
    let _ ← malloc
    lift (readBytes blob pos len)
  else pure []

/-- `wmqb_decode_and_insert_retained` -/
def decodeAndInsertRetained (L : Limits) (now : Nat) (blob : Bytes) : LoadM Unit := do
  let bodyLen ← lift (scanHeader blob .retained)
  let end_ := hdrLen + bodyLen
  let r ← lift (retainedFields blob end_)
  let expired ← lift (scanRetainedExpired L now blob)
  if expired then reject 1
  else if (← fetch).broker.retainedCount ≥ L.maxRetained then reject 1
  else
    let _ ← malloc
    let _ ← malloc
    let topic ← lift (readBytes blob topicPos r.topicLen)
    let p := topicPos + r.topicLen
    let payloadLen ← lift (readNumber 4 blob p)
    if wordDiff end_ (p + 4) < payloadLen then reject Code.malformedData
    else
      let payload ← copyPayload blob (p + 4) payloadLen
      update fun b => {b with
        retained := {topic, payload, qos := r.qos, storeTime := toTime L r.storeTime, expirySec := r.expirySec} :: b.retained
        retainedCount := b.retainedCount + 1}

/-! ### Subscriptions -/

/-- The filter of one entry of a subscription record: its QoS, and where the filter begins and how long it is. -/
def subFields (blob : Bytes) (end_ p : Nat) : Except Fault (Nat × Nat) :=
  if wordDiff end_ p < 4 then .error (.code Code.malformedData)
  else do
    let qos ← readByte blob p
    let flen ← readNumber 2 blob (p + 2)
    if wordDiff end_ (p + 4) < flen then .error (.code Code.malformedData)
    else .ok (qos.toNat, flen)

/-- The entries of a subscription record from `p` on, `count` of them being left: the local list. -/
def subEntries (key blob : Bytes) (end_ : Nat) : Nat → Nat → LoadM (List SubSlot)
  | 0, _ => pure []
  | count + 1, p => do
    let (qos, flen) ← lift (subFields blob end_ p)
    let _ ← malloc
    let _ ← malloc
    let filter ← lift (readBytes blob (p + 4) flen)
    let _ ← malloc
    let rest ← subEntries key blob end_ count (p + 4 + flen)
    pure ({filter, clientId := key, qos} :: rest)

/-- `wmqb_decode_and_insert_subs` -/
def decodeAndInsertSubs (key blob : Bytes) : LoadM Unit := do
  let bodyLen ← lift (scanHeader blob .subs)
  if key = [] then reject Code.badArg
  else if (findOrphan (← fetch).broker key).isNone then reject notFound
  else
    let end_ := hdrLen + bodyLen
    if wordDiff end_ hdrLen < 2 then reject Code.malformedData
    else
      let count ← lift (readNumber 2 blob hdrLen)
      let subs ← subEntries key blob end_ count (hdrLen + 2)
      update fun b => {b with subs := subs ++ b.subs}

/-! ### Queue entries -/

/-- The client id in a queue key: `cid || 0x00 || pid_be(2)`. -/
def outqOwner (key : Bytes) : Except Fault Bytes :=
  if key.length < 3 then .error (.code Code.badArg)
  else do
    let cidLen := key.length - 3
    if (← readByte key cidLen) ≠ 0 then .error (.code Code.malformedData)
    else readBytes key 0 cidLen

/-- What a queue record says in front of its topic, in an entry that is not allocated yet. -/
def outqFields (L : Limits) (blob : Bytes) (end_ : Nat) : Except Fault (QueueEntry × Nat) := do
  let state ← readByte blob hdrLen
  let qos ← readByte blob (hdrLen + 1)
  let retain ← readByte blob (hdrLen + 2)
  let level ← readByte blob (hdrLen + 3)
  let dup ← readByte blob (hdrLen + 4)
  if dup > 1 then .error (.code Code.malformedData)
  else
    let packetId ← readNumber 2 blob (hdrLen + 6)
    let enqTime ← readNumber 8 blob (hdrLen + 8)
    let enqueueSeq ← readNumber 8 blob (hdrLen + 16)
    if enqueueSeq = 0 then .error (.code Code.malformedData)
    else
      let expirySec ← readNumber 4 blob (hdrLen + 24)
      let topicLen ← readNumber 2 blob (hdrLen + 28)
      if wordDiff end_ (hdrLen + 30) < topicLen + 4 then .error (.code Code.malformedData)
      else
        .ok ({ addr := 0, topic := [], payload := [], qos := qos.toNat, packetId, retain := retain.toNat
               state := state.toNat, retransmitDup := dup.toNat, enqTime := toTime L enqTime, enqueueSeq
               expirySec, protocolLevel := level.toNat }, topicLen)

/-- Where the topic of a queue record begins. -/
def outqTopicPos : Nat := hdrLen + 30

/-- Link an entry in front of the first one whose sequence is not smaller. -/
def linkBySeq (e : QueueEntry) : List QueueEntry → List QueueEntry
  | [] => [e]
  | x :: xs => if x.enqueueSeq < e.enqueueSeq then x :: linkBySeq e xs else e :: x :: xs

/-- `BROKER_OUTQ_PUBLISH_SENT` or `BROKER_OUTQ_PUBREL_SENT` -/
def QueueEntry.inFlight (e : QueueEntry) : Bool := e.state = 1 || e.state = 2

/-- The session with an entry linked into its queue. -/
def SessionSlot.link (e : QueueEntry) (o : SessionSlot) : SessionSlot :=
  {o with
    outQ := {
      chain := linkBySeq e o.outQ.chain
      tail := if o.outQ.chain.all (fun x => x.enqueueSeq < e.enqueueSeq) then some e.addr else o.outQ.tail
      count := o.outQ.count + 1}
    outQInflight := if e.inFlight then o.outQInflight + 1 else o.outQInflight}

/-- `wmqb_decode_and_insert_outq` -/
def decodeAndInsertOutq (L : Limits) (key blob : Bytes) : LoadM Unit := do
  let clientId ← lift (outqOwner key)
  let bodyLen ← lift (scanHeader blob .outq)
  if bodyLen < outqBodyMin then reject Code.malformedData
  else
    let end_ := hdrLen + bodyLen
    let (e, topicLen) ← lift (outqFields L blob end_)
    match findOrphan (← fetch).broker clientId with
    | none => reject notFound
    | some o =>
      let addr ← malloc
      let _ ← malloc
      let topic ← lift (readBytes blob outqTopicPos topicLen)
      let p := outqTopicPos + topicLen
      let payloadLen ← lift (readNumber 4 blob p)
      if wordDiff end_ (p + 4) < payloadLen then reject Code.malformedData
      else
        let payload ← copyPayload blob (p + 4) payloadLen
        update fun b => {b with sessions := Chain.writeAt o.addr (SessionSlot.link {e with addr, topic, payload}) b.sessions}

/-- The callback of the pass over one namespace. -/
def restoreRecord (L : Limits) (now : Nat) (ns : Ns) (key blob : Bytes) : LoadM Unit :=
  match ns with
  | .meta => pure ()
  | .session => decodeAndInsertSession L now blob
  | .subs => decodeAndInsertSubs key blob
  | .retained => decodeAndInsertRetained L now blob
  | .outq => decodeAndInsertOutq L key blob

end WolfMqtt.Persist.Load
