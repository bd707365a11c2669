import WolfMqtt.Persist.Load
import WolfMqtt.Static.State

/-! Restoring stored records in the static-memory build: the three `wmqb_decode_and_insert_*` it has.

There is nothing to allocate. What is restored goes to the first free slot of a fixed array, and a decoder that
claims the slot before it knows whether the record is well formed gives it back when it gives up. -/
namespace WolfMqtt.Persist.StaticLoad

open Broker Load
open Static (StaticLimits)
open Attempt (Prog lift fail fetch change onError)

/-- What of the broker's arrays a restore writes to: a slot is `none` when it is not `in_use`. -/
structure Slots where
  sessions : List (Option SessionSlot)
  subs : List (Option SubSlot)
  retained : List (Option RetainedSlot)
deriving Repr, DecidableEq

abbrev SlotM : Type → Type := Prog Slots Fault

/-- The first slot that is not in use. -/
def firstFree {α : Type} (slots : List (Option α)) : Option Nat := slots.findIdx? (·.isNone)

def Slots.setSession (i : Nat) (x : Option SessionSlot) (b : Slots) : Slots := {b with sessions := b.sessions.set i x}

def Slots.setSub (i : Nat) (x : Option SubSlot) (b : Slots) : Slots := {b with subs := b.subs.set i x}

def Slots.setRetained (i : Nat) (x : Option RetainedSlot) (b : Slots) : Slots := {b with retained := b.retained.set i x}

/-! ### Sessions -/

/-- Was the session over when the broker came up? -/
def sessionOver (now : Nat) (s : SessionFields) : Bool :=
  s.expirySec ≠ neverExpires && s.orphanSince ≠ 0 && now ≥ s.orphanSince && now - s.orphanSince ≥ s.expirySec

/-- `wmqb_restore_create_orphan` -/
def restoreCreateOrphan (L : StaticLimits) (now : Nat) (blob : Bytes) (s : SessionFields) : SlotM Unit := do
  if s.cidLen = 0 ∨ s.cidLen ≥ L.maxClientIdLen then fail (.code Code.outOfBuffer)
  else
    match firstFree (← fetch).sessions with
    | none => fail (.code Code.outOfBuffer)
    | some i =>
      let clientId ← lift (readBytes blob cidPos s.cidLen)
      change (Slots.setSession i (some
        { addr := i, clientId, protocolLevel := s.level, sessionExpirySec := s.expirySec
          orphanSince := if s.orphanSince ≠ 0 then toTime L.toLimits s.orphanSince else now }))

/-- `wmqb_decode_and_insert_session` -/
def decodeAndInsertSession (L : StaticLimits) (now : Nat) (blob : Bytes) : SlotM Unit := do
  let bodyLen ← lift (Load.scanHeader blob .session)
  if bodyLen < 16 then fail (.code Code.malformedData)
  else
    let flags ← lift (readByte blob (hdrLen + 1))
    if flags ≠ sessionFlagExpiryValid then fail (.code notFound)
    else
      let s ← lift (sessionFields blob bodyLen)
      if s.cidLen = 0 ∨ s.cidLen ≥ L.maxClientIdLen then fail (.code Code.outOfBuffer)
      else if sessionOver now s then fail (.code notFound)
      else restoreCreateOrphan L now blob s

/-- `wmqb_restore_find_orphan` -/
def findOrphan (b : Slots) (clientId : Bytes) : Option SessionSlot :=
  (b.sessions.find? (fun o => o.any (fun o => o.cString = clientId))).join

/-! ### Retained messages -/

/-- `wmqb_decode_and_insert_retained`: the slot is claimed, and given back if the payload does not fit. -/
def decodeAndInsertRetained (L : StaticLimits) (now : Nat) (blob : Bytes) : SlotM Unit := do
  let bodyLen ← lift (Load.scanHeader blob .retained)
  let end_ := hdrLen + bodyLen
  let r ← lift (retainedFields blob end_)
  let expired ← lift (scanRetainedExpired L.toLimits now blob)
  if expired then fail (.code 1)
  else if r.topicLen ≥ L.maxTopicLen then fail (.code Code.outOfBuffer)
  else
    match firstFree (← fetch).retained with
    | none => fail (.code Code.outOfBuffer)
    | some i =>
      change (Slots.setRetained i (some ⟨[], [], 0, 0, 0⟩))
      let topic ← lift (readBytes blob topicPos r.topicLen)
      change (Slots.setRetained i (some ⟨topic, [], 0, 0, 0⟩))
      let p := topicPos + r.topicLen
      let payloadLen ← lift (readNumber 4 blob p)
      if wordDiff end_ (p + 4) < payloadLen ∨ payloadLen > L.maxPayloadLen then
        change (Slots.setRetained i none)
        fail (.code Code.malformedData)
      else
        let payload ← lift (readBytes blob (p + 4) payloadLen)
        change (Slots.setRetained i (some ⟨topic, payload, r.qos, toTime L.toLimits r.storeTime, r.expirySec⟩))

/-! ### Subscriptions -/

/-- The slots of `claimed` given back. -/
def Slots.release (claimed : List Nat) (b : Slots) : Slots := claimed.foldl (fun b k => b.setSub k none) b

/-- `rollback` of `wmqb_decode_and_insert_subs`. -/
def rollback (claimed : List Nat) : SlotM Unit := change (Slots.release claimed)

/-- The entries of a subscription record from `p` on, `count` of them being left and the slots of `claimed` taken. -/
def subEntries (L : StaticLimits) (key blob : Bytes) (end_ : Nat) : Nat → Nat → List Nat → SlotM Unit
  | 0, _, _ => pure ()
  | count + 1, p, claimed => do
    let (qos, flen) ← onError (lift (subFields blob end_ p)) (rollback claimed)
    if flen ≥ L.maxFilterLen ∨ key.length ≥ L.maxClientIdLen then
      rollback claimed
      fail (.code Code.outOfBuffer)
    else
      match firstFree (← fetch).subs with
      | none =>
        rollback claimed
        fail (.code Code.outOfBuffer)
      | some k =>
        change (Slots.setSub k (some ⟨[], [], 0⟩))
        let filter ← lift (readBytes blob (p + 4) flen)
        let clientId ← lift (readBytes key 0 key.length)
        change (Slots.setSub k (some ⟨filter, clientId, qos⟩))
        subEntries L key blob end_ count (p + 4 + flen) (claimed ++ [k])

/-- `wmqb_decode_and_insert_subs` -/
def decodeAndInsertSubs (L : StaticLimits) (key blob : Bytes) : SlotM Unit := do
  let bodyLen ← lift (Load.scanHeader blob .subs)
  if key = [] then fail (.code Code.badArg)
  else if (findOrphan (← fetch) key).isNone then fail (.code notFound)
  else
    let end_ := hdrLen + bodyLen
    if wordDiff end_ hdrLen < 2 then fail (.code Code.malformedData)
    else
      let count ← lift (readNumber 2 blob hdrLen)
      subEntries L key blob end_ count (hdrLen + 2) []

/-- The callback of the pass over one namespace. Queues are not restored in this build. -/
def restoreRecord (L : StaticLimits) (now : Nat) (ns : Ns) (key blob : Bytes) : SlotM Unit :=
  match ns with
  | .meta => pure ()
  | .session => decodeAndInsertSession L now blob
  | .subs => decodeAndInsertSubs L key blob
  | .retained => decodeAndInsertRetained L now blob
  | .outq => pure ()

end WolfMqtt.Persist.StaticLoad
