import WolfMqtt.Persist.QueueKeys
import WolfMqtt.Persist.Scans
import WolfMqtt.Persist.StaticLoad

/-! What a restart of the static-memory build drops for its age.

Before it reads its sessions back, the broker takes from the store those that are over: a pass finds one, and its
records are deleted between the passes, each of which looks at the clock again. When everything has been read, the
slots are swept once more. -/
namespace WolfMqtt.Persist.StaticLoad

open Broker Load
open Agree (bind_eq_ok ok_bind)
open Static (StaticLimits)
open Attempt (Prog lift fail fetch change)

/-! ### Before the restore -/

/-- Is the session of a record over? One without a Session Expiry ended with its connection. -/
def recordOver (now expirySec orphanSince : Nat) : Bool :=
  !(expirySec ≠ 0 &&
    (expirySec = neverExpires || orphanSince = 0 || now < orphanSince || now - orphanSince < expirySec))

/-- `wmqb_static_find_expired_session_cb`: whether the pass stops at this record. -/
def findExpiredSessionCb (L : StaticLimits) (now : Nat) (key blob : Bytes) : Except Fault Bool :=
  if key = [] ∨ key.length ≥ L.maxClientIdLen then .ok false
  else
    match Load.scanHeader blob .session with
    | .error .overrun => .error .overrun
    | .error (.code _) => .ok false
    | .ok bodyLen =>
      if bodyLen < 16 then .ok false
      else do
        if (← readByte blob (hdrLen + 1)) ≠ sessionFlagExpiryValid then .ok false
        else
          let cidLen ← readNumber 2 blob (hdrLen + 14)
          if bodyLen < 16 + cidLen ∨ cidLen ≠ key.length then .error (.code Code.malformedData)
          else if (← readBytes blob cidPos key.length) ≠ key then .error (.code Code.malformedData)
          else if key.contains 0 then .error (.code Code.malformedData)
          else
            let expirySec ← readNumber 4 blob (hdrLen + 2)
            let orphanSince ← readNumber 8 blob (hdrLen + 6)
            .ok (recordOver now expirySec orphanSince)

/-- The pass of `wmqb_static_prune_expired_sessions` over the sessions: the first key that is found. -/
def findExpiredSession (L : StaticLimits) (now : Nat) : List Record → Except Fault (Option Bytes)
  | [] => .ok none
  | r :: rs => do
    if ← findExpiredSessionCb L now r.1 r.2 then .ok (some r.1) else findExpiredSession L now rs

section prune
variable (L : StaticLimits) (order : Nat → List Record → List Record) (queueOrder : Nat → Nat → List Record → List Record)
  (clock : Nat → Nat)

/-- `wmqb_static_prune_expired_sessions` from the pass `i` on: what it returns and the store, if that many passes are
enough. A queue has a pass for each of its records, and one more. -/
def pruneExpiredSessions : Nat → Nat → Kv → Option (Except Fault Unit × Kv)
  | 0, _, _ => none
  | passes + 1, i, kv =>
    match findExpiredSession L (clock i) (order i (kv .session)) with
    | .error e => some (.error e, kv)
    | .ok none => some (.ok (), kv)
    | .ok (some clientId) =>
      match staticDelOutQueue clientId (queueOrder i) ((kv .outq).length + 1) 0 kv with
      | none => none
      | some (.error e, kv) => some (.error e, kv)
      | some (.ok _, kv) => pruneExpiredSessions passes (i + 1) (kvDel .session clientId (delSubs clientId kv))

end prune

/-! ### After the restore -/

/-- The arrays and the store. -/
structure Restored where
  slots : Slots
  kv : Kv

/-- `wmqb_restore_expiry_sweep` on a session. -/
def slotOver (now : Nat) (o : SessionSlot) : Bool :=
  !(o.sessionExpirySec = neverExpires || now < o.orphanSince || now - o.orphanSince < o.sessionExpirySec)

/-- `BrokerSubs_RemoveByClientId`, while there are no connections. -/
def Slots.removeByClientId (clientId : Bytes) (b : Slots) : Slots :=
  if clientId = [] then b
  else {b with subs := b.subs.map fun s => s.filter fun s => s.clientId.takeWhile (· ≠ 0) ≠ clientId}

/-- `BrokerStaticOrphan_DropFull` on slot `i`, whatever the deletion of the queue returns. -/
def orphanDropFull (order : Nat → List Record → List Record) (i : Nat) (o : SessionSlot) (s : Restored) : Option Restored :=
  let kv := delSession o.cString (delSubs o.cString s.kv)
  (staticDelOutQueue o.cString order ((kv .outq).length + 1) 0 kv).map fun r =>
    ⟨(s.slots.removeByClientId o.cString).setSession i none, r.2⟩

/-- The slots from `i` on, `n` of them. -/
def sweepSlots (order : Nat → Nat → List Record → List Record) (now : Nat) : Nat → Nat → Restored → Option Restored
  | 0, _, s => some s
  | n + 1, i, s =>
    match s.slots.sessions[i]?.join with
    | none => sweepSlots order now n (i + 1) s
    | some o =>
      if slotOver now o then (orphanDropFull (order i) i o s).bind (sweepSlots order now n (i + 1))
      else sweepSlots order now n (i + 1) s

/-- `wmqb_restore_expiry_sweep` -/
def restoreExpirySweep (order : Nat → Nat → List Record → List Record) (now : Nat) (s : Restored) : Option Restored :=
  sweepSlots order now s.slots.sessions.length 0 s

/-! ### The passes come to an end -/

section ends
variable {clientId : Bytes} {order : Nat → List Record → List Record} {kv kv' : Kv}

theorem staticDelqScan_mem {recs : List Record} {key : Bytes} (h : staticDelqScan clientId recs = .ok (some key)) :
    ∃ r ∈ recs, r.1 = key := by
  induction recs with
  | nil => cases h
  | cons r recs ih =>
    obtain ⟨mine, -, h⟩ := bind_eq_ok.mp h
    split at h
    · split at h
      · cases h
      · exact ⟨r, List.mem_cons_self, Option.some.inj (Except.ok.inj h)⟩
    · obtain ⟨r', hr', hkey⟩ := ih h
      exact ⟨r', List.mem_cons_of_mem r hr', hkey⟩

/-- Each pass over the queues but the last takes a record away. -/
theorem staticDelOutQueue_ends (clientId : Bytes) (horder : ∀ n rs, (order n rs).Perm rs) (passes : Nat) :
    ∀ (deleted : Nat) (kv : Kv), (kv .outq).length < passes →
    ∃ res kv', staticDelOutQueue clientId order passes deleted kv = some (res, kv') := by
  induction passes with
  | zero => exact fun _ _ h => absurd h (Nat.not_lt_zero _)
  | succ passes ih =>
    intro deleted kv hpasses
    rw [staticDelOutQueue]
    split
    · exact ⟨_, _, rfl⟩
    · exact ⟨_, _, rfl⟩
    next key hscan =>
    obtain ⟨r, hr, rfl⟩ := staticDelqScan_mem hscan
    exact ih _ _ (Nat.lt_of_lt_of_le (length_kvDel_lt ((horder _ _).subset hr)) (Nat.lt_succ_iff.mp hpasses))

/-- Only records of queues are deleted. -/
theorem staticDelOutQueue_other {res : Except Fault Nat} (passes : Nat) : ∀ (deleted : Nat) (kv : Kv),
    staticDelOutQueue clientId order passes deleted kv = some (res, kv') → ∀ ns, ns ≠ .outq → kv' ns = kv ns := by
  induction passes with
  | zero => exact fun _ _ h => nomatch h
  | succ passes ih =>
    intro deleted kv h ns hns
    rw [staticDelOutQueue] at h
    split at h
    · cases h
      rfl
    · cases h
      rfl
    · rw [ih _ _ h ns hns, kvDel_apply, if_neg (Ne.symm hns)]

end ends

/-! ### What is dropped -/

/-- The Session Expiry of a stored session has been reached at `n`. -/
def StoredOver (n : Nat) (s : StoredSession) : Prop := s.expirySec ≠ neverExpires ∧ s.orphanSince + s.expirySec ≤ n

section dropped
variable {L : StaticLimits} {now : Nat} {key blob : Bytes}

theorem recordOver_iff {expirySec orphanSince : Nat} (hexp : expirySec ≠ 0) : recordOver now expirySec orphanSince = true ↔
    expirySec ≠ neverExpires ∧ orphanSince ≠ 0 ∧ orphanSince + expirySec ≤ now := by
  simp only [recordOver, Bool.not_eq_true', Bool.and_eq_false_iff, Bool.or_eq_false_iff, decide_eq_false_iff_not]
  omega

theorem sessionOver_iff {s : SessionFields} : sessionOver now s = true ↔
    s.expirySec ≠ neverExpires ∧ s.orphanSince ≠ 0 ∧ s.orphanSince + s.expirySec ≤ now := by
  simp only [sessionOver, Bool.and_eq_true, decide_eq_true_eq]
  omega

theorem slotOver_iff {o : SessionSlot} :
    slotOver now o = true ↔ o.sessionExpirySec ≠ neverExpires ∧ o.orphanSince + o.sessionExpirySec ≤ now := by
  simp only [slotOver, Bool.not_eq_true', Bool.or_eq_false_iff, decide_eq_false_iff_not]
  omega

theorem findExpiredSession_some {rs : List Record} (h : findExpiredSession L now rs = .ok (some key)) :
    ∃ blob, (key, blob) ∈ rs ∧ findExpiredSessionCb L now key blob = .ok true := by
  induction rs with
  | nil => cases h
  | cons r rs ih =>
    obtain ⟨stop, hcb, h⟩ := bind_eq_ok.mp h
    cases stop with
    | true =>
      obtain rfl := Option.some.inj (Except.ok.inj h)
      exact ⟨r.2, List.mem_cons_self, hcb⟩
    | false =>
      obtain ⟨blob, hmem, hcb⟩ := ih h
      exact ⟨blob, List.mem_cons_of_mem r hmem, hcb⟩

/-- A record at which the pass stops is of a session that is over, if it is of one at all. -/
theorem findExpiredSessionCb_over (hblob : blob.length < 4294967296) {s : StoredSession} (hs : decodeSession blob = .ok s)
    (h : findExpiredSessionCb L now key blob = .ok true) : StoredOver now s := by
  obtain ⟨bodyLen, hscan, hlen, hfields, -⟩ := sessionFields_of_decode hblob hs
  obtain ⟨hexpiry, hsince, hnz⟩ := sessionFields_eq_ok hfields
  rw [findExpiredSessionCb, hscan] at h
  split at h
  · cases h
  dsimp only at h
  rw [if_neg (by omega)] at h
  obtain ⟨flags, -, h⟩ := bind_eq_ok.mp h
  split at h
  · cases h
  obtain ⟨cidLen, -, h⟩ := bind_eq_ok.mp h
  split at h
  · cases h
  obtain ⟨cid, -, h⟩ := bind_eq_ok.mp h
  split at h
  · cases h
  split at h
  · cases h
  rw [hexpiry, ok_bind, hsince, ok_bind] at h
  obtain ⟨hnever, -, hle⟩ := (recordOver_iff hnz).mp (Except.ok.inj h)
  exact ⟨hnever, hle⟩

/-- What the first passes take from the store is over by one of their readings of the clock. -/
theorem pruneExpiredSessions_over {order : Nat → List Record → List Record} {queueOrder : Nat → Nat → List Record → List Record}
    {clock : Nat → Nat} (horder : ∀ i rs, (order i rs).Perm rs) (hblob : blob.length < 4294967296) {s : StoredSession}
    (hs : decodeSession blob = .ok s) {res : Except Fault Unit} {kv' : Kv} (passes : Nat) : ∀ (i : Nat) (kv : Kv),
    ((kv .session).map Prod.fst).Nodup → (key, blob) ∈ kv .session →
    pruneExpiredSessions L order queueOrder clock passes i kv = some (res, kv') → (key, blob) ∉ kv' .session →
    ∃ j, StoredOver (clock j) s := by
  induction passes with
  | zero => exact fun _ _ _ _ h => nomatch h
  | succ passes ih =>
    intro i kv hnodup hmem h hgone
    rw [pruneExpiredSessions] at h
    split at h
    · cases h
      exact absurd hmem hgone
    · cases h
      exact absurd hmem hgone
    next clientId hfind =>
    split at h
    · cases h
    next hqueue =>
      cases h
      rw [staticDelOutQueue_other _ _ _ hqueue .session (by decide)] at hgone
      exact absurd hmem hgone
    next kv₁ hqueue =>
    have hsame : kv₁ .session = kv .session := staticDelOutQueue_other _ _ _ hqueue .session (by decide)
    have hkeys : kvDel .session clientId (delSubs clientId kv₁) .session = (kv .session).filter (fun r => r.1 ≠ clientId) := by
      rw [kvDel_apply, if_pos rfl, delSubs, kvDel_apply, if_neg (by decide), hsame]
    obtain ⟨blob', hmem', hcb⟩ := findExpiredSession_some hfind
    by_cases hkey : key = clientId
    · -- a key has one record only
      subst hkey
      have hrec : (key, blob) = (key, blob') := List.inj_on_of_nodup_map hnodup hmem ((horder i _).subset hmem') rfl
      cases hrec
      exact ⟨i, findExpiredSessionCb_over hblob hs hcb⟩
    · refine ih (i + 1) _ ?_ ?_ h hgone
      · rw [hkeys]
        exact hnodup.sublist (List.filter_sublist.map _)
      · rw [hkeys, List.mem_filter]
        exact ⟨hmem, decide_eq_true hkey⟩

/-- There are enough passes, and the last one has found nothing. -/
theorem pruneExpiredSessions_ends {order : Nat → List Record → List Record} {queueOrder : Nat → Nat → List Record → List Record}
    {clock : Nat → Nat} (horder : ∀ i rs, (order i rs).Perm rs) (hqueue : ∀ i n rs, (queueOrder i n rs).Perm rs)
    (passes : Nat) : ∀ (i : Nat) (kv : Kv), (kv .session).length < passes →
    ∃ res kv', pruneExpiredSessions L order queueOrder clock passes i kv = some (res, kv') ∧
      (res = .ok () → ∃ j, findExpiredSession L (clock j) (order j (kv' .session)) = .ok none) := by
  induction passes with
  | zero => exact fun _ _ h => absurd h (Nat.not_lt_zero _)
  | succ passes ih =>
    intro i kv hpasses
    rw [pruneExpiredSessions]
    split
    · exact ⟨_, _, rfl, nofun⟩
    next hnone => exact ⟨_, _, rfl, fun _ => ⟨i, hnone⟩⟩
    next clientId hfind =>
    obtain ⟨res, kv₁, hdel⟩ := staticDelOutQueue_ends clientId (hqueue i) ((kv .outq).length + 1) 0 kv (Nat.lt_succ_self _)
    rw [hdel]
    cases res with
    | error e => exact ⟨_, _, rfl, nofun⟩
    | ok n =>
      refine ih (i + 1) _ ?_
      obtain ⟨blob, hmem, -⟩ := findExpiredSession_some hfind
      rw [kvDel_apply, if_pos rfl, delSubs, kvDel_apply, if_neg (by decide),
        staticDelOutQueue_other _ _ _ hdel .session (by decide)]
      exact Nat.lt_of_lt_of_le
        (List.length_filter_lt_length_iff_exists.mpr ⟨_, (horder i _).subset hmem, by simp⟩) (Nat.lt_succ_iff.mp hpasses)

/-- A session that there is room for is restored, unless it is over. -/
theorem decodeAndInsertSession_over (hblob : blob.length < 4294967296) {s : StoredSession} (hs : decodeSession blob = .ok s)
    (hflags : readByte blob (hdrLen + 1) = .ok sessionFlagExpiryValid) (hid : s.clientId ≠ [])
    (hfits : s.clientId.length < L.maxClientIdLen) {b : Slots} (hfree : none ∈ b.sessions)
    (h : (decodeAndInsertSession L now blob b).1 ≠ .ok ()) : StoredOver now s := by
  obtain ⟨bodyLen, hscan, hlen, hfields, hcid⟩ := sessionFields_of_decode hblob hs
  have hroom : ¬(s.clientId.length = 0 ∨ s.clientId.length ≥ L.maxClientIdLen) := by
    have hpos := List.length_pos_iff.mpr hid
    omega
  obtain ⟨i, hi⟩ : ∃ i, firstFree b.sessions = some i := by
    refine Option.isSome_iff_exists.mp ?_
    rw [firstFree, List.findIdx?_isSome, List.any_eq_true]
    exact ⟨none, hfree, rfl⟩
  rw [decodeAndInsertSession, Attempt.run_lift_bind hscan, if_neg (by omega), Attempt.run_lift_bind hflags,
    if_neg (not_not.mpr rfl), Attempt.run_lift_bind hfields, if_neg hroom] at h
  split at h
  next hover =>
    obtain ⟨hnever, -, hle⟩ := sessionOver_iff.mp hover
    exact ⟨hnever, hle⟩
  refine absurd ?_ h
  have hfetch : (fetch : SlotM Slots) b = (.ok b, b) := rfl
  rw [restoreCreateOrphan, if_neg hroom, Attempt.run_bind_ok hfetch, hi]
  dsimp only
  rw [Attempt.run_lift_bind hcid]
  rfl

theorem setSession_other (b : Slots) (x : Option SessionSlot) {i k : Nat} (h : i ≠ k) :
    (b.setSession i x).sessions[k]? = b.sessions[k]? := List.getElem?_set_ne h

theorem removeByClientId_sessions (clientId : Bytes) (b : Slots) : (b.removeByClientId clientId).sessions = b.sessions := by
  unfold Slots.removeByClientId
  split <;> rfl

/-- Dropping a session leaves the slots of the others. -/
theorem orphanDropFull_other {order : Nat → List Record → List Record} {i k : Nat} {o : SessionSlot} {s s' : Restored}
    (h : orphanDropFull order i o s = some s') (hik : i ≠ k) : s'.slots.sessions[k]? = s.slots.sessions[k]? := by
  obtain ⟨r, -, rfl⟩ := Option.map_eq_some_iff.mp h
  exact (setSession_other _ _ hik).trans (congrArg (·[k]?) (removeByClientId_sessions _ _))

/-- A slot that the sweep empties held a session that is over. -/
theorem sweepSlots_over {order : Nat → Nat → List Record → List Record} {k : Nat} {o : SessionSlot} {s' : Restored} (n : Nat) :
    ∀ (i : Nat) (s : Restored), s.slots.sessions[k]? = some (some o) → sweepSlots order now n i s = some s' →
    s'.slots.sessions[k]? ≠ some (some o) → slotOver now o = true := by
  induction n with
  | zero =>
    intro i s ho h hgone
    cases h
    exact absurd ho hgone
  | succ n ih =>
    intro i s ho h hgone
    rw [sweepSlots] at h
    split at h
    · exact ih _ _ ho h hgone
    next x hx =>
    split at h
    next hover =>
      obtain ⟨s₁, hdrop, h⟩ := Option.bind_eq_some_iff.mp h
      by_cases hik : i = k
      · subst hik
        rw [ho] at hx
        cases hx
        exact hover
      · exact ih _ s₁ ((orphanDropFull_other hdrop hik).trans ho) h hgone
    · exact ih _ _ ho h hgone

theorem orphanDropFull_ends {order : Nat → List Record → List Record} (horder : ∀ n rs, (order n rs).Perm rs) (i : Nat)
    (o : SessionSlot) (s : Restored) : ∃ s', orphanDropFull order i o s = some s' := by
  obtain ⟨res, kv', hdel⟩ := staticDelOutQueue_ends o.cString horder _ 0
    (delSession o.cString (delSubs o.cString s.kv)) (Nat.lt_succ_self _)
  exact ⟨_, Option.map_eq_some_iff.mpr ⟨_, hdel, rfl⟩⟩

theorem restoreExpirySweep_ends {order : Nat → Nat → List Record → List Record} (horder : ∀ i n rs, (order i n rs).Perm rs)
    (now : Nat) (s : Restored) : ∃ s', restoreExpirySweep order now s = some s' := by
  suffices ∀ n i s, ∃ s', sweepSlots order now n i s = some s' from this _ _ _
  intro n
  induction n with
  | zero => exact fun _ s => ⟨s, rfl⟩
  | succ n ih =>
    intro i s
    rw [sweepSlots]
    split
    · exact ih _ _
    split
    · obtain ⟨s₁, hdrop⟩ := orphanDropFull_ends (horder i) i _ s
      rw [hdrop]
      exact ih _ s₁
    · exact ih _ _

end dropped

end WolfMqtt.Persist.StaticLoad
