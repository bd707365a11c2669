import WolfMqtt.Lib.Elapsed
import WolfMqtt.Broker.Reach
import WolfMqtt.Broker.Retention
import WolfMqtt.Persist.Restart
import WolfMqtt.Persist.StaticRestart
import WolfMqtt.Static.CarrierInv
import WolfMqtt.Static.Retained
import WolfMqtt.Static.Serve

/-! Nothing expires early, whatever the clock does.

Each elapsed-time test of the two builds looks whether the clock went back before it takes a
difference. In the machine's arithmetic, with 32 or 64 bits for a time, a test says what the
model's says over the natural numbers; and nothing is dropped for its age, and no connection
closed, unless a reading of the clock has reached the end of the interval. -/
namespace WolfMqtt.Static

open Broker Elapsed

/-! ### The tests in the machine's arithmetic -/

section machine
variable {w : Nat}

/-- `BrokerOrphan_ExpireSweep` and `BrokerStaticOrphan_IsExpired` -/
def sweepTest (now since : BitVec w) (expiry : BitVec 32) : Bool :=
  decide (expiry ≠ 0xFFFFFFFF) && reached now since (expiry.setWidth w)

/-- `wmqb_restore_expiry_sweep` of either build: the difference and the interval as a `word64`. -/
def restoreTest (now since : BitVec w) (expiry : BitVec 32) : Bool :=
  decide (expiry ≠ 0xFFFFFFFF) && (decide (since ≤ now) && decide (expiry.setWidth 64 ≤ (now - since).setWidth 64))

/-- A session record in the static-memory build, where it is read back and where records are pruned: times as a
`word64`. -/
def storedSessionTest (now : BitVec w) (since : BitVec 64) (expiry : BitVec 32) : Bool :=
  decide (expiry ≠ 0xFFFFFFFF) && (decide (since ≠ 0) && reached (now.setWidth 64) since (expiry.setWidth 64))

/-- A retained message, and a queued one with an expiry. -/
def messageTest (now start : BitVec w) (expiry : BitVec 32) : Bool := reached now start (expiry.setWidth w)

/-- `wmqb_retained_expired`: the time in the record is a `word64`. -/
def storedRetainedTest (now : BitVec w) (storeTime : BitVec 64) (expiry : BitVec 32) : Bool :=
  decide (expiry ≠ 0) && reached now (storeTime.setWidth w) (expiry.setWidth w)

/-- `(WOLFMQTT_BROKER_TIME_T)(((word32)bc->keep_alive_sec * 3u + 1u) / 2u)` -/
def keepAliveTest (now lastRx : BitVec w) (keepAlive : BitVec 16) : Bool :=
  reached now lastRx (((keepAlive.setWidth 32 * 3 + 1) / 2).setWidth w)

variable {now since : BitVec w} {expiry : BitVec 32}

theorem toNat_expiry (hw : 32 ≤ w) : (expiry.setWidth w).toNat = expiry.toNat := BitVec.toNat_setWidth_of_le hw

theorem expiry_ne_iff : expiry ≠ 0xFFFFFFFF ↔ expiry.toNat ≠ neverExpires := by
  rw [not_iff_not, ← BitVec.toNat_inj]
  rfl

theorem sweepTest_iff (hw : 32 ≤ w) :
    sweepTest now since expiry = true ↔ expiry.toNat ≠ neverExpires ∧ since.toNat + expiry.toNat ≤ now.toNat := by
  rw [sweepTest, Bool.and_eq_true, decide_eq_true_eq, reached_iff, toNat_expiry hw, expiry_ne_iff]

theorem restoreTest_iff (hw : w ≤ 64) :
    restoreTest now since expiry = true ↔ expiry.toNat ≠ neverExpires ∧ since.toNat + expiry.toNat ≤ now.toNat := by
  rw [restoreTest, Bool.and_eq_true, Bool.and_eq_true, decide_eq_true_eq, decide_eq_true_eq, decide_eq_true_eq,
    expiry_ne_iff, BitVec.le_def (x := expiry.setWidth 64), BitVec.toNat_setWidth_of_le (by decide),
    BitVec.toNat_setWidth_of_le hw]
  refine and_congr_right fun _ => ?_
  constructor
  · rintro ⟨hle, hint⟩
    rw [BitVec.toNat_sub_of_le hle] at hint
    rw [BitVec.le_def] at hle
    omega
  · intro h
    have hle : since ≤ now := by
      rw [BitVec.le_def]
      omega
    rw [BitVec.toNat_sub_of_le hle]
    exact ⟨hle, by omega⟩

theorem storedSessionTest_iff (hw : w ≤ 64) {since : BitVec 64} : storedSessionTest now since expiry = true ↔
    expiry.toNat ≠ neverExpires ∧ since.toNat ≠ 0 ∧ since.toNat + expiry.toNat ≤ now.toNat := by
  rw [storedSessionTest, Bool.and_eq_true, Bool.and_eq_true, decide_eq_true_eq, decide_eq_true_eq, reached_iff,
    expiry_ne_iff, toNat_expiry (by decide), BitVec.toNat_setWidth_of_le hw]
  refine and_congr_right fun _ => and_congr_left fun _ => ?_
  rw [not_iff_not, ← BitVec.toNat_inj]
  rfl

theorem messageTest_iff (hw : 32 ≤ w) : messageTest now since expiry = true ↔ since.toNat + expiry.toNat ≤ now.toNat := by
  rw [messageTest, reached_iff, toNat_expiry hw]

/-- A record that this build wrote holds a time of its type. -/
theorem storedRetainedTest_iff (hw : 32 ≤ w) {storeTime : BitVec 64} (hfits : storeTime.toNat < 2 ^ w) :
    storedRetainedTest now storeTime expiry = true ↔
      expiry.toNat ≠ 0 ∧ storeTime.toNat + expiry.toNat ≤ now.toNat := by
  rw [storedRetainedTest, Bool.and_eq_true, decide_eq_true_eq, reached_iff, toNat_expiry hw, BitVec.toNat_setWidth,
    Nat.mod_eq_of_lt hfits]
  refine and_congr_left fun _ => ?_
  rw [not_iff_not, ← BitVec.toNat_inj]
  rfl

/-- No keep-alive of 16 bits overflows the 32 bits in which its deadline is computed. -/
theorem keepAliveTest_iff (hw : 32 ≤ w) {keepAlive : BitVec 16} :
    keepAliveTest now since keepAlive = true ↔ since.toNat + keepAliveDeadline keepAlive.toNat ≤ now.toNat := by
  have hlt := keepAlive.isLt
  have hdeadline : ((keepAlive.setWidth 32 * 3 + 1) / 2).toNat = keepAliveDeadline keepAlive.toNat := by
    rw [BitVec.toNat_udiv, BitVec.toNat_add, BitVec.toNat_mul, BitVec.toNat_setWidth_of_le (by decide), keepAliveDeadline]
    show (keepAlive.toNat * 3 % 4294967296 + 1) % 4294967296 / 2 = _
    omega
  rw [keepAliveTest, reached_iff, toNat_expiry hw, hdeadline]

/-- A deadline is one and a half keep-alives, rounded up. -/
theorem keepAliveDeadline_ceil (k : Nat) : 3 * k ≤ 2 * keepAliveDeadline k ∧ 2 * keepAliveDeadline k ≤ 3 * k + 1 := by
  rw [keepAliveDeadline]
  omega

/-! The model's tests are these. -/

theorem orphanExpired_eq_sweepTest (hw : 32 ≤ w) {o : OrphanSession} (hsince : o.orphanSince = since.toNat)
    (hexp : o.sessionExpirySec = expiry.toNat) : orphanExpired now.toNat o = sweepTest now since expiry := by
  rw [Bool.eq_iff_iff, sweepTest_iff hw, orphanExpired, hsince, hexp]
  simp only [Bool.and_eq_true, decide_eq_true_eq]
  omega

theorem orphanExpired_eq_restoreTest (hw : w ≤ 64) {o : OrphanSession} (hsince : o.orphanSince = since.toNat)
    (hexp : o.sessionExpirySec = expiry.toNat) : orphanExpired now.toNat o = restoreTest now since expiry := by
  rw [Bool.eq_iff_iff, restoreTest_iff hw, orphanExpired, hsince, hexp]
  simp only [Bool.and_eq_true, decide_eq_true_eq]
  omega

theorem isExpired_eq_sweepTest (hw : 32 ≤ w) {o : Carrier} (hsince : o.orphanSince = since.toNat)
    (hexp : o.sessionExpirySec = expiry.toNat) : isExpired now.toNat o = sweepTest now since expiry := by
  rw [Bool.eq_iff_iff, sweepTest_iff hw, isExpired, hsince, hexp, neverExpires]
  simp only [Bool.and_eq_true, decide_eq_true_eq]
  omega

theorem retainedExpired_eq_messageTest (hw : 32 ≤ w) {m : RetainedMsg} (hstart : m.storeTime = since.toNat)
    (hexp : m.expirySec = expiry.toNat) :
    retainedExpired now.toNat m = (decide (expiry.toNat > 0) && messageTest now since expiry) := by
  rw [Bool.eq_iff_iff, Bool.and_eq_true, messageTest_iff hw, retainedExpired, hstart, hexp]
  simp only [Bool.and_eq_true, decide_eq_true_eq]
  omega

theorem entryExpired_eq_messageTest (hw : 32 ≤ w) {e : StaticOutPub} (hstart : e.enqTime = since.toNat)
    (hexp : e.expirySec = expiry.toNat) :
    entryExpired now.toNat e = (!e.wasSent && e.hasExpiry && messageTest now since expiry) := by
  rw [Bool.eq_iff_iff, Bool.and_eq_true, messageTest_iff hw, entryExpired, hstart, hexp]
  simp only [Bool.and_eq_true, decide_eq_true_eq]
  rw [and_assoc]
  refine and_congr_right fun _ => ?_
  omega

theorem messageExpired_eq_storedRetainedTest {L : Limits} (hL : L.timeBits = w) (hw : 32 ≤ w) {storeTime : BitVec 64}
    (hfits : storeTime.toNat < 2 ^ w) : Persist.messageExpired L now.toNat storeTime.toNat expiry.toNat =
      storedRetainedTest now storeTime expiry := by
  rw [Bool.eq_iff_iff, storedRetainedTest_iff hw hfits, Persist.messageExpired, Persist.toTime, hL, Nat.mod_eq_of_lt hfits]
  simp only [Bool.and_eq_true, decide_eq_true_eq]
  omega

/-- The time of a record that this build wrote is one of its type. -/
theorem messageExpired_eq_setWidth {L : Limits} (hL : L.timeBits = w) (hw : 32 ≤ w) (hw' : w ≤ 64) :
    Persist.messageExpired L now.toNat since.toNat expiry.toNat = storedRetainedTest now (since.setWidth 64) expiry := by
  have hstored : (since.setWidth 64).toNat = since.toNat := BitVec.toNat_setWidth_of_le hw'
  rw [← hstored]
  exact messageExpired_eq_storedRetainedTest hL hw (by rw [hstored]; exact since.isLt)

theorem sessionOver_eq_storedSessionTest (hw : w ≤ 64) {since : BitVec 64} {s : Persist.Load.SessionFields}
    (hsince : s.orphanSince = since.toNat) (hexp : s.expirySec = expiry.toNat) :
    Persist.StaticLoad.sessionOver now.toNat s = storedSessionTest now since expiry := by
  rw [Bool.eq_iff_iff, storedSessionTest_iff hw, Persist.StaticLoad.sessionOver_iff, hsince, hexp]

theorem recordOver_eq_storedSessionTest (hw : w ≤ 64) {since : BitVec 64} (hnz : expiry ≠ 0) :
    Persist.StaticLoad.recordOver now.toNat expiry.toNat since.toNat = storedSessionTest now since expiry := by
  rw [Bool.eq_iff_iff, storedSessionTest_iff hw]
  exact Persist.StaticLoad.recordOver_iff fun h => hnz (BitVec.eq_of_toNat_eq h)

theorem slotOver_eq_restoreTest (hw : w ≤ 64) {o : Persist.Load.SessionSlot} (hsince : o.orphanSince = since.toNat)
    (hexp : o.sessionExpirySec = expiry.toNat) :
    Persist.StaticLoad.slotOver now.toNat o = restoreTest now since expiry := by
  rw [Bool.eq_iff_iff, restoreTest_iff hw, Persist.StaticLoad.slotOver_iff, hsince, hexp]

theorem keepAliveTest_eq (hw : 32 ≤ w) {keepAlive : BitVec 16} : keepAliveTest now since keepAlive =
    decide (now.toNat ≥ since.toNat ∧ now.toNat - since.toNat ≥ keepAliveDeadline keepAlive.toNat) := by
  rw [Bool.eq_iff_iff, keepAliveTest_iff hw, decide_eq_true_eq]
  omega

theorem passed_eq {timeout : BitVec w} :
    passed now since timeout = decide (now.toNat ≥ since.toNat ∧ now.toNat - since.toNat > timeout.toNat) := by
  rw [Bool.eq_iff_iff, passed_iff, decide_eq_true_eq]
  omega

end machine

/-! ### Readings of the clock -/

/-- The clock can show `n` while this environment lasts. -/
def Reads (env : Env) (n : Nat) : Prop := n ∈ env.clock ∨ n = env.now

theorem getTime_reads (env : Env) : Reads env env.getTime.1 := by
  unfold Env.getTime
  cases hclock : env.clock with
  | nil => exact .inr rfl
  | cons t rest =>
    refine .inl ?_
    rw [hclock]
    exact List.mem_cons_self

theorem Reads.of_getTime {env : Env} {n : Nat} (h : Reads env.getTime.2 n) : Reads env n := by
  unfold Env.getTime at h
  cases hclock : env.clock with
  | nil =>
    rw [hclock] at h
    exact h
  | cons t rest =>
    rw [hclock] at h
    rcases h with h | h
    · refine .inl ?_
      rw [hclock]
      exact List.mem_cons_of_mem t h
    · exact .inr h

/-! ### Sessions -/

section sessions
variable {L : Limits} {b : MqttBroker} {now : Nat}

/-- The session expiry of an orphan has been reached at `n`. -/
def SessionOver (n : Nat) (o : OrphanSession) : Prop :=
  o.sessionExpirySec ≠ neverExpires ∧ o.orphanSince + o.sessionExpirySec ≤ n

theorem sessionOver_of_expired {o : OrphanSession} (h : orphanExpired now o = true) : SessionOver now o := by
  rw [orphanExpired] at h
  simp only [Bool.and_eq_true, decide_eq_true_eq] at h
  exact ⟨h.1.1, by omega⟩

/-- The sweep drops a session only when its expiry has been reached. -/
theorem expireLoop_over (fuel : Nat) (hnodup : (b.orphanSessions.map Node.addr).Nodup) {o : OrphanSession}
    (ho : o ∈ b.orphanSessions) (hgone : o ∉ (expireLoop now fuel b).2.orphanSessions) : SessionOver now o := by
  induction fuel generalizing b with
  | zero => exact absurd ho hgone
  | succ fuel ih =>
    rw [expireLoop, run_bind, run_get] at hgone
    dsimp only at hgone
    cases hfind : b.orphanSessions.find? (orphanExpired now) with
    | none =>
      rw [hfind] at hgone
      exact absurd ho hgone
    | some x =>
      rw [hfind] at hgone
      dsimp only at hgone
      rw [run_bind] at hgone
      by_cases hox : o = x
      · rw [hox]
        exact sessionOver_of_expired (List.find?_some hfind)
      · have hremoved : (orphanDropFull x b).2.orphanSessions = b.orphanSessions.filter (fun p => p.addr ≠ x.addr) :=
          Chain.removeAt_eq_filter hnodup x.addr
        refine ih (b := (orphanDropFull x b).2) ?_ ?_ hgone
        · rw [hremoved]
          exact hnodup.sublist (List.filter_sublist.map _)
        · rw [hremoved, List.mem_filter]
          refine ⟨ho, decide_eq_true ?_⟩
          intro haddr
          exact hox (List.inj_on_of_nodup_map hnodup ho (List.mem_of_find?_eq_some hfind) haddr)

theorem sweep_over (hb : Reachable L b) {o : OrphanSession} (ho : o ∈ b.orphanSessions)
    (hgone : o ∉ (Broker.sweep b).2.orphanSessions) : ∃ n, Reads b.env n ∧ SessionOver n o := by
  have hnodup := hb.phase.orphans_nodup
  rw [Broker.sweep, run_bind, run_bind, run_get] at hgone
  dsimp only at hgone
  rw [whenDo, run_ite] at hgone
  split at hgone
  · -- the sweep looks at the clock again
    refine ⟨_, (getTime_reads (getTime b).2.env).of_getTime, ?_⟩
    exact expireLoop_over (b := (getTime (getTime b).2).2) _ hnodup ho hgone
  · exact absurd ho hgone

theorem restoreExpirySweep_over (hnodup : (b.orphanSessions.map Node.addr).Nodup) {o : OrphanSession}
    (ho : o ∈ b.orphanSessions) (hgone : o ∉ (Persist.restoreExpirySweep now b.orphanSessions b).2.orphanSessions) :
    SessionOver now o := by
  rw [(Persist.restoreExpirySweep_swept now b.orphanSessions b hnodup).all hnodup, List.mem_filter, and_iff_right ho,
    Bool.not_eq_true', Bool.not_eq_false] at hgone
  exact sessionOver_of_expired hgone

theorem removeExpiredFrom_session (now i : Nat) (o : Carrier) (fuel : Nat) :
    (removeExpiredFrom now i o fuel).sessionExpirySec = o.sessionExpirySec ∧
      (removeExpiredFrom now i o fuel).orphanSince = o.orphanSince := by
  induction fuel generalizing i o with
  | zero => exact ⟨rfl, rfl⟩
  | succ fuel ih =>
    unfold removeExpiredFrom
    split
    · exact ⟨rfl, rfl⟩
    split
    · exact ih i (removeAt i o)
    · exact ih (i + 1) o

/-- The static build's sweep. -/
theorem sweepSlot_over {clients : List (Option StaticClient)} {o : Carrier} (h : sweepSlot clients now (some o) = none) :
    o.sessionExpirySec ≠ neverExpires ∧ o.orphanSince + o.sessionExpirySec ≤ now := by
  obtain ⟨hexp, hsince⟩ := removeExpiredFrom_session now 0 o o.outQ.count.toNat
  have hover : isExpired now (removeExpiredQueued now o) = true := by
    rw [sweepSlot] at h
    split at h
    · next hboth => exact (Bool.and_eq_true_iff.mp hboth).1
    · cases h
  rw [isExpired, removeExpiredQueued, hexp, hsince] at hover
  simp only [Bool.and_eq_true, decide_eq_true_eq] at hover
  exact ⟨hover.1.1, by omega⟩

end sessions

/-! ### Messages -/

section messages
variable {L : Limits} {b : MqttBroker} {now : Nat}

/-- The message expiry of a retained message has been reached at `n`. -/
def RetainedOver (n : Nat) (m : RetainedMsg) : Prop := m.expirySec ≠ 0 ∧ m.storeTime + m.expirySec ≤ n

theorem retainedOver_of_expired {m : RetainedMsg} (h : retainedExpired now m = true) : RetainedOver now m := by
  rw [retainedExpired] at h
  simp only [Bool.and_eq_true, decide_eq_true_eq] at h
  exact ⟨by omega, by omega⟩

theorem retainedReapExpired_over {m : RetainedMsg} (hm : m ∈ b.retained)
    (hgone : m ∉ (Broker.retainedReapExpired now b).2.retained) : RetainedOver now m := by
  rw [show (Broker.retainedReapExpired now b).2.retained = b.retained.filter (fun m => !retainedExpired now m) from rfl,
    List.mem_filter, and_iff_right hm, Bool.not_eq_true', Bool.not_eq_false] at hgone
  exact retainedOver_of_expired hgone

theorem retainedDeliverLoop_over (a : Nat) (filter : Bytes) (subQos : QoS) (ms : List RetainedMsg) {m : RetainedMsg}
    (hm : m ∈ b.retained) (hgone : m ∉ (retainedDeliverLoop L a filter subQos now ms b).2.retained) : RetainedOver now m := by
  induction ms generalizing b with
  | nil => exact absurd hm hgone
  | cons x ms ih =>
    rw [retainedDeliverLoop, run_ite] at hgone
    split at hgone
    · next hexp =>
      by_cases hmx : m = x
      · rw [hmx]
        exact retainedOver_of_expired hexp
      · refine ih ?_ hgone
        show m ∈ b.retained.eraseP (· = x)
        exact (List.mem_eraseP_of_neg (by simpa using hmx)).mpr hm
    rw [run_ite] at hgone
    split at hgone
    · have hsame : (retainedDeliverOne L a x subQos b).2.retained = b.retained :=
        (Prod.ext_iff.mp (retainedDeliverOne_sameRetained a x subQos b)).1.symm
      rw [run_bind, run_ite] at hgone
      split at hgone
      · exact absurd (hsame ▸ hm) hgone
      · exact ih (hsame ▸ hm) hgone
    · exact ih hm hgone

theorem retainedDeliverToClient_over (a : Nat) (filter : Bytes) (subQos : QoS) {m : RetainedMsg} (hm : m ∈ b.retained)
    (hgone : m ∉ (Broker.retainedDeliverToClient L a filter subQos b).2.retained) : ∃ n, Reads b.env n ∧ RetainedOver n m :=
  ⟨_, getTime_reads b.env, retainedDeliverLoop_over (b := (getTime b).2) a filter subQos _ hm hgone⟩

/-- A record of the store, for the purge and for what reads it back. -/
theorem retainedOver_of_record (hL : L.timeBits ≤ 64) {m : RetainedMsg} (hm : Persist.Storable L m)
    (h : Persist.retainedExpired L now (Persist.retainedRecord m).2 = true) : RetainedOver now m := by
  rw [Persist.retainedRecord, Persist.retainedExpired_record hL hm, Persist.messageExpired_eq hm, Persist.retainedOver] at h
  simpa [RetainedOver] using h

theorem purgeExpiredRetained_over {order : List Persist.Record → List Persist.Record} (horder : ∀ rs, (order rs).Perm rs)
    (passes : Nat) {kv : Persist.Kv} (hkeys : ((kv .retained).map Prod.fst).Nodup) (hL : L.timeBits ≤ 64) {m : RetainedMsg}
    (hm : Persist.Storable L m) (hmem : Persist.retainedRecord m ∈ kv .retained)
    (hgone : Persist.retainedRecord m ∉ Persist.purgeExpiredRetained L now order passes kv .retained) : RetainedOver now m := by
  obtain ⟨keep, hkeep, hall⟩ := (Persist.purgeExpiredRetained_purged L now order horder passes kv hkeys).kept
  have hexp : Persist.retainedExpired L now (Persist.retainedRecord m).2 = true := by
    by_contra hnot
    refine hgone ?_
    rw [hkeep]
    exact List.mem_filter.mpr ⟨hmem, hall _ hmem (Bool.not_eq_true _ ▸ hnot)⟩
  exact retainedOver_of_record hL hm hexp

theorem reapSlot_over {m : RetainedMsg} (h : reapSlot now (some m) = none) : RetainedOver now m := by
  rw [reapSlot] at h
  split at h
  · next hexp => exact retainedOver_of_expired hexp
  · cases h

theorem deliverLoop_over {filter : Bytes} {goesOn : List Bool} {slots : List (Option RetainedMsg)} {m : RetainedMsg}
    (hm : some m ∈ slots) (hgone : some m ∉ (deliverLoop filter now goesOn slots).2) : RetainedOver now m := by
  have hentry (slots : List (Option RetainedMsg)) : m ∈ slots.filterMap id ↔ some m ∈ slots := by
    simp
  rcases (deliverLoop_spec filter now goesOn slots).2.2 m ((hentry slots).mpr hm) with h | h
  · exact absurd ((hentry _).mp h) hgone
  · exact retainedOver_of_expired h

/-- The message expiry of an entry has been reached at `n`. -/
def EntryOver (n : Nat) (e : StaticOutPub) : Prop := e.hasExpiry = true ∧ e.enqTime + e.expirySec ≤ n

theorem entryOver_of_expired {e : StaticOutPub} (h : entryExpired now e = true) : EntryOver now e := by
  rw [entryExpired] at h
  simp only [Bool.and_eq_true, decide_eq_true_eq] at h
  exact ⟨h.1.1.2, by omega⟩

theorem removeExpiredFrom_over {o : Carrier} (hok : o.outQ.Ok) (i fuel : Nat) {e : StaticOutPub} (he : e ∈ o.outQ.live)
    (hgone : e ∉ (removeExpiredFrom now i o fuel).outQ.live) : EntryOver now e := by
  induction fuel generalizing i o with
  | zero => exact absurd he hgone
  | succ fuel ih =>
    unfold removeExpiredFrom at hgone
    split at hgone
    · exact absurd he hgone
    · next x hx =>
      split at hgone
      · next hexp =>
        by_cases hex : e = x
        · rw [hex]
          exact entryOver_of_expired hexp.2
        · refine ih (o := removeAt i o) (hok.removeAt {} i) i ?_ hgone
          show e ∈ (o.outQ.removeAt {} i).live
          obtain ⟨pre, post, hlive, herase, -⟩ := Row.split_at hx
          rw [hok.live_removeAt, herase]
          rw [hlive] at he
          simpa [hex] using he
      · exact ih hok (i + 1) he hgone

end messages

/-! ### Connections -/

/-- How a connection of the static build ends its turn. -/
inductive TurnEnd where
  | goesOn
  /-- A packet was written in part, and there is no way to finish it. -/
  | abandoned
  | keepAliveTimeout
  | connectTimeout
deriving Repr, DecidableEq

/-- `check_timeouts` of `BrokerClient_Process` in the static-memory build. -/
def checkTimeouts (L : StaticLimits) (now : Nat) (c : StaticClient) : TurnEnd :=
  if c.writePos ≠ 0 then .abandoned
  else if c.keepAliveSec > 0 then
    if now ≥ c.lastRx ∧ now - c.lastRx ≥ keepAliveDeadline c.keepAliveSec then .keepAliveTimeout else .goesOn
  else if !c.connected then
    if now ≥ c.lastRx ∧ now - c.lastRx > L.connectTimeoutSec then .connectTimeout else .goesOn
  else .goesOn

theorem checkTimeouts_keepAlive {L : StaticLimits} {now : Nat} {c : StaticClient}
    (h : checkTimeouts L now c = .keepAliveTimeout) : c.lastRx + keepAliveDeadline c.keepAliveSec ≤ now := by
  unfold checkTimeouts at h
  split_ifs at h
  omega

theorem checkTimeouts_connect {L : StaticLimits} {now : Nat} {c : StaticClient}
    (h : checkTimeouts L now c = .connectTimeout) : c.lastRx + L.connectTimeoutSec ≤ now := by
  unfold checkTimeouts at h
  split_ifs at h
  omega

/-- In the dynamic build a turn's end leaves every connection in place, unless a deadline has been reached. -/
theorem checkTimeouts_over {L : Limits} {b : MqttBroker} {a : Nat} {c : BrokerClient} (hc : b.client? a = some c)
    (hclosed : (Broker.checkTimeouts L a b).2.clients ≠ b.clients) :
    ∃ n, Reads b.env n ∧
      (0 < c.keepAliveSec ∧ c.lastRx + keepAliveDeadline c.keepAliveSec ≤ n ∨
        (c.connackPendingLen ≠ 0 ∨ c.connected = false) ∧ c.lastRx + L.connectTimeoutSec ≤ n) := by
  refine ⟨_, getTime_reads b.env, ?_⟩
  by_contra hnot
  refine hclosed ?_
  have hquiet {p : Nat → Prop} [DecidablePred p] (hp : ¬p b.env.getTime.1) (m : BrokerM Unit) :
      ((getTime >>= fun now => whenDo (p now) m) b).2.clients = b.clients := by
    rw [run_bind, whenDo, if_neg (show ¬p (getTime b).1 from hp)]
    rfl
  rw [Broker.checkTimeouts, run_bind, run_get]
  dsimp only
  rw [hc]
  dsimp only
  rw [run_ite]
  split
  · next hpend =>
    refine hquiet (p := fun now => now ≥ c.lastRx ∧ now - c.lastRx > L.connectTimeoutSec) ?_ _
    rintro ⟨hle, hgt⟩
    exact hnot (.inr ⟨.inl hpend, by omega⟩)
  rw [run_ite]
  split
  · next halive =>
    refine hquiet (p := fun now => now ≥ c.lastRx ∧ now - c.lastRx ≥ keepAliveDeadline c.keepAliveSec) ?_ _
    rintro ⟨hle, hge⟩
    exact hnot (.inl ⟨halive, by omega⟩)
  rw [run_ite]
  split
  · next hdown =>
    refine hquiet (p := fun now => now ≥ c.lastRx ∧ now - c.lastRx > L.connectTimeoutSec) ?_ _
    rintro ⟨hle, hgt⟩
    exact hnot (.inr ⟨.inr (by simpa using hdown), by omega⟩)
  · rfl

/-! ### A restart of the static build -/

section restart
variable {L : StaticLimits} {b : Persist.StaticLoad.Slots} {now : Nat}

/-- The passes over the store end, and what they have taken from it was over. -/
theorem pruneExpiredSessions_early {order : Nat → List Persist.Record → List Persist.Record}
    {queueOrder : Nat → Nat → List Persist.Record → List Persist.Record} (clock : Nat → Nat)
    (horder : ∀ i rs, (order i rs).Perm rs) (hqueue : ∀ i n rs, (queueOrder i n rs).Perm rs) {kv : Persist.Kv} {passes : Nat}
    (hkeys : ((kv .session).map Prod.fst).Nodup) (hpasses : (kv .session).length < passes) :
    ∃ res kv', Persist.StaticLoad.pruneExpiredSessions L order queueOrder clock passes 0 kv = some (res, kv') ∧
      ∀ r s, r ∈ kv .session → r ∉ kv' .session → r.2.length < 4294967296 → Persist.decodeSession r.2 = .ok s →
        ∃ i, Persist.StaticLoad.StoredOver (clock i) s := by
  obtain ⟨res, kv', hrun, -⟩ := Persist.StaticLoad.pruneExpiredSessions_ends horder hqueue passes 0 kv hpasses
  exact ⟨res, kv', hrun, fun r s hr hgone hblob hs =>
    Persist.StaticLoad.pruneExpiredSessions_over horder hblob hs passes 0 kv hkeys hr hrun hgone⟩

theorem staticRestoreSweep_early {order : Nat → Nat → List Persist.Record → List Persist.Record}
    (horder : ∀ i n rs, (order i n rs).Perm rs) (s : Persist.StaticLoad.Restored) :
    ∃ s', Persist.StaticLoad.restoreExpirySweep order now s = some s' ∧
      ∀ (k : Nat) (o : Persist.Load.SessionSlot), s.slots.sessions[k]? = some (some o) → s'.slots.sessions[k]? ≠ some (some o) →
        o.sessionExpirySec ≠ neverExpires ∧ o.orphanSince + o.sessionExpirySec ≤ now := by
  obtain ⟨s', hrun⟩ := Persist.StaticLoad.restoreExpirySweep_ends horder now s
  exact ⟨s', hrun, fun k o ho hgone =>
    Persist.StaticLoad.slotOver_iff.mp (Persist.StaticLoad.sweepSlots_over _ 0 s ho hrun hgone)⟩

end restart

/-! ### Both builds -/

/-- Whatever the clock reads, backward steps included, nothing is dropped for its age and no connection is closed for
its silence before a reading has reached the end of the interval. In the dynamic build: sessions, when the broker sweeps
and when it restarts; retained messages, when they are reaped and delivered, and their records; connections. In the
static build: sessions and their queued messages, retained messages, connections; and when it restarts, the records of
sessions, the sessions it reads back, and their slots. The tests take no more room than the machine has for a time. -/
theorem nothing_expires_early (L : StaticLimits) (hL : L.timeBits = 32 ∨ L.timeBits = 64) :
    (∀ b o, Reachable L.toLimits b → o ∈ b.orphanSessions → o ∉ (Broker.sweep b).2.orphanSessions →
      ∃ n, Reads b.env n ∧ SessionOver n o) ∧
    (∀ now b o, (b.orphanSessions.map Node.addr).Nodup → o ∈ b.orphanSessions →
      o ∉ (Persist.restoreExpirySweep now b.orphanSessions b).2.orphanSessions → SessionOver now o) ∧
    (∀ now b m, m ∈ b.retained → m ∉ (Broker.retainedReapExpired now b).2.retained → RetainedOver now m) ∧
    (∀ b a filter qos m, m ∈ b.retained → m ∉ (Broker.retainedDeliverToClient L.toLimits a filter qos b).2.retained →
      ∃ n, Reads b.env n ∧ RetainedOver n m) ∧
    (∀ now order passes kv m, (∀ rs, (order rs).Perm rs) → ((kv Persist.Ns.retained).map Prod.fst).Nodup →
      Persist.Storable L.toLimits m → Persist.retainedRecord m ∈ kv .retained →
      Persist.retainedRecord m ∉ Persist.purgeExpiredRetained L.toLimits now order passes kv .retained → RetainedOver now m) ∧
    (∀ b a c, b.client? a = some c → (Broker.checkTimeouts L.toLimits a b).2.clients ≠ b.clients →
      ∃ n, Reads b.env n ∧ (0 < c.keepAliveSec ∧ c.lastRx + keepAliveDeadline c.keepAliveSec ≤ n ∨
        (c.connackPendingLen ≠ 0 ∨ c.connected = false) ∧ c.lastRx + L.connectTimeoutSec ≤ n)) ∧
    (∀ now clients o, sweepSlot clients now (some o) = none →
      o.sessionExpirySec ≠ neverExpires ∧ o.orphanSince + o.sessionExpirySec ≤ now) ∧
    (∀ now o e, CarrierOk L o → e ∈ o.outQ.live → e ∉ (removeExpiredQueued now o).outQ.live → EntryOver now e) ∧
    (∀ now e, entryExpired now e = true → EntryOver now e) ∧
    (∀ now m, reapSlot now (some m) = none → RetainedOver now m) ∧
    (∀ filter now goesOn slots m, some m ∈ slots → some m ∉ (deliverLoop filter now goesOn slots).2 → RetainedOver now m) ∧
    (∀ now c, (checkTimeouts L now c = .keepAliveTimeout → c.lastRx + keepAliveDeadline c.keepAliveSec ≤ now) ∧
      (checkTimeouts L now c = .connectTimeout → c.lastRx + L.connectTimeoutSec ≤ now)) ∧
    (∀ now m, Persist.Storable L.toLimits m →
      Persist.retainedExpired L.toLimits now (Persist.retainedRecord m).2 = true → RetainedOver now m) ∧
    (∀ order queueOrder clock kv passes, (∀ i rs, (order i rs).Perm rs) → (∀ i n rs, (queueOrder i n rs).Perm rs) →
      ((kv Persist.Ns.session).map Prod.fst).Nodup → (kv .session).length < passes →
      ∃ res kv', Persist.StaticLoad.pruneExpiredSessions L order queueOrder clock passes 0 kv = some (res, kv') ∧
        ∀ r s, r ∈ kv .session → r ∉ kv' .session → r.2.length < 4294967296 → Persist.decodeSession r.2 = .ok s →
          ∃ i, Persist.StaticLoad.StoredOver (clock i) s) ∧
    (∀ now blob s b, blob.length < 4294967296 → Persist.decodeSession blob = .ok s →
      readByte blob (Persist.hdrLen + 1) = .ok Persist.sessionFlagExpiryValid → s.clientId ≠ [] →
      s.clientId.length < L.maxClientIdLen → none ∈ b.sessions →
      (Persist.StaticLoad.decodeAndInsertSession L now blob b).1 ≠ .ok () → Persist.StaticLoad.StoredOver now s) ∧
    (∀ order now s, (∀ i n rs, (order i n rs).Perm rs) →
      ∃ s', Persist.StaticLoad.restoreExpirySweep order now s = some s' ∧
        ∀ (k : Nat) (o : Persist.Load.SessionSlot), s.slots.sessions[k]? = some (some o) → s'.slots.sessions[k]? ≠ some (some o) →
          o.sessionExpirySec ≠ neverExpires ∧ o.orphanSince + o.sessionExpirySec ≤ now) ∧
    (∀ (now since : BitVec L.timeBits) (expiry : BitVec 32),
      (∀ o : OrphanSession, orphanExpired now.toNat {o with orphanSince := since.toNat, sessionExpirySec := expiry.toNat} =
          sweepTest now since expiry ∧ sweepTest now since expiry = restoreTest now since expiry) ∧
      (∀ o : Carrier, isExpired now.toNat {o with orphanSince := since.toNat, sessionExpirySec := expiry.toNat} =
        sweepTest now since expiry) ∧
      (∀ o : Persist.Load.SessionSlot,
        Persist.StaticLoad.slotOver now.toNat {o with orphanSince := since.toNat, sessionExpirySec := expiry.toNat} =
          restoreTest now since expiry) ∧
      (∀ (s : Persist.Load.SessionFields) (stored : BitVec 64),
        Persist.StaticLoad.sessionOver now.toNat {s with orphanSince := stored.toNat, expirySec := expiry.toNat} =
          storedSessionTest now stored expiry ∧
        (expiry ≠ 0 → Persist.StaticLoad.recordOver now.toNat expiry.toNat stored.toNat =
          storedSessionTest now stored expiry)) ∧
      (∀ m : RetainedMsg, retainedExpired now.toNat {m with storeTime := since.toNat, expirySec := expiry.toNat} =
        (decide (expiry.toNat > 0) && messageTest now since expiry)) ∧
      (∀ e : StaticOutPub, entryExpired now.toNat {e with enqTime := since.toNat, expirySec := expiry.toNat} =
        (!e.wasSent && e.hasExpiry && messageTest now since expiry)) ∧
      Persist.messageExpired L.toLimits now.toNat since.toNat expiry.toNat =
        storedRetainedTest now (since.setWidth 64) expiry ∧
      (∀ keepAlive : BitVec 16, keepAliveTest now since keepAlive =
        decide (now.toNat ≥ since.toNat ∧ now.toNat - since.toNat ≥ keepAliveDeadline keepAlive.toNat)) ∧
      ∀ timeout : BitVec L.timeBits, passed now since timeout =
        decide (now.toNat ≥ since.toNat ∧ now.toNat - since.toNat > timeout.toNat)) ∧
    ∀ k, 3 * k ≤ 2 * keepAliveDeadline k ∧ 2 * keepAliveDeadline k ≤ 3 * k + 1 := by
  have hbits : L.timeBits ≤ 64 := by omega
  have hbits' : 32 ≤ L.timeBits := by omega
  refine ⟨fun b o hb ho hgone => sweep_over hb ho hgone, fun now b o hnodup ho hgone => restoreExpirySweep_over hnodup ho hgone,
    fun now b m hm hgone => retainedReapExpired_over hm hgone,
    fun b a filter qos m hm hgone => retainedDeliverToClient_over a filter qos hm hgone,
    fun now order passes kv m horder hkeys hm hmem hgone =>
      purgeExpiredRetained_over horder passes hkeys hbits hm hmem hgone,
    fun b a c hc hclosed => checkTimeouts_over hc hclosed, fun now clients o h => sweepSlot_over h,
    fun now o e hok he hgone => removeExpiredFrom_over hok.cells 0 _ he hgone, fun now e h => entryOver_of_expired h,
    fun now m h => reapSlot_over h, fun filter now goesOn slots m hm hgone => deliverLoop_over hm hgone,
    fun now c => ⟨checkTimeouts_keepAlive, checkTimeouts_connect⟩, fun now m hm h => retainedOver_of_record hbits hm h,
    fun order queueOrder clock kv passes horder hqueue hkeys hpasses =>
      pruneExpiredSessions_early clock horder hqueue hkeys hpasses,
    fun now blob s b hblob hs hflags hid hfits hfree h =>
      Persist.StaticLoad.decodeAndInsertSession_over hblob hs hflags hid hfits hfree h,
    fun order now s horder => staticRestoreSweep_early horder s, fun now since expiry => ?_, keepAliveDeadline_ceil⟩
  refine ⟨fun o => ⟨orphanExpired_eq_sweepTest hbits' rfl rfl, ?_⟩, fun o => isExpired_eq_sweepTest hbits' rfl rfl,
    fun o => slotOver_eq_restoreTest hbits rfl rfl,
    fun s stored => ⟨sessionOver_eq_storedSessionTest hbits rfl rfl, fun hnz => recordOver_eq_storedSessionTest hbits hnz⟩,
    fun m => retainedExpired_eq_messageTest hbits' rfl rfl, fun e => entryExpired_eq_messageTest hbits' rfl rfl,
    messageExpired_eq_setWidth rfl hbits' hbits, fun keepAlive => keepAliveTest_eq hbits', fun timeout => passed_eq⟩
  exact (orphanExpired_eq_sweepTest (o := {o with orphanSince := since.toNat, sessionExpirySec := expiry.toNat}) hbits' rfl
    rfl).symm.trans (orphanExpired_eq_restoreTest hbits rfl rfl)

/-- A connection that was silent for a keep-alive of ten seconds and half as much again. -/
def silentBroker : MqttBroker where
  clients := [{addr := 1, lastRx := 5, keepAliveSec := 10, connected := true}]
  env := {now := 20}

/-- A session of one minute. -/
def oldCarrier : Carrier where
  clientId := [0x61]
  sessionExpirySec := 60
  orphanSince := 10
  outQ := ⟨[], 0⟩

/-- A session that is over at 70, and one that never is. -/
def restartKv : Persist.Kv :=
  Persist.putOrphanSession [0x62] 5 neverExpires 10 (Persist.putOrphanSession [0x61] 5 60 10 Persist.freshStore)

def endedRecord : Persist.Record := ([0x61], Persist.frameRecord .session (Persist.sessionBody [0x61] 5 60 10))

/-- They are closed and dropped at the end of their intervals. -/
theorem nothing_expires_early_ends :
    (Broker.checkTimeouts {} 1 silentBroker).2.clients = [] ∧ (∃ n, Reads silentBroker.env n ∧ 5 + 15 ≤ n) ∧
      sweepSlot [] 70 (some oldCarrier) = none ∧ oldCarrier.orphanSince + oldCarrier.sessionExpirySec ≤ 70 ∧
      ∃ kv', Persist.StaticLoad.pruneExpiredSessions {} (fun _ => id) (fun _ _ => id) (fun _ => 70) 3 0 restartKv =
          some (.ok (), kv') ∧
        (kv' .session).map Prod.fst = [[0x62]] ∧ 10 + 60 ≤ 70 := by
  have hclosed : (Broker.checkTimeouts {} 1 silentBroker).2.clients = [] := by decide +kernel
  have hdropped : sweepSlot [] 70 (some oldCarrier) = none := by decide +kernel
  have hpruned : (Persist.StaticLoad.pruneExpiredSessions {} (fun _ => id) (fun _ _ => id) (fun _ => 70) 3 0 restartKv).map
      (fun r => (r.1, (r.2 .session).map Prod.fst)) = some (.ok (), [[0x62]]) := by decide +kernel
  obtain ⟨-, -, -, -, -, htimeouts, hsweep, -, -, -, -, -, -, hprune, -⟩ := nothing_expires_early {} (.inr rfl)
  obtain ⟨n, hn, hdue⟩ := htimeouts silentBroker 1 _ rfl (by rw [hclosed]; decide)
  obtain ⟨res, kv', hrun, hearly⟩ := hprune (fun _ => id) (fun _ _ => id) (fun _ => 70) restartKv 3
    (fun _ rs => List.Perm.refl rs) (fun _ _ rs => List.Perm.refl rs) (by decide +kernel) (by decide +kernel)
  rw [hrun] at hpruned
  obtain ⟨rfl, hkeys⟩ := Prod.ext_iff.mp (Option.some.inj hpruned)
  refine ⟨hclosed, ⟨n, hn, ?_⟩, hdropped, (hsweep _ _ _ hdropped).2, kv', hrun, hkeys, ?_⟩
  · rcases hdue with ⟨-, hdue⟩ | ⟨hnot, -⟩
    · exact hdue
    · rcases hnot with hnot | hnot
      · exact absurd rfl hnot
      · cases hnot
  · have hgone : endedRecord ∉ kv' .session := by
      intro hmem
      have hkey := List.mem_map_of_mem (f := Prod.fst) hmem
      rw [show (kv' .session).map Prod.fst = [[0x62]] from hkeys] at hkey
      exact absurd hkey (by decide)
    obtain ⟨i, hover⟩ := hearly endedRecord ⟨[0x61], 5, 60, 10⟩ (by decide +kernel) hgone (by decide +kernel)
      (Persist.decodeSession_record (by decide) (by decide) (by decide) (by decide) (by decide))
    exact hover.2

end WolfMqtt.Static
