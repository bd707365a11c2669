import WolfMqtt.Persist.Phases

/-! A broker that restarts finds its sessions, subscriptions, queues and retained messages.

The restore is followed pass by pass (`restoreRecords_trail`) with the records in whatever
order the backend gives them. What expired while the broker was down is gone, and nothing
else is. -/
namespace WolfMqtt.Persist

open Broker

/-! ### What comes back -/

/-- Has the Session Expiry elapsed since the client went? A session stored with no time, or with time 0, was
stored while its client was connected. -/
def Session.expired (now : Nat) (s : Session) : Bool :=
  match s.since with
  | none => false
  | some t => t ≠ 0 && s.expirySec ≠ neverExpires && t + s.expirySec ≤ now

/-- A session as it comes back: its expiry starts now if its client was connected. -/
def Session.restored (now : Nat) (s : Session) : StoredSession :=
  {s.stored with orphanSince := if s.stored.orphanSince ≠ 0 then s.stored.orphanSince else now}

/-- What a slot says about its session. -/
def sessionOf (o : OrphanSession) : StoredSession :=
  {clientId := o.clientId, level := o.protocolLevel, expirySec := o.sessionExpirySec, orphanSince := o.orphanSince}

/-- Has the Message Expiry of a retained message elapsed? -/
def retainedOver (now : Nat) (m : RetainedMsg) : Bool := m.expirySec ≠ 0 && m.storeTime + m.expirySec ≤ now

/-- An empty broker that restores a snapshot. -/
def Snapshot.restart (L : Limits) (now : Nat) (order : List Record → List Record) (snap : Snapshot) : MqttBroker :=
  (restore L now order snap.store {env := {now}}).2

theorem messageExpired_eq {L : Limits} {m : RetainedMsg} (h : Storable L m) (now : Nat) :
    messageExpired L now m.storeTime m.expirySec = retainedOver now m := by
  have hmod : toTime L m.storeTime = m.storeTime := Nat.mod_eq_of_lt h.storeTime
  rw [messageExpired, retainedOver, hmod, Bool.and_assoc]
  congr 1
  rw [Bool.eq_iff_iff]
  simp only [Bool.and_eq_true, decide_eq_true_eq]
  omega

theorem sessionOf_stored {L : Limits} {s : Session} (h : s.Ok L) (now a : Nat) :
    sessionOf (orphanOfStored L now a s.stored) = s.restored now := by
  have htime : toTime L s.stored.orphanSince = s.stored.orphanSince := by
    refine Nat.mod_eq_of_lt ?_
    show s.since.getD 0 < 2 ^ L.timeBits
    cases hs : s.since with
    | none => exact Nat.two_pow_pos _
    | some t => exact h.since t hs
  simp only [sessionOf, orphanOfStored, Session.restored, htime]

/-- Has the expiry of a session elapsed since the time in its slot? -/
def StoredSession.overdue (now : Nat) (s : StoredSession) : Bool :=
  s.expirySec ≠ neverExpires && now ≥ s.orphanSince && now - s.orphanSince ≥ s.expirySec

theorem orphanExpired_eq (now : Nat) (o : OrphanSession) : orphanExpired now o = (sessionOf o).overdue now := rfl

theorem overdue_restored {L : Limits} {s : Session} (h : s.Ok L) (now : Nat) :
    (s.restored now).overdue now = s.expired now := by
  have hnz := h.persists
  have hsince : (s.restored now).orphanSince = if s.since.getD 0 ≠ 0 then s.since.getD 0 else now := rfl
  rw [StoredSession.overdue, Session.expired, hsince, show (s.restored now).expirySec = s.expirySec from rfl,
    Bool.eq_iff_iff]
  cases s.since with
  | none =>
    simp only [Option.getD_none, ne_eq, not_true_eq_false, if_false, Bool.and_eq_true, decide_eq_true_eq,
      Nat.sub_self, Bool.false_eq_true, iff_false]
    omega
  | some t =>
    by_cases ht : t = 0
    · simp only [ht, Option.getD_some, ne_eq, not_true_eq_false, if_false, Bool.and_eq_true, decide_eq_true_eq,
        Nat.sub_self, Bool.false_eq_true, decide_false, Bool.false_and, iff_false]
      omega
    · simp only [ht, Option.getD_some, ne_eq, not_false_eq_true, if_true, Bool.and_eq_true, decide_eq_true_eq,
        decide_true, true_and]
      omega

/-! ### Before the sweep -/

theorem orphansFrom_addrs (L : Limits) (now a : Nat) (ss : List Session) :
    (orphansFrom L now a ss).map Node.addr = List.range' a ss.length := by
  induction ss generalizing a with
  | nil => rfl
  | cons s ss ih =>
    rw [orphansFrom, List.map_cons, ih]
    rfl

theorem orphansFrom_sessions {L : Limits} (now a : Nat) (ss : List Session) (hok : ∀ s ∈ ss, s.Ok L) :
    (orphansFrom L now a ss).map sessionOf = ss.map (·.restored now) := by
  induction ss generalizing a with
  | nil => rfl
  | cons s ss ih =>
    rw [orphansFrom, List.map_cons, sessionOf_stored (hok s List.mem_cons_self),
      ih (a + 1) (fun t ht => hok t (List.mem_cons_of_mem s ht)), List.map_cons]

theorem orphansFrom_empty (L : Limits) (now a : Nat) (ss : List Session) :
    ∀ o ∈ orphansFrom L now a ss, o.outQ = {} := by
  induction ss generalizing a with
  | nil => intro o ho; cases ho
  | cons s ss ih =>
    intro o ho
    rcases List.mem_cons.mp ho with rfl | ho
    · rfl
    · exact ih (a + 1) o ho

/-- A broker that has read the records of a snapshot, and has yet to drop what expired. -/
structure Loaded (now : Nat) (snap : Snapshot) (b : MqttBroker) : Prop where
  addrs : (b.orphanSessions.map Node.addr).Nodup
  sessions : (b.orphanSessions.map sessionOf).Perm (snap.sessions.map (·.restored now))
  queues : ∀ o ∈ b.orphanSessions, ∃ es : List OutPub, es.Perm (entriesOf o.clientId snap.queueEntries) ∧ Queued o es
  subs : ∃ ss : List Session, ss.Perm snap.subscribed ∧ b.subs = ss.flatMap Session.offlineSubs
  retained : b.retained.Perm (snap.retained.filter (fun m => !retainedOver now m))

/-- The entries of all queues: two of one client differ in their sequence. -/
theorem Snapshot.Ok.queue_seqs {L : Limits} {snap : Snapshot} (h : snap.Ok L) :
    snap.queueEntries.Pairwise (fun x y => x.1 = y.1 → x.2.enqueueSeq ≠ y.2.enqueueSeq) := by
  refine List.pairwise_flatMap.mpr ⟨?_, ?_⟩
  · intro s hs
    refine List.pairwise_map.mpr ((h.sessions s hs).ordered.imp ?_)
    intro x y hlt _
    exact Nat.ne_of_lt hlt
  · refine (List.pairwise_map.mp h.ids).imp ?_
    intro s t hst x hx y hy hxy
    obtain ⟨e, -, rfl⟩ := List.mem_map.mp hx
    obtain ⟨f, -, rfl⟩ := List.mem_map.mp hy
    exact absurd hxy hst

theorem entriesOf_perm (clientId : Bytes) {xs ys : List (Bytes × OutPub)} (h : xs.Perm ys) :
    (entriesOf clientId xs).Perm (entriesOf clientId ys) := (h.filter _).map _

theorem Holding.subs {b₀ b : MqttBroker} {done : List (Bytes × OutPub)} (h : Holding b₀ done b) : b.subs = b₀.subs := by
  have := congrArg MqttBroker.subs h.rest
  exact this

theorem Holding.retained {b₀ b : MqttBroker} {done : List (Bytes × OutPub)} (h : Holding b₀ done b) :
    b.retained = b₀.retained := by
  have := congrArg MqttBroker.retained h.rest
  exact this

theorem Holding.start {b : MqttBroker} (h : ∀ o ∈ b.orphanSessions, o.outQ = {}) : Holding b [] b := by
  refine ⟨rfl, rfl, ?_, ?_⟩
  · intro o ho e he
    rw [h o ho] at he
    cases he
  · intro o ho
    refine ⟨?_, ?_, ?_⟩ <;> rw [h o ho]
    · exact TailQueue.empty_wf
    · exact .nil
    · exact .refl _

/-- The messages whose records the purge leaves: all that have not expired are among them. -/
theorem Snapshot.Ok.read_retained {L : Limits} {snap : Snapshot} (h : snap.Ok L) {now : Nat} {kv : Kv}
    (hpurged : Purged L now snap.store kv) {rs : List Record} (hrs : rs.Perm (kv .retained)) :
    ∃ ms : List RetainedMsg, rs = ms.map retainedRecord ∧ ms.length ≤ snap.retained.length ∧ (∀ m ∈ ms, m ∈ snap.retained) ∧
      (ms.filter (fun m => !messageExpired L now m.storeTime m.expirySec)).Perm
        (snap.retained.filter (fun m => !retainedOver now m)) := by
  obtain ⟨keep, hkeep, hall⟩ := hpurged.kept
  rw [h.store_eq, freshStore_apply, if_neg (by decide), List.nil_append, Snapshot.recordsOf] at hkeep hall
  rw [List.filter_map] at hkeep
  rw [hkeep] at hrs
  obtain ⟨ms, hms, hmsEq⟩ := exists_perm_of_map retainedRecord hrs
  refine ⟨ms, hmsEq, ?_, fun m hm => List.mem_of_mem_filter (hms.subset hm), ?_⟩
  · rw [hms.length_eq]
    exact List.length_filter_le _ _
  · refine (hms.filter _).trans (List.Perm.of_eq ?_)
    rw [List.filter_filter]
    refine List.filter_congr ?_
    intro m hm
    have hok := h.retained m hm
    rw [messageExpired_eq hok]
    cases hover : retainedOver now m with
    | true => rfl
    | false =>
      have hexp : retainedExpired L now (retainedRecord m).2 = false := by
        rw [retainedRecord, retainedExpired_record h.time hok, messageExpired_eq hok, hover]
      exact hall _ (List.mem_map_of_mem hm) hexp

/-- The passes over the records, in whatever order the backend gives them. -/
theorem Snapshot.Ok.loaded {L : Limits} {snap : Snapshot} (h : snap.Ok L) (now : Nat) (order : List Record → List Record)
    (horder : ∀ rs, (order rs).Perm rs) :
    ∃ b, Loaded now snap b ∧ snap.restart L now order = (restoreExpirySweep now b.orphanSessions b).2 := by
  have hrecords (ns : Ns) (hns : ns ≠ .meta) : snap.store ns = snap.recordsOf ns := by
    rw [h.store_eq, freshStore_apply, if_neg hns, List.nil_append]
  have hread (ns : Ns) (hns : ns ≠ .meta) : (order (snap.store ns)).Perm (snap.recordsOf ns) := by
    rw [← hrecords ns hns]
    exact horder _
  -- the sessions
  obtain ⟨ss, hss, hssEq⟩ := exists_perm_of_map Session.record (hread .session (by decide))
  have hssOk : ∀ s ∈ ss, s.Ok L := fun s hs => h.sessions s (hss.subset hs)
  have hsessions := iterSessions_ok h.time now [] ss hssOk {env := {now}} rfl (by
    rw [hss.length_eq]
    have := h.sessionCount
    show (0 : Int) + _ ≤ _
    omega)
  generalize hb₁ : MqttBroker.withOrphans ({env := {now}} : MqttBroker) _ = b₁ at hsessions
  have hos : b₁.orphanSessions = (orphansFrom L now 1 ss).reverse := by
    rw [← hb₁]
    exact List.append_nil _
  -- the retained messages that the purge leaves
  have hpurged := purgeExpiredRetained_purged L now order horder retainedPurgePasses snap.store (by
    rw [hrecords .retained (by decide)]
    exact h.keys .retained (by decide))
  generalize hkv : purgeExpiredRetained L now order retainedPurgePasses snap.store = kv at hpurged
  obtain ⟨ms, hmsEq, hmsLen, hmsMem, hms⟩ := h.read_retained hpurged (horder (kv .retained))
  have hretained := iterRetained_ok h.time now ms (fun m hm => h.retained m (hmsMem m hm)) b₁ (by rw [← hb₁]; rfl) (by
    have := h.retainedCount
    rw [← hb₁]
    show (0 : Int) + _ ≤ _
    omega)
  generalize hb₂ : MqttBroker.withRetained b₁ _ = b₂ at hretained
  -- the subscriptions, whose sessions are all there
  obtain ⟨ts, hts, htsEq⟩ := exists_perm_of_map Session.subsRecord (hread .subs (by decide))
  rw [← hpurged.others .subs (by decide)] at htsEq
  have hids : b₁.orphanSessions.map (·.clientId) = (ss.map (·.clientId)).reverse := by
    have := congrArg (List.map StoredSession.clientId) (orphansFrom_sessions now 1 ss hssOk)
    rw [List.map_map, List.map_map] at this
    rw [hos, List.map_reverse]
    exact congrArg List.reverse this
  have howner : ∀ s ∈ snap.sessions, s.clientId ∈ b₁.orphanSessions.map (·.clientId) := by
    intro s hs
    rw [hids, List.mem_reverse]
    exact List.mem_map_of_mem (hss.symm.subset hs)
  have hsubs := iterSubs_ok ts (fun s hs => h.sessions s (List.mem_of_mem_filter (hts.subset hs))) b₂
    (by rw [← hb₂, ← hb₁]; rfl) (by
      intro s hs
      obtain ⟨o, ho, hid⟩ := List.mem_map.mp (howner s (List.mem_of_mem_filter (hts.subset hs)))
      refine List.find?_isSome.mpr ⟨o, ?_, decide_eq_true hid⟩
      rw [← hb₂]
      exact ho)
  generalize hb₃ : MqttBroker.withSubs b₂ ts = b₃ at hsubs
  have hos₃ : b₃.orphanSessions = b₁.orphanSessions := by
    rw [← hb₃, ← hb₂]
    rfl
  -- the queues
  obtain ⟨xs, hxs, hxsEq⟩ := exists_perm_of_map queueRecord (hread .outq (by decide))
  rw [← hpurged.others .outq (by decide)] at hxsEq
  have hqueues := Holding.iter h.time (by rw [← hb₃, ← hb₂, ← hb₁]; rfl)
    (by
      rw [hos₃, hos, List.map_reverse, orphansFrom_addrs, List.nodup_reverse]
      exact List.nodup_range')
    (by
      rw [hos₃, hids, List.nodup_reverse]
      exact (hss.map _).nodup_iff.mpr h.ids)
    xs [] b₃ (Holding.start (by
      rw [hos₃, hos]
      exact fun o ho => orphansFrom_empty L now 1 ss o (List.mem_reverse.mp ho)))
    (by
      intro x hx
      obtain ⟨s, hs, hxs⟩ := List.mem_flatMap.mp (hxs.subset hx)
      obtain ⟨e, he, rfl⟩ := List.mem_map.mp hxs
      rw [hos₃]
      exact ⟨(h.sessions s hs).queue e he, howner s hs⟩)
    (by
      rw [List.nil_append]
      exact hxs.symm.pairwise h.queue_seqs (fun hxy heq hseq => hxy heq.symm hseq.symm))
  rw [List.nil_append] at hqueues
  generalize hb₄ : (iterRecords (decodeAndInsertOutq L) (xs.map queueRecord) b₃).2 = b₄ at hqueues
  refine ⟨b₄, ⟨?_, ?_, ?_, ⟨ts.reverse, ?_, ?_⟩, ?_⟩, ?_⟩
  · rw [hqueues.addrs, hos₃, hos, List.map_reverse, orphansFrom_addrs, List.nodup_reverse]
    exact List.nodup_range'
  · have hsame : b₄.orphanSessions.map sessionOf = b₃.orphanSessions.map sessionOf := hqueues.map_core sessionOf
    rw [hsame, hos₃, hos, List.map_reverse, orphansFrom_sessions now 1 ss hssOk]
    exact (List.reverse_perm _).trans (hss.map _)
  · intro o ho
    exact ⟨_, entriesOf_perm o.clientId hxs, hqueues.queued o ho⟩
  · exact (List.reverse_perm ts).trans hts
  · rw [hqueues.subs, ← hb₃, ← hb₂, ← hb₁]
    exact List.append_nil _
  · rw [hqueues.retained, ← hb₃, ← hb₂, ← hb₁]
    refine .trans (.of_eq (List.append_nil _)) ((List.reverse_perm _).trans hms)
  · rw [Snapshot.restart, restore, h.metaCheck]
    show (restoreRecords L now order snap.store _).2 = _
    rw [restoreRecords, run_bind, hssEq, hsessions]
    dsimp only
    rw [show restoreDropEnded [] snap.store = snap.store from rfl, hkv, run_bind, hmsEq, hretained]
    dsimp only
    rw [run_bind, htsEq, hsubs]
    dsimp only
    rw [run_bind, hxsEq, hb₄, run_bind, run_get]

/-! ### The restored broker -/

/-- Of values that belong to sessions, none belongs to a client without a session. -/
theorem filter_flatMap_none {γ : Type} (f : Session → List γ) (mine : γ → Bool) (clientId : Bytes) (ss : List Session)
    (hmine : ∀ t, ∀ x ∈ f t, mine x = decide (t.clientId = clientId)) (hids : clientId ∉ ss.map (·.clientId)) :
    (ss.flatMap f).filter mine = [] := by
  refine List.filter_eq_nil_iff.mpr ?_
  intro x hx
  obtain ⟨t, ht, hxt⟩ := List.mem_flatMap.mp hx
  rw [hmine t x hxt, decide_eq_true_eq]
  rintro rfl
  exact hids (List.mem_map_of_mem ht)

/-- Those of one client are those of its session. -/
theorem filter_flatMap_session {γ : Type} (f : Session → List γ) (mine : γ → Bool) (ss : List Session) (s : Session)
    (hmine : ∀ t, ∀ x ∈ f t, mine x = decide (t.clientId = s.clientId)) (hids : (ss.map (·.clientId)).Nodup)
    (hs : s ∈ ss) : (ss.flatMap f).filter mine = f s := by
  obtain ⟨before, after, rfl⟩ := List.append_of_mem hs
  rw [List.map_append, List.map_cons, List.nodup_append, List.nodup_cons] at hids
  obtain ⟨-, ⟨hafter, -⟩, hbefore⟩ := hids
  rw [List.flatMap_append, List.flatMap_cons, List.filter_append, List.filter_append,
    filter_flatMap_none f mine s.clientId before hmine, filter_flatMap_none f mine s.clientId after hmine hafter,
    List.filter_eq_self.mpr]
  · exact List.append_nil _
  · intro x hx
    rw [hmine s x hx]
    exact decide_eq_true rfl
  · intro hmem
    exact hbefore s.clientId hmem s.clientId List.mem_cons_self rfl

theorem Snapshot.Ok.entriesOf_queue {L : Limits} {snap : Snapshot} (h : snap.Ok L) {s : Session} (hs : s ∈ snap.sessions) :
    entriesOf s.clientId snap.queueEntries = s.queue := by
  rw [entriesOf, Snapshot.queueEntries, filter_flatMap_session Session.queueEntries _ _ s ?_ h.ids hs]
  · rw [Session.queueEntries, List.map_map]
    exact List.map_id _
  · intro t x hx
    obtain ⟨e, -, rfl⟩ := List.mem_map.mp hx
    rfl

/-- Each restored slot comes from a session. -/
theorem Loaded.origin {now : Nat} {snap : Snapshot} {b : MqttBroker} (h : Loaded now snap b) {o : OrphanSession}
    (ho : o ∈ b.orphanSessions) : ∃ s ∈ snap.sessions, s.restored now = sessionOf o :=
  List.mem_map.mp (h.sessions.subset (List.mem_map_of_mem ho))

theorem Loaded.slot {now : Nat} {snap : Snapshot} {b : MqttBroker} (h : Loaded now snap b) {s : Session}
    (hs : s ∈ snap.sessions) : ∃ o ∈ b.orphanSessions, sessionOf o = s.restored now :=
  List.mem_map.mp (h.sessions.symm.subset (List.mem_map_of_mem hs))

/-- Sessions of one snapshot with the same client id are the same. -/
theorem Snapshot.Ok.session_eq {L : Limits} {snap : Snapshot} (h : snap.Ok L) {s t : Session} (hs : s ∈ snap.sessions)
    (ht : t ∈ snap.sessions) (heq : s.clientId = t.clientId) : s = t := List.inj_on_of_nodup_map h.ids hs ht heq

/-- The expiry of a slot is that of its session. -/
theorem Loaded.expired {L : Limits} {now : Nat} {snap : Snapshot} {b : MqttBroker} (h : Loaded now snap b)
    (hok : snap.Ok L) {o : OrphanSession} (ho : o ∈ b.orphanSessions) {s : Session} (hs : s ∈ snap.sessions)
    (hid : o.clientId = s.clientId) : orphanExpired now o = s.expired now := by
  obtain ⟨t, ht, hto⟩ := h.origin ho
  have hts : t = s := hok.session_eq ht hs ((congrArg StoredSession.clientId hto).trans hid)
  subst hts
  rw [orphanExpired_eq, ← hto, overdue_restored (hok.sessions t ht)]

/-- The subscriptions of a client are those of its session. -/
theorem Loaded.subs_of {L : Limits} {now : Nat} {snap : Snapshot} {b : MqttBroker} (h : Loaded now snap b)
    (hok : snap.Ok L) {s : Session} (hs : s ∈ snap.sessions) :
    b.subs.filter (fun x => x.clientId = some s.clientId) = s.offlineSubs := by
  obtain ⟨ts, hts, hsubs⟩ := h.subs
  have hmine : ∀ t : Session, ∀ x ∈ t.offlineSubs,
      decide (x.clientId = some s.clientId) = decide (t.clientId = s.clientId) := by
    intro t x hx
    obtain ⟨y, -, rfl⟩ := List.mem_map.mp hx
    simp [offlineSub]
  rw [hsubs]
  by_cases hnil : s.subs = []
  · have hout : s.clientId ∉ ts.map (·.clientId) := by
      intro hmem
      obtain ⟨t, ht, hid⟩ := List.mem_map.mp hmem
      obtain ⟨htsnap, hne⟩ := List.mem_filter.mp (hts.subset ht)
      rw [hok.session_eq htsnap hs hid] at hne
      exact of_decide_eq_true hne hnil
    rw [filter_flatMap_none Session.offlineSubs _ s.clientId ts hmine hout, Session.offlineSubs, hnil]
    rfl
  · refine filter_flatMap_session Session.offlineSubs _ ts s hmine ?_ ?_
    · exact (hts.map _).nodup_iff.mpr (hok.ids.sublist (List.filter_sublist.map _))
    · exact hts.symm.subset (List.mem_filter.mpr ⟨hs, decide_eq_true hnil⟩)

/-- The sweep drops the subscriptions of a client exactly if its session is over. -/
theorem Loaded.sweeps {L : Limits} {now : Nat} {snap : Snapshot} {b : MqttBroker} (h : Loaded now snap b)
    (hok : snap.Ok L) {s : Session} (hs : s ∈ snap.sessions) {x : BrokerSub} (hx : x.clientId = some s.clientId)
    (hoff : x.client = none) :
    b.orphanSessions.any (fun o => orphanExpired now o && (x.client.isNone && x.clientId = some o.clientId)) =
      s.expired now := by
  rw [Bool.eq_iff_iff, List.any_eq_true]
  constructor
  · rintro ⟨o, ho, hboth⟩
    obtain ⟨hover, hsub⟩ := Bool.and_eq_true_iff.mp hboth
    have hid : x.clientId = some o.clientId := of_decide_eq_true (Bool.and_eq_true_iff.mp hsub).2
    rw [hx] at hid
    rw [← h.expired hok ho hs (Option.some.inj hid).symm]
    exact hover
  · intro hexp
    obtain ⟨o, ho, hos⟩ := h.slot hs
    have hid : o.clientId = s.clientId := congrArg StoredSession.clientId hos
    refine ⟨o, ho, ?_⟩
    rw [h.expired hok ho hs hid, hexp, hx, hoff, hid]
    simp

/-- Every subscription is that of a session. -/
theorem Loaded.sub_origin {now : Nat} {snap : Snapshot} {b : MqttBroker} (h : Loaded now snap b) {x : BrokerSub}
    (hx : x ∈ b.subs) : ∃ s ∈ snap.sessions, x ∈ s.offlineSubs ∧ x.clientId = some s.clientId ∧ x.client = none := by
  obtain ⟨ts, hts, hsubs⟩ := h.subs
  rw [hsubs] at hx
  obtain ⟨t, ht, hxt⟩ := List.mem_flatMap.mp hx
  refine ⟨t, List.mem_of_mem_filter (hts.subset ht), hxt, ?_⟩
  obtain ⟨y, -, rfl⟩ := List.mem_map.mp hxt
  exact ⟨rfl, rfl⟩

/-- A restart brings back the sessions, subscriptions and retained messages that have not expired, and only these.
A session stored with a disconnect time of 0 counts as one whose client was connected. -/
theorem restart_state (L : Limits) (now : Nat) (order : List Record → List Record) (snap : Snapshot) (h : snap.Ok L)
    (horder : ∀ rs, (order rs).Perm rs) :
    ((snap.restart L now order).orphanSessions.map sessionOf).Perm
        ((snap.sessions.filter (fun s => !s.expired now)).map (·.restored now)) ∧
      (∀ s ∈ snap.sessions, s.expired now = false →
        (snap.restart L now order).subs.filter (fun x => x.clientId = some s.clientId) = s.offlineSubs) ∧
      (∀ x ∈ (snap.restart L now order).subs, ∃ s ∈ snap.sessions, s.expired now = false ∧ x ∈ s.offlineSubs) ∧
      (snap.restart L now order).retained.Perm (snap.retained.filter (fun m => !retainedOver now m)) := by
  obtain ⟨b, hb, heq⟩ := h.loaded now order horder
  have hswept := restoreExpirySweep_swept now b.orphanSessions b hb.addrs
  rw [heq]
  generalize (restoreExpirySweep now b.orphanSessions b).2 = b' at hswept
  refine ⟨?_, ?_, ?_, ?_⟩
  · have hsame : b'.orphanSessions.map sessionOf =
        (b.orphanSessions.map sessionOf).filter (fun s => !s.overdue now) := by
      rw [hswept.all hb.addrs, List.filter_map]
      rfl
    rw [hsame]
    refine (hb.sessions.filter _).trans (.of_eq ?_)
    rw [List.filter_map]
    refine congrArg _ (List.filter_congr ?_)
    intro s hs
    show (!(s.restored now).overdue now) = _
    rw [overdue_restored (h.sessions s hs)]
  · intro s hs hexp
    rw [← hb.subs_of h hs, hswept.subs, List.filter_filter]
    refine List.filter_congr ?_
    intro x hx
    by_cases hid : x.clientId = some s.clientId
    · obtain ⟨t, -, -, -, hoff⟩ := hb.sub_origin hx
      rw [hb.sweeps h hs hid hoff, hexp]
      simp
    · simp [hid]
  · intro x hx
    rw [hswept.subs] at hx
    obtain ⟨hxb, hkept⟩ := List.mem_filter.mp hx
    obtain ⟨s, hs, hxs, hid, hoff⟩ := hb.sub_origin hxb
    rw [hb.sweeps h hs hid hoff] at hkept
    exact ⟨s, hs, Bool.not_eq_true' _ ▸ hkept, hxs⟩
  · rw [hswept.retained]
    exact hb.retained

/-- A session stored while its client was connected, one with a queue, and two retained messages. -/
def sampleSnapshot : Snapshot where
  sessions := [
    {clientId := [0x61], level := 4, expirySec := neverExpires, since := none, subs := [([0x74], .qos1)], queue := []},
    {clientId := [0x62], level := 5, expirySec := 60, since := some 10, subs := [([0x75], .qos0)],
      queue := [
        {addr := 7, topic := [0x75], payload := [1], qos := .qos1, packetId := 3, retain := false, state := .publishSent,
          retransmitDup := true, enqTime := 12, enqueueSeq := 1, expirySec := 0, protocolLevel := 5,
          props := [{type := .contentType, dataStr := [0x6a]}]}]}]
  retained := [
    {topic := [0x74], payload := [1], storeTime := 5, expirySec := 10, qos := .qos1},
    {topic := [0x75], payload := [2], storeTime := 5, expirySec := 0, qos := .qos2}]

theorem sampleSnapshot_ok : sampleSnapshot.Ok {} := by
  have hqueue : ∀ s ∈ sampleSnapshot.sessions, ∀ e ∈ s.queue, Queueable {} e := by
    intro s hs e he
    simp only [sampleSnapshot, List.mem_cons, List.not_mem_nil, or_false] at hs
    rcases hs with rfl | rfl
    · cases he
    · rw [List.mem_singleton.mp he]
      exact ⟨by decide, by decide, by decide, by decide, by decide, by decide, by decide, by decide, by decide⟩
  refine ⟨by decide, ?_, by decide, by decide, ?_, by decide, by decide⟩
  · intro s hs
    have hq := hqueue s hs
    simp only [sampleSnapshot, List.mem_cons, List.not_mem_nil, or_false] at hs
    rcases hs with rfl | rfl
    · exact ⟨by decide, by decide, by decide, by decide, by decide, by simp, by decide, by decide,
        by decide, by decide, hq, by decide, by decide⟩
    · refine ⟨by decide, by decide, by decide, by decide, by decide, ?_, by decide, by decide, by decide, by decide, hq,
        by decide, by decide⟩
      rintro t ht
      rw [← Option.some.inj ht]
      decide
  · intro m hm
    simp only [sampleSnapshot, List.mem_cons, List.not_mem_nil, or_false] at hm
    rcases hm with rfl | rfl
    · exact ⟨by decide, by decide, by decide, by decide, by decide⟩
    · exact ⟨by decide, by decide, by decide, by decide, by decide⟩

/-- At time 60 one message has expired, and no session. -/
theorem restart_state_sample :
    sampleSnapshot.sessions.filter (fun s => !s.expired 60) = sampleSnapshot.sessions ∧
      ((sampleSnapshot.restart {} 60 List.reverse).orphanSessions.map sessionOf).Perm
        (sampleSnapshot.sessions.map (·.restored 60)) ∧
      (sampleSnapshot.restart {} 60 List.reverse).retained.Perm (sampleSnapshot.retained.drop 1) := by
  have hall : sampleSnapshot.sessions.filter (fun s => !s.expired 60) = sampleSnapshot.sessions := by decide
  obtain ⟨hsessions, -, -, hretained⟩ :=
    restart_state {} 60 List.reverse sampleSnapshot sampleSnapshot_ok List.reverse_perm
  rw [hall] at hsessions
  exact ⟨hall, hsessions, hretained⟩

/-- A disconnect time of 0 stands for a connected client, so a client that went at time 0 has gone at time 50 when
the broker restarts then. -/
theorem restart_timeZero :
    (Snapshot.restart {} 50 id
      {sessions := [{clientId := [0x61], level := 5, expirySec := 60, since := some 0, subs := [], queue := []}],
        retained := []}).orphanSessions.map sessionOf =
      [{clientId := [0x61], level := 5, expirySec := 60, orphanSince := 50}] := by
  decide +kernel

/-! ### Queues -/

/-- A restart brings back the queue of every session that has not expired, in its order, every entry with all that
its record has. -/
theorem restart_queue (L : Limits) (now : Nat) (order : List Record → List Record) (snap : Snapshot) (h : snap.Ok L)
    (horder : ∀ rs, (order rs).Perm rs) (s : Session) (hs : s ∈ snap.sessions) (hlive : s.expired now = false) :
    ∃ o, orphanFind (snap.restart L now order) s.clientId = some o ∧ o.outQ.WF ∧
      o.outQ.chain.map bare = s.queue.map (restoredEntry 0) := by
  obtain ⟨b, hb, heq⟩ := h.loaded now order horder
  have hswept := (restoreExpirySweep_swept now b.orphanSessions b hb.addrs).all hb.addrs
  rw [heq]
  generalize (restoreExpirySweep now b.orphanSessions b).2 = b' at hswept
  obtain ⟨o, ho, hos⟩ := hb.slot hs
  have hmem : o ∈ b'.orphanSessions := by
    rw [hswept, List.mem_filter, hb.expired h ho hs (congrArg StoredSession.clientId hos), hlive]
    exact ⟨ho, rfl⟩
  obtain ⟨o', hfind⟩ : ∃ o', orphanFind b' s.clientId = some o' :=
    Option.isSome_iff_exists.mp (List.find?_isSome.mpr
      ⟨o, hmem, decide_eq_true (congrArg StoredSession.clientId hos)⟩)
  have ho' : o' ∈ b.orphanSessions := by
    have hmem' := List.mem_of_find?_eq_some hfind
    rw [hswept] at hmem'
    exact List.mem_of_mem_filter hmem'
  have hid : o'.clientId = s.clientId := by simpa using List.find?_some hfind
  obtain ⟨es, hes, hq⟩ := hb.queues o' ho'
  rw [hid, h.entriesOf_queue hs] at hes
  have hordered : (o'.outQ.chain.map bare).Pairwise (fun x y => x.enqueueSeq < y.enqueueSeq) :=
    List.pairwise_map.mpr hq.ordered
  have hqueue : (s.queue.map (restoredEntry 0)).Pairwise (fun x y => x.enqueueSeq < y.enqueueSeq) :=
    List.pairwise_map.mpr (h.sessions s hs).ordered
  -- two rearrangements of each other in the order of one sequence
  refine ⟨o', hfind, hq.wf, List.Perm.eq_of_pairwise ?_ hordered hqueue (hq.entries.trans (hes.map _))⟩
  intro x y _ _ hxy hyx
  exact absurd hxy (Nat.lt_asymm hyx)

theorem restart_queue_sample : ∃ s ∈ sampleSnapshot.sessions, s.clientId = [0x62] ∧ s.expired 60 = false ∧
    ∃ o, orphanFind (sampleSnapshot.restart {} 60 List.reverse) s.clientId = some o ∧ o.outQ.WF ∧
      o.outQ.chain.map bare = s.queue.map (restoredEntry 0) := by
  refine ⟨_, List.mem_cons_of_mem _ List.mem_cons_self, rfl, rfl, ?_⟩
  exact restart_queue {} 60 List.reverse sampleSnapshot sampleSnapshot_ok List.reverse_perm _
    (List.mem_cons_of_mem _ List.mem_cons_self) rfl

/-- The properties of an entry have no place in its record. -/
theorem restart_drops_props : ∃ s ∈ sampleSnapshot.sessions, s.expired 60 = false ∧
    (orphanFind (sampleSnapshot.restart {} 60 id) s.clientId).map (fun o => o.outQ.chain.map (·.props)) = some [[]] ∧
    s.queue.map (·.props) = [[{type := .contentType, dataStr := [0x6a]}]] := by
  refine ⟨_, List.mem_cons_of_mem _ List.mem_cons_self, rfl, ?_, rfl⟩
  decide +kernel

end WolfMqtt.Persist
