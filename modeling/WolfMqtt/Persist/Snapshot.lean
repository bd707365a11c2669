import WolfMqtt.Persist.RoundTrip
import Mathlib.Tactic

/-! What a broker leaves in its store.

A `Snapshot` is what a broker holds that outlives it. The Put functions write a record for
each part of it; no two records of a namespace share a key, so the store holds exactly
these, whatever the order of the calls. -/
namespace WolfMqtt.Persist

open Broker

/-! ### Snapshots -/

/-- A session that outlives its connection. -/
structure Session where
  clientId : Bytes
  level : Nat
  expirySec : Nat
  /-- When its client disconnected, unless it is connected. -/
  since : Option Nat
  subs : List (Bytes × QoS)
  queue : List OutPub
deriving Repr, DecidableEq

structure Snapshot where
  sessions : List Session
  retained : List RetainedMsg
deriving Repr, DecidableEq

def Session.offlineSubs (s : Session) : List BrokerSub := s.subs.map (fun x => offlineSub s.clientId x.1 x.2)

/-- A session within the limits of its records: the widths of its fields, a client id that fits into a queue key
if there is a queue, packet identifiers of their own, and entries in the order of their sequence. -/
structure Session.Ok (L : Limits) (s : Session) : Prop where
  named : s.clientId ≠ []
  idLen : s.clientId.length < 65536
  level : s.level < 256
  expiry : s.expirySec < 256 ^ 4
  persists : s.expirySec ≠ 0
  since : ∀ t, s.since = some t → t < 2 ^ L.timeBits
  subCount : s.subs.length < 65536
  filters : ∀ x ∈ s.subs, x.1.length < 65536
  subsLen : (subsBody s.offlineSubs).length < 256 ^ 4
  queueKey : s.queue ≠ [] → s.clientId.length ≤ maxKeyClientId
  queue : ∀ e ∈ s.queue, Queueable L e
  packetIds : (s.queue.map (·.packetId)).Nodup
  ordered : s.queue.Pairwise (fun x y => x.enqueueSeq < y.enqueueSeq)

/-- A snapshot within the limits of the build. -/
structure Snapshot.Ok (L : Limits) (snap : Snapshot) : Prop where
  time : L.timeBits ≤ 64
  sessions : ∀ s ∈ snap.sessions, s.Ok L
  ids : (snap.sessions.map (·.clientId)).Nodup
  sessionCount : snap.sessions.length ≤ L.maxPersistSessions
  retained : ∀ m ∈ snap.retained, Storable L m
  topics : (snap.retained.map (·.topic)).Nodup
  retainedCount : snap.retained.length ≤ L.maxRetained

/-! ### What is written -/

def Session.putOp (s : Session) : PersistOp :=
  match s.since with
  | none => .putSession s.clientId s.level s.expirySec
  | some t => .putOrphanSession s.clientId s.level s.expirySec t

/-- The calls that store a session. Without subscriptions there is no record of them. -/
def Session.ops (s : Session) : List PersistOp :=
  s.putOp :: ((if s.subs = [] then [] else [.putSubs s.clientId s.offlineSubs]) ++
    s.queue.map (PersistOp.putOutPub s.clientId ·))

def Snapshot.ops (snap : Snapshot) : List PersistOp :=
  snap.sessions.flatMap Session.ops ++ snap.retained.map PersistOp.putRetained

/-- The store after the Put functions have written a snapshot. -/
def Snapshot.store (snap : Snapshot) : Kv := applyOps snap.ops freshStore

def Session.stored (s : Session) : StoredSession :=
  {clientId := s.clientId, level := s.level, expirySec := s.expirySec, orphanSince := s.since.getD 0}

def Session.record (s : Session) : Record :=
  (s.clientId, frameRecord .session (sessionBody s.clientId s.level s.expirySec (s.since.getD 0)))

def Session.subsRecord (s : Session) : Record := (s.clientId, frameRecord .subs (subsBody s.offlineSubs))

def queueKey (clientId : Bytes) (packetId : Nat) : Bytes := clientId ++ ([0] ++ BigEndian.write 2 packetId)

/-- The record of a queue entry of a client. -/
def queueRecord (x : Bytes × OutPub) : Record :=
  (queueKey x.1 x.2.packetId, frameRecord .outq (outPubBody x.2))

def Session.queueEntries (s : Session) : List (Bytes × OutPub) := s.queue.map (fun e => (s.clientId, e))

def retainedRecord (m : RetainedMsg) : Record := (m.topic, frameRecord .retained (retainedBody m))

/-- The record a Put call writes. -/
def putRecord : PersistOp → Option (Ns × Record)
  | .putSession id level expirySec => some (.session, id, frameRecord .session (sessionBody id level expirySec 0))
  | .putOrphanSession id level expirySec since =>
    some (.session, id, frameRecord .session (sessionBody id level expirySec since))
  | .putSubs id subs => some (.subs, id, frameRecord .subs (subsBody subs))
  | .putRetained m => some (.retained, retainedRecord m)
  | .putOutPub id e => some (.outq, queueRecord (id, e))
  | _ => none

/-- A call that writes its record. -/
def Writes (op : PersistOp) : Prop := ∃ x, putRecord op = some x ∧ ∀ kv, applyOp op kv = kvPut x.1 x.2.1 x.2.2 kv

theorem Session.Ok.writes_putOp {L : Limits} {s : Session} (h : s.Ok L) : Writes s.putOp := by
  have hid := take_mod_length _ h.idLen
  unfold Session.putOp
  cases hs : s.since with
  | none =>
    refine ⟨_, rfl, fun kv => ?_⟩
    show putSession _ _ _ kv = _
    rw [putSession, if_neg (by simp [h.named, h.persists]), putSessionRecord, hid]
  | some t =>
    refine ⟨_, rfl, fun kv => ?_⟩
    show putOrphanSession _ _ _ _ kv = _
    rw [putOrphanSession, if_neg h.named, putSessionRecord, hid]

theorem Session.Ok.writes_putSubs {L : Limits} {s : Session} (h : s.Ok L) (hs : s.subs ≠ []) :
    Writes (.putSubs s.clientId s.offlineSubs) := by
  refine ⟨_, rfl, fun kv => ?_⟩
  have hlen := h.idLen
  show putSubs _ _ kv = _
  rw [putSubs, if_neg (by simp only [h.named, false_or]; omega), if_neg (by simpa [Session.offlineSubs] using hs)]

theorem Session.Ok.writes_putOutPub {L : Limits} {s : Session} (h : s.Ok L) {e : OutPub} (he : e ∈ s.queue) :
    Writes (.putOutPub s.clientId e) := by
  refine ⟨_, rfl, fun kv => ?_⟩
  have hkey := h.queueKey (List.ne_nil_of_mem he)
  have hq := h.queue e he
  show putOutPub _ _ kv = _
  rw [putOutPub, if_neg (by simp [hq.qos, hq.seq]), outqKey, if_neg (by omega)]
  rfl

theorem Storable.writes {L : Limits} {m : RetainedMsg} (h : Storable L m) : Writes (.putRetained m) := by
  refine ⟨_, rfl, fun kv => ?_⟩
  show putRetained m kv = _
  rw [putRetained, if_neg h.named, take_mod_length _ h.topic]
  rfl

theorem Snapshot.Ok.writes {L : Limits} {snap : Snapshot} (h : snap.Ok L) : ∀ op ∈ snap.ops, Writes op := by
  intro op hop
  rcases List.mem_append.mp hop with hop | hop
  · obtain ⟨s, hs, hop⟩ := List.mem_flatMap.mp hop
    have hok := h.sessions s hs
    rcases List.mem_cons.mp hop with rfl | hop
    · exact hok.writes_putOp
    · rcases List.mem_append.mp hop with hop | hop
      · split at hop
        · cases hop
        · next hne =>
          rw [List.mem_singleton.mp hop]
          exact hok.writes_putSubs hne
      · obtain ⟨e, he, rfl⟩ := List.mem_map.mp hop
        exact hok.writes_putOutPub he
  · obtain ⟨m, hm, rfl⟩ := List.mem_map.mp hop
    exact (h.retained m hm).writes

/-- The records of one namespace among those a list of calls writes. -/
def recordsIn (ns : Ns) (ops : List PersistOp) : List Record :=
  (ops.filterMap putRecord).filterMap (fun x => if x.1 = ns then some x.2 else none)

theorem kvPut_apply (ns ns' : Ns) (key blob : Bytes) (kv : Kv) (hfresh : ∀ r ∈ kv ns, r.1 ≠ key) :
    kvPut ns key blob kv ns' = kv ns' ++ (if ns = ns' then [(key, blob)] else []) := by
  by_cases hns : ns = ns'
  · subst hns
    rw [kvPut, Function.update_self, if_pos rfl, List.filter_eq_self.mpr]
    intro r hr
    simpa using hfresh r hr
  · rw [kvPut, Function.update_of_ne (Ne.symm hns), if_neg hns, List.append_nil]

/-- Calls that write records with keys of their own add these to the store. -/
theorem applyOps_eq (ops : List PersistOp) (kv : Kv) (hw : ∀ op ∈ ops, Writes op)
    (hkeys : ∀ ns, ((kv ns ++ recordsIn ns ops).map Prod.fst).Nodup) (ns : Ns) :
    applyOps ops kv ns = kv ns ++ recordsIn ns ops := by
  induction ops generalizing kv with
  | nil => simp [applyOps, recordsIn]
  | cons op ops ih =>
    obtain ⟨⟨ns₀, key, blob⟩, hrec, happly⟩ := hw op List.mem_cons_self
    have hcons (ns : Ns) : recordsIn ns (op :: ops) = (if ns₀ = ns then [(key, blob)] else []) ++ recordsIn ns ops := by
      by_cases hns : ns₀ = ns <;> simp [recordsIn, hrec, hns]
    have hfresh : ∀ r ∈ kv ns₀, r.1 ≠ key := by
      intro r hr heq
      have hnd := hkeys ns₀
      rw [hcons ns₀, if_pos rfl, List.map_append, List.nodup_append] at hnd
      exact hnd.2.2 r.1 (List.mem_map_of_mem hr) key (by simp) heq
    have hstep (ns : Ns) : applyOp op kv ns = kv ns ++ (if ns₀ = ns then [(key, blob)] else []) := by
      rw [happly kv]
      exact kvPut_apply ns₀ ns key blob kv hfresh
    show applyOps ops (applyOp op kv) ns = _
    rw [ih (applyOp op kv) (fun o ho => hw o (List.mem_cons_of_mem op ho)), hstep, hcons, List.append_assoc]
    intro ns'
    rw [hstep, List.append_assoc, ← hcons]
    exact hkeys ns'

/-! The records of a snapshot -/

theorem recordsIn_append (ns : Ns) (a b : List PersistOp) : recordsIn ns (a ++ b) = recordsIn ns a ++ recordsIn ns b := by
  simp only [recordsIn, List.filterMap_append]

theorem recordsIn_cons (ns : Ns) (op : PersistOp) (ops : List PersistOp) :
    recordsIn ns (op :: ops) = recordsIn ns [op] ++ recordsIn ns ops := recordsIn_append ns [op] ops

theorem recordsIn_flatMap (ns : Ns) (ss : List Session) :
    recordsIn ns (ss.flatMap Session.ops) = ss.flatMap (fun s => recordsIn ns s.ops) := by
  induction ss with
  | nil => rfl
  | cons s ss ih => rw [List.flatMap_cons, recordsIn_append, ih, List.flatMap_cons]

theorem recordsIn_putOp (ns : Ns) (s : Session) : recordsIn ns [s.putOp] = if ns = .session then [s.record] else [] := by
  have h : putRecord s.putOp = some (.session, s.record) := by
    unfold Session.putOp Session.record
    cases s.since <;> rfl
  cases ns <;> simp [recordsIn, h]

theorem recordsIn_queue (ns : Ns) (clientId : Bytes) (es : List OutPub) :
    recordsIn ns (es.map (PersistOp.putOutPub clientId ·)) =
      if ns = .outq then es.map (fun e => queueRecord (clientId, e)) else [] := by
  induction es with
  | nil => cases ns <;> rfl
  | cons e es ih =>
    rw [List.map_cons, recordsIn_cons, ih]
    cases ns <;> simp [recordsIn, putRecord]

theorem recordsIn_retained (ns : Ns) (ms : List RetainedMsg) :
    recordsIn ns (ms.map PersistOp.putRetained) = if ns = .retained then ms.map retainedRecord else [] := by
  induction ms with
  | nil => cases ns <;> rfl
  | cons m ms ih =>
    rw [List.map_cons, recordsIn_cons, ih]
    cases ns <;> simp [recordsIn, putRecord]

/-- The records of a session in each namespace. -/
def Session.recordsOf (s : Session) : Ns → List Record
  | .session => [s.record]
  | .subs => if s.subs = [] then [] else [s.subsRecord]
  | .outq => s.queueEntries.map queueRecord
  | _ => []

theorem recordsIn_session (ns : Ns) (s : Session) : recordsIn ns s.ops = s.recordsOf ns := by
  rw [Session.ops, recordsIn_cons, recordsIn_append, recordsIn_putOp, recordsIn_queue]
  by_cases hsubs : s.subs = []
  · cases ns <;> simp [hsubs, recordsIn, Session.recordsOf, Session.queueEntries]
  · cases ns <;> simp [hsubs, recordsIn, putRecord, Session.recordsOf, Session.queueEntries, Session.subsRecord]

/-- The sessions of a snapshot that have subscriptions. -/
def Snapshot.subscribed (snap : Snapshot) : List Session := snap.sessions.filter (fun s => s.subs ≠ [])

/-- The queue entries of all sessions. -/
def Snapshot.queueEntries (snap : Snapshot) : List (Bytes × OutPub) := snap.sessions.flatMap Session.queueEntries

/-- The records of a snapshot in each namespace. -/
def Snapshot.recordsOf (snap : Snapshot) : Ns → List Record
  | .session => snap.sessions.map Session.record
  | .subs => snap.subscribed.map Session.subsRecord
  | .retained => snap.retained.map retainedRecord
  | .outq => snap.queueEntries.map queueRecord
  | .meta => []

theorem recordsIn_snapshot (ns : Ns) (snap : Snapshot) : recordsIn ns snap.ops = snap.recordsOf ns := by
  rw [Snapshot.ops, recordsIn_append, recordsIn_flatMap, recordsIn_retained]
  simp only [recordsIn_session]
  cases ns with
  | «meta» => simp [Session.recordsOf, Snapshot.recordsOf]
  | session =>
    simp only [Session.recordsOf, Snapshot.recordsOf, reduceCtorEq, if_false, List.append_nil]
    rw [List.map_eq_flatMap]
  | subs =>
    simp only [Session.recordsOf, Snapshot.recordsOf, Snapshot.subscribed, reduceCtorEq, if_false, List.append_nil]
    induction snap.sessions with
    | nil => rfl
    | cons s ss ih =>
      rw [List.flatMap_cons, ih, List.filter_cons]
      by_cases h : s.subs = [] <;> simp [h]
  | retained => simp [Session.recordsOf, Snapshot.recordsOf]
  | outq =>
    simp only [Session.recordsOf, Snapshot.recordsOf, Snapshot.queueEntries, reduceCtorEq, if_false, List.append_nil,
      List.map_flatMap]

theorem queueKey_id {a b : Bytes} {m n : Nat} (h : queueKey a m = queueKey b n) :
    a = b ∧ BigEndian.write 2 m = BigEndian.write 2 n := by
  have hlen : a.length = b.length := by
    have := congrArg List.length h
    simpa [queueKey] using this
  obtain ⟨hab, hrest⟩ := List.append_inj h hlen
  exact ⟨hab, (List.append_inj hrest rfl).2⟩

/-- No two queue records of a snapshot share a key. -/
theorem Snapshot.Ok.queue_keys {L : Limits} {snap : Snapshot} (h : snap.Ok L) :
    ((snap.queueEntries.map queueRecord).map Prod.fst).Nodup := by
  have hkeys : (snap.queueEntries.map queueRecord).map Prod.fst =
      snap.sessions.flatMap (fun s => (s.queue.map (·.packetId)).map (queueKey s.clientId)) := by
    simp only [Snapshot.queueEntries, List.map_flatMap, Session.queueEntries, List.map_map]
    rfl
  rw [hkeys, List.nodup_flatMap]
  constructor
  · intro s hs
    have hok := h.sessions s hs
    refine List.Nodup.map_on ?_ hok.packetIds
    intro p hp q hq hpq
    obtain ⟨e, he, rfl⟩ := List.mem_map.mp hp
    obtain ⟨f, hf, rfl⟩ := List.mem_map.mp hq
    exact BigEndian.write_inj (hok.queue e he).packetId (hok.queue f hf).packetId (queueKey_id hpq).2
  · refine (List.pairwise_map.mp h.ids).imp ?_
    intro s t hst
    refine List.disjoint_left.mpr ?_
    intro key hs ht
    obtain ⟨p, -, rfl⟩ := List.mem_map.mp hs
    obtain ⟨q, -, hq⟩ := List.mem_map.mp ht
    exact hst (queueKey_id hq).1.symm

theorem Snapshot.Ok.keys {L : Limits} {snap : Snapshot} (h : snap.Ok L) (ns : Ns) (hns : ns ≠ .meta) :
    ((snap.recordsOf ns).map Prod.fst).Nodup := by
  cases ns with
  | «meta» => exact absurd rfl hns
  | session =>
    rw [Snapshot.recordsOf, List.map_map]
    exact h.ids
  | subs =>
    rw [Snapshot.recordsOf, List.map_map]
    exact h.ids.sublist (List.filter_sublist.map _)
  | retained =>
    rw [Snapshot.recordsOf, List.map_map]
    exact h.topics
  | outq => exact h.queue_keys

theorem freshStore_apply (ns : Ns) : freshStore ns = if ns = .meta then [(metaKey, frameRecord .meta metaBody)] else [] := by
  cases ns <;> rfl

/-- The store holds exactly the records of the snapshot, and the META record. -/
theorem Snapshot.Ok.store_eq {L : Limits} {snap : Snapshot} (h : snap.Ok L) (ns : Ns) :
    snap.store ns = freshStore ns ++ snap.recordsOf ns := by
  rw [Snapshot.store, applyOps_eq _ _ h.writes, recordsIn_snapshot]
  intro ns'
  rw [recordsIn_snapshot, freshStore_apply]
  by_cases hns : ns' = .meta
  · subst hns
    simp [Snapshot.recordsOf]
  · rw [if_neg hns, List.nil_append]
    exact h.keys ns' hns

theorem Snapshot.Ok.metaCheck {L : Limits} {snap : Snapshot} (h : snap.Ok L) : metaCheck snap.store = .ok true := by
  rw [Persist.metaCheck, h.store_eq, show snap.recordsOf .meta = [] from rfl, List.append_nil]
  rfl

end WolfMqtt.Persist
