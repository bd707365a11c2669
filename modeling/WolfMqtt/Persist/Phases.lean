import WolfMqtt.Persist.Snapshot
import WolfMqtt.Lib.Moves

/-! The passes of the restore, one by one, over the records of a snapshot. -/
namespace WolfMqtt.Persist

open Broker

/-! ### Orders -/

/-- A rearrangement of images is the image of a rearrangement. -/
theorem exists_perm_of_map {α β : Type} (f : α → β) {l : List β} {xs : List α} (h : l.Perm (xs.map f)) :
    ∃ ys : List α, ys.Perm xs ∧ l = ys.map f := by
  induction xs generalizing l with
  | nil => exact ⟨[], .nil, List.perm_nil.mp h⟩
  | cons x xs ih =>
    obtain ⟨before, after, rfl⟩ := List.append_of_mem (h.symm.subset List.mem_cons_self)
    obtain ⟨ys, hys, heq⟩ := ih ((List.perm_middle.symm.trans h).cons_inv)
    obtain ⟨as, bs, rfl, rfl, rfl⟩ := List.append_eq_map_iff.mp heq
    exact ⟨as ++ x :: bs, List.perm_middle.trans (hys.cons x), by simp⟩

/-! ### Sessions -/

/-- The slots of sessions restored one after the other, the first one at `a`. -/
def orphansFrom (L : Limits) (now a : Nat) : List Session → List OrphanSession
  | [] => []
  | s :: ss => orphanOfStored L now a s.stored :: orphansFrom L now (a + 1) ss

/-- A broker with restored sessions, the last one first. -/
def MqttBroker.withOrphans (b : MqttBroker) (os : List OrphanSession) : MqttBroker :=
  {b with
    orphanSessions := os.reverse ++ b.orphanSessions
    orphanSessionCount := b.orphanSessionCount + os.length
    env := {b.env with nextAddr := b.env.nextAddr + os.length}}

theorem alloc_ok (b : MqttBroker) (h : b.env.allocs = []) :
    alloc b = (some b.env.nextAddr, {b with env := {b.env with nextAddr := b.env.nextAddr + 1}}) := by
  simp [alloc, Env.alloc, h]

theorem decodeSession_stored {L : Limits} {s : Session} (h : s.Ok L) (hL : L.timeBits ≤ 64) :
    decodeSession s.record.2 = .ok s.stored := by
  refine decodeSession_record h.idLen h.level h.expiry h.persists ?_
  cases hs : s.since with
  | none => exact Nat.pow_pos (by decide)
  | some t =>
    exact Nat.lt_of_lt_of_le (h.since t hs) (show 2 ^ L.timeBits ≤ 2 ^ 64 from Nat.pow_le_pow_right (by decide) hL)

theorem decodeAndInsertSession_ok {L : Limits} {s : Session} (h : s.Ok L) (hL : L.timeBits ≤ 64) (now : Nat)
    (b : MqttBroker) (halloc : b.env.allocs = []) (hroom : b.orphanSessionCount < L.maxPersistSessions) :
    decodeAndInsertSession L now s.record.2 b =
      (0, MqttBroker.withOrphans b [orphanOfStored L now b.env.nextAddr s.stored]) := by
  have hnamed : s.stored.clientId ≠ [] := h.named
  have hcreate : restoreCreateOrphan L now s.stored b =
      (true, MqttBroker.withOrphans b [orphanOfStored L now b.env.nextAddr s.stored]) := by
    rw [restoreCreateOrphan, if_neg hnamed]
    show (if b.orphanSessionCount ≥ L.maxPersistSessions then (pure false : BrokerM Bool) else _) b = _
    rw [if_neg (by omega), run_bind, alloc_ok b halloc]
    rfl
  rw [decodeAndInsertSession, decodeSession_stored h hL]
  dsimp only
  rw [run_bind, hcreate]
  rfl

theorem withOrphans_append (b : MqttBroker) (os ps : List OrphanSession) :
    MqttBroker.withOrphans (MqttBroker.withOrphans b os) ps = MqttBroker.withOrphans b (os ++ ps) := by
  simp [MqttBroker.withOrphans, Int.add_assoc, Nat.add_assoc]

/-- The pass over the sessions. -/
theorem iterSessions_ok {L : Limits} (hL : L.timeBits ≤ 64) (now : Nat) (ended : List Bytes) (ss : List Session)
    (hok : ∀ s ∈ ss, s.Ok L) (b : MqttBroker) (halloc : b.env.allocs = [])
    (hroom : b.orphanSessionCount + ss.length ≤ L.maxPersistSessions) :
    iterSessions L now ended (ss.map Session.record) b =
      (ended, MqttBroker.withOrphans b (orphansFrom L now b.env.nextAddr ss)) := by
  induction ss generalizing b with
  | nil => simp [iterSessions, MqttBroker.withOrphans, orphansFrom, run_pure]
  | cons s ss ih =>
    rw [List.length_cons] at hroom
    push_cast at hroom
    rw [List.map_cons, show s.record = (s.record.1, s.record.2) from rfl, iterSessions, run_bind,
      decodeAndInsertSession_ok (hok s List.mem_cons_self) hL now b halloc (by omega)]
    have hzero : ¬ ((0 : Int) = notFound ∧ ended.length < L.maxPersistSessions ∧
        sessionKeyIsClientId s.record.1 s.record.2 = true) := by
      rintro ⟨h, -⟩
      exact absurd h (by decide)
    show iterSessions L now (if _ then _ else ended) _ _ = _
    have hrest := ih (fun t ht => hok t (List.mem_cons_of_mem s ht))
      (MqttBroker.withOrphans b [orphanOfStored L now b.env.nextAddr s.stored]) halloc
      (by simp only [MqttBroker.withOrphans, List.length_singleton]; push_cast; omega)
    rw [if_neg hzero, hrest, withOrphans_append]
    rfl

/-! ### The purge -/

theorem purgeScan_expired (L : Limits) (now used : Nat) (rs : List Record) :
    ∀ key ∈ (purgeScan L now used rs).1, ∃ r ∈ rs, r.1 = key ∧ retainedExpired L now r.2 = true := by
  induction rs generalizing used with
  | nil => intro key hkey; cases hkey
  | cons r rs ih =>
    obtain ⟨k, blob⟩ := r
    have hskip (used : Nat) (key : Bytes) (h : key ∈ (purgeScan L now used rs).1) :
        ∃ r ∈ (k, blob) :: rs, r.1 = key ∧ retainedExpired L now r.2 = true := by
      obtain ⟨r, hr, hk⟩ := ih used key h
      exact ⟨r, List.mem_cons_of_mem _ hr, hk⟩
    intro key hkey
    rw [purgeScan] at hkey
    split at hkey
    · exact hskip used key hkey
    · next hexp =>
      split at hkey
      · exact hskip used key hkey
      split at hkey
      · cases hkey
      · rcases List.mem_cons.mp hkey with rfl | hkey
        · refine ⟨(key, blob), List.mem_cons_self, rfl, ?_⟩
          simpa using (not_or.mp hexp).2
        · exact hskip _ key hkey

/-- What a purge leaves: everything that has not expired, and nothing that was not there. -/
structure Purged (L : Limits) (now : Nat) (kv kv' : Kv) : Prop where
  others : ∀ ns, ns ≠ .retained → kv' ns = kv ns
  kept : ∃ keep : Record → Bool, kv' .retained = (kv .retained).filter keep ∧
    ∀ r ∈ kv .retained, retainedExpired L now r.2 = false → keep r = true

theorem Purged.refl (L : Limits) (now : Nat) (kv : Kv) : Purged L now kv kv :=
  ⟨fun _ _ => rfl, fun _ => true, by simp, fun _ _ _ => rfl⟩

theorem Purged.trans {L : Limits} {now : Nat} {kv kv' kv'' : Kv} (h : Purged L now kv kv') (h' : Purged L now kv' kv'') :
    Purged L now kv kv'' := by
  obtain ⟨keep, hk, hall⟩ := h.kept
  obtain ⟨keep', hk', hall'⟩ := h'.kept
  refine ⟨fun ns hns => (h'.others ns hns).trans (h.others ns hns), fun r => keep r && keep' r, ?_, ?_⟩
  · rw [hk', hk, List.filter_filter]
    congr 1
    funext r
    exact Bool.and_comm _ _
  · intro r hr hexp
    have hkr := hall r hr hexp
    have hmem : r ∈ kv' .retained := by
      rw [hk]
      exact List.mem_filter.mpr ⟨hr, hkr⟩
    simp [hkr, hall' r hmem hexp]

/-- Deleting keys none of whose records is still good. -/
theorem Purged.delete {L : Limits} {now : Nat} {kv : Kv} (keys : List Bytes)
    (h : ∀ key ∈ keys, ∀ r ∈ kv .retained, r.1 = key → retainedExpired L now r.2 = true) :
    Purged L now kv (keys.foldl (fun kv key => kvDel .retained key kv) kv) := by
  induction keys generalizing kv with
  | nil => exact .refl L now kv
  | cons key keys ih =>
    have hone : Purged L now kv (kvDel .retained key kv) := by
      refine ⟨fun ns hns => by rw [kvDel_apply, if_neg (Ne.symm hns)], fun r => r.1 ≠ key, ?_, ?_⟩
      · rw [kvDel_apply, if_pos rfl]
      · intro r hr hexp
        refine decide_eq_true ?_
        intro heq
        rw [h key List.mem_cons_self r hr heq] at hexp
        cases hexp
    refine hone.trans (ih ?_)
    intro k hk r hr heq
    rw [kvDel_apply, if_pos rfl] at hr
    exact h k (List.mem_cons_of_mem key hk) r (List.mem_filter.mp hr).1 heq

theorem purgeExpiredRetained_purged (L : Limits) (now : Nat) (order : List Record → List Record)
    (horder : ∀ rs, (order rs).Perm rs) (passes : Nat) (kv : Kv) (hkeys : ((kv .retained).map Prod.fst).Nodup) :
    Purged L now kv (purgeExpiredRetained L now order passes kv) := by
  induction passes generalizing kv with
  | zero => exact .refl L now kv
  | succ passes ih =>
    rw [purgeExpiredRetained]
    dsimp only
    split
    · exact .refl L now kv
    · have hdel : Purged L now kv ((purgeScan L now 0 (order (kv .retained))).1.foldl
          (fun kv key => kvDel .retained key kv) kv) := by
        refine .delete _ ?_
        intro key hkey r hr heq
        obtain ⟨r', hr', hk, hexp⟩ := purgeScan_expired L now 0 _ key hkey
        have hsame : r = r' := List.inj_on_of_nodup_map hkeys hr ((horder _).subset hr') (heq.trans hk.symm)
        rw [hsame]
        exact hexp
      split
      · refine hdel.trans (ih _ ?_)
        obtain ⟨keep, hk, -⟩ := hdel.kept
        rw [hk]
        exact hkeys.sublist (List.filter_sublist.map _)
      · exact hdel

/-! ### Retained messages -/

/-- A broker with restored messages, the last one first. -/
def MqttBroker.withRetained (b : MqttBroker) (ms : List RetainedMsg) : MqttBroker :=
  {b with
    retained := ms.reverse ++ b.retained
    retainedCount := b.retainedCount + ms.length
    env := {b.env with nextAddr := b.env.nextAddr + ms.length}}

theorem insertRetained_ok {L : Limits} (m : RetainedMsg) (b : MqttBroker) (halloc : b.env.allocs = [])
    (hroom : b.retainedCount < L.maxRetained) : insertRetained L m b = ((), MqttBroker.withRetained b [m]) := by
  rw [insertRetained]
  show (if b.retainedCount ≥ L.maxRetained then (pure () : BrokerM Unit) else _) b = _
  rw [if_neg (by omega), run_bind, alloc_ok b halloc]
  rfl

theorem decodeAndInsertRetained_of {L : Limits} {now : Nat} {blob : Bytes} {m : RetainedMsg}
    (h : decodeRetained L blob = .ok m) :
    decodeAndInsertRetained L now blob = if retainedExpired L now blob then pure () else insertRetained L m := by
  rw [decodeAndInsertRetained, h]

theorem decodeAndInsertRetained_ok {L : Limits} {m : RetainedMsg} (hL : L.timeBits ≤ 64) (h : Storable L m) (now : Nat)
    (b : MqttBroker) (halloc : b.env.allocs = []) (hroom : b.retainedCount < L.maxRetained) :
    decodeAndInsertRetained L now (frameRecord .retained (retainedBody m)) b =
      ((), MqttBroker.withRetained b (if messageExpired L now m.storeTime m.expirySec then [] else [m])) := by
  rw [decodeAndInsertRetained_of (decodeRetained_record hL h), retainedExpired_record hL h now]
  split
  · simp [MqttBroker.withRetained, run_pure]
  · exact insertRetained_ok m b halloc hroom

/-- The pass over the retained messages: those that have not expired. -/
theorem iterRetained_ok {L : Limits} (hL : L.timeBits ≤ 64) (now : Nat) (ms : List RetainedMsg)
    (hok : ∀ m ∈ ms, Storable L m) (b : MqttBroker) (halloc : b.env.allocs = [])
    (hroom : b.retainedCount + ms.length ≤ L.maxRetained) :
    iterRecords (fun _ blob => decodeAndInsertRetained L now blob) (ms.map retainedRecord) b =
      ((), MqttBroker.withRetained b (ms.filter (fun m => !messageExpired L now m.storeTime m.expirySec))) := by
  induction ms generalizing b with
  | nil => simp [iterRecords, MqttBroker.withRetained, run_pure]
  | cons m ms ih =>
    rw [List.length_cons] at hroom
    push_cast at hroom
    rw [List.map_cons, retainedRecord, iterRecords, run_bind,
      decodeAndInsertRetained_ok hL (hok m List.mem_cons_self) now b halloc (by omega)]
    have hrest := ih (fun t ht => hok t (List.mem_cons_of_mem m ht))
      (MqttBroker.withRetained b (if messageExpired L now m.storeTime m.expirySec then [] else [m])) halloc
      (by simp only [MqttBroker.withRetained]; split <;> simp <;> omega)
    rw [hrest]
    cases hexp : messageExpired L now m.storeTime m.expirySec <;>
      simp [MqttBroker.withRetained, hexp, Int.add_assoc, Nat.add_assoc, Nat.add_comm]

/-! ### Subscriptions -/

/-- A broker with the subscriptions of restored sessions, those of the last one first. -/
def MqttBroker.withSubs (b : MqttBroker) (ss : List Session) : MqttBroker :=
  {b with
    subs := ss.reverse.flatMap Session.offlineSubs ++ b.subs
    env := {b.env with nextAddr := b.env.nextAddr + ss.length}}

theorem decodeAndInsertSubs_of {key blob : Bytes} {subs : List BrokerSub} (h : decodeSubs key blob = .ok subs) :
    decodeAndInsertSubs key blob = insertSubs key subs := by
  rw [decodeAndInsertSubs, h]

theorem decodeAndInsertSubs_ok {L : Limits} {s : Session} (h : s.Ok L) (b : MqttBroker) (halloc : b.env.allocs = [])
    (horphan : (orphanFind b s.clientId).isSome) :
    decodeAndInsertSubs s.clientId (frameRecord .subs (subsBody s.offlineSubs)) b = ((), MqttBroker.withSubs b [s]) := by
  have hdec : decodeSubs s.clientId (frameRecord .subs (subsBody s.offlineSubs)) = .ok s.offlineSubs := by
    have hd := decodeSubs_record h.named (by simpa [Session.offlineSubs] using h.subCount)
      (show ∀ x ∈ s.offlineSubs, x.filter.length < 65536 from ?_) h.subsLen
    · rw [hd, Session.offlineSubs, List.map_map]
      rfl
    · intro x hx
      obtain ⟨y, hy, rfl⟩ := List.mem_map.mp hx
      exact h.filters y hy
  rw [decodeAndInsertSubs_of hdec, insertSubs]
  show (if (orphanFind b s.clientId).isNone then (pure () : BrokerM Unit) else _) b = _
  rw [if_neg (by rw [Option.isNone_iff_eq_none]; exact Option.isSome_iff_ne_none.mp horphan), run_bind, alloc_ok b halloc]
  simp [MqttBroker.withSubs, run_modify]

/-- The pass over the subscriptions, for sessions that were restored. -/
theorem iterSubs_ok {L : Limits} (ss : List Session) (hok : ∀ s ∈ ss, s.Ok L) (b : MqttBroker)
    (halloc : b.env.allocs = []) (horphan : ∀ s ∈ ss, (orphanFind b s.clientId).isSome) :
    iterRecords decodeAndInsertSubs (ss.map Session.subsRecord) b = ((), MqttBroker.withSubs b ss) := by
  induction ss generalizing b with
  | nil => simp [iterRecords, MqttBroker.withSubs, run_pure]
  | cons s ss ih =>
    rw [List.map_cons, Session.subsRecord, iterRecords, run_bind,
      decodeAndInsertSubs_ok (hok s List.mem_cons_self) b halloc (horphan s List.mem_cons_self)]
    have hrest := ih (fun t ht => hok t (List.mem_cons_of_mem s ht)) (MqttBroker.withSubs b [s]) halloc
      (fun t ht => horphan t (List.mem_cons_of_mem s ht))
    rw [hrest]
    simp [MqttBroker.withSubs, Nat.add_assoc, Nat.add_comm 1]

/-! ### Queues -/

/-- Entries compared without their addresses. -/
def bare (e : OutPub) : OutPub := {e with addr := 0}

theorem mem_insertBySeq (e x : OutPub) (es : List OutPub) : x ∈ insertBySeq e es ↔ x = e ∨ x ∈ es := by
  induction es with
  | nil => simp [insertBySeq]
  | cons y es ih =>
    rw [insertBySeq]
    split
    · rw [List.mem_cons, ih, List.mem_cons]
      tauto
    · rw [List.mem_cons]

theorem insertBySeq_perm (e : OutPub) (es : List OutPub) : (insertBySeq e es).Perm (e :: es) := by
  induction es with
  | nil => exact .refl _
  | cons y es ih =>
    rw [insertBySeq]
    split
    · exact (ih.cons y).trans (List.Perm.swap ..)
    · exact .refl _

theorem insertBySeq_ordered (e : OutPub) (es : List OutPub) (h : es.Pairwise (fun x y => x.enqueueSeq < y.enqueueSeq))
    (hne : ∀ x ∈ es, x.enqueueSeq ≠ e.enqueueSeq) :
    (insertBySeq e es).Pairwise (fun x y => x.enqueueSeq < y.enqueueSeq) := by
  induction es with
  | nil => exact List.pairwise_singleton _ _
  | cons y es ih =>
    obtain ⟨hy, hes⟩ := List.pairwise_cons.mp h
    rw [insertBySeq]
    split
    · next hlt =>
      refine List.pairwise_cons.mpr ⟨?_, ih hes (fun x hx => hne x (List.mem_cons_of_mem y hx))⟩
      intro x hx
      rcases (mem_insertBySeq e x es).mp hx with rfl | hx
      · exact hlt
      · exact hy x hx
    · next hlt =>
      have hey : e.enqueueSeq < y.enqueueSeq := by
        have := hne y List.mem_cons_self
        omega
      refine List.pairwise_cons.mpr ⟨?_, h⟩
      intro x hx
      rcases List.mem_cons.mp hx with rfl | hx
      · exact hey
      · exact hey.trans (hy x hx)

/-- The last entry after the insertion is the new one exactly when all others come before it. -/
theorem getLast_insertBySeq (e : OutPub) (es : List OutPub) :
    (insertBySeq e es).getLast? = if es.all (fun x => x.enqueueSeq < e.enqueueSeq) then some e else es.getLast? := by
  induction es with
  | nil => rfl
  | cons y es ih =>
    rw [insertBySeq]
    split
    · next hlt =>
      have hne : insertBySeq e es ≠ [] := List.ne_nil_of_mem ((mem_insertBySeq e e es).mpr (.inl rfl))
      rw [List.getLast?_cons_of_ne_nil hne, ih]
      simp only [List.all_cons, hlt, decide_true, Bool.true_and]
      split
      · rfl
      · next hall =>
        have hes : es ≠ [] := by
          rintro rfl
          exact hall rfl
        rw [List.getLast?_cons_of_ne_nil hes]
    · next hlt =>
      simp [hlt, List.getLast?_cons_cons]

/-- The slot of a session without its queue. -/
def core (o : OrphanSession) : OrphanSession := {o with outQ := {}, outQInflight := 0}

/-- The entries of one client. -/
def entriesOf (clientId : Bytes) (xs : List (Bytes × OutPub)) : List OutPub :=
  (xs.filter (fun x => x.1 = clientId)).map Prod.snd

/-- A restored queue: in the order of its sequence, and holding these entries. -/
structure Queued (o : OrphanSession) (es : List OutPub) : Prop where
  wf : o.outQ.WF
  ordered : o.outQ.chain.Pairwise (fun x y => x.enqueueSeq < y.enqueueSeq)
  entries : (o.outQ.chain.map bare).Perm (es.map (restoredEntry 0))

theorem Queued.insert {o : OrphanSession} {es : List OutPub} (h : Queued o es) (e : OutPub) (a : Nat)
    (hfresh : ∀ x ∈ o.outQ.chain, x.addr < a) (hseq : ∀ x ∈ es, x.enqueueSeq ≠ e.enqueueSeq) :
    Queued (insertOutPub (restoredEntry a e) o) (es ++ [e]) := by
  have hperm := insertBySeq_perm (restoredEntry a e) o.outQ.chain
  refine ⟨⟨?_, ?_, ?_⟩, ?_, ?_⟩
  · show (if o.outQ.chain.all (fun x => x.enqueueSeq < e.enqueueSeq) then some a else o.outQ.tail) =
      (insertBySeq (restoredEntry a e) o.outQ.chain).getLast?.map Node.addr
    rw [getLast_insertBySeq, show (restoredEntry a e).enqueueSeq = e.enqueueSeq from rfl]
    split
    · rfl
    · exact h.wf.tail
  · show o.outQ.count + 1 = ((insertBySeq (restoredEntry a e) o.outQ.chain).length : Int)
    rw [hperm.length_eq, List.length_cons, h.wf.count]
    rfl
  · refine (hperm.map Node.addr).nodup_iff.mpr (List.nodup_cons.mpr ⟨?_, h.wf.nodup⟩)
    intro hmem
    obtain ⟨x, hx, heq⟩ := List.mem_map.mp hmem
    have hlt := hfresh x hx
    have heq' : x.addr = a := heq
    omega
  · refine insertBySeq_ordered _ _ h.ordered ?_
    intro x hx heq
    have hmem : bare x ∈ es.map (restoredEntry 0) := h.entries.subset (List.mem_map_of_mem hx)
    obtain ⟨y, hy, hyx⟩ := List.mem_map.mp hmem
    have hyseq : (restoredEntry 0 y).enqueueSeq = (bare x).enqueueSeq := congrArg OutPub.enqueueSeq hyx
    exact hseq y hy (hyseq.trans heq)
  · refine ((hperm.map bare).trans (h.entries.cons _)).trans ?_
    rw [List.map_append]
    exact (List.perm_append_singleton _ _).symm

/-- A broker in the middle of the pass over the queues: the sessions of `b₀`, holding the entries in `done`. -/
structure Holding (b₀ : MqttBroker) (done : List (Bytes × OutPub)) (b : MqttBroker) : Prop where
  rest : {b with orphanSessions := b₀.orphanSessions, env := {b.env with nextAddr := b₀.env.nextAddr}} = b₀
  cores : b.orphanSessions.map core = b₀.orphanSessions.map core
  fresh : ∀ o ∈ b.orphanSessions, ∀ e ∈ o.outQ.chain, e.addr < b.env.nextAddr
  queued : ∀ o ∈ b.orphanSessions, Queued o (entriesOf o.clientId done)

theorem Holding.allocs {b₀ b : MqttBroker} {done : List (Bytes × OutPub)} (h : Holding b₀ done b)
    (halloc : b₀.env.allocs = []) : b.env.allocs = [] := by
  rw [← halloc, ← h.rest]

theorem Holding.map_core {γ : Type} {b₀ b : MqttBroker} {done : List (Bytes × OutPub)} (h : Holding b₀ done b)
    (f : OrphanSession → γ) : b.orphanSessions.map (fun o => f (core o)) = b₀.orphanSessions.map (fun o => f (core o)) := by
  have := congrArg (List.map f) h.cores
  rwa [List.map_map, List.map_map] at this

theorem Holding.addrs {b₀ b : MqttBroker} {done : List (Bytes × OutPub)} (h : Holding b₀ done b) :
    b.orphanSessions.map Node.addr = b₀.orphanSessions.map Node.addr := h.map_core Node.addr

theorem Holding.ids {b₀ b : MqttBroker} {done : List (Bytes × OutPub)} (h : Holding b₀ done b) :
    b.orphanSessions.map (·.clientId) = b₀.orphanSessions.map (·.clientId) := h.map_core (·.clientId)

theorem decodeAndInsertOutq_key (L : Limits) (clientId : Bytes) (packetId : Nat) (blob : Bytes) :
    decodeAndInsertOutq L (queueKey clientId packetId) blob = insertOutq L clientId blob := by
  have hlen : (queueKey clientId packetId).length = clientId.length + 3 := by
    simp [queueKey]
  have htake : (queueKey clientId packetId).take clientId.length = clientId := by
    simp [queueKey]
  have hzero : (queueKey clientId packetId).getD clientId.length 1 = 0 := by
    simp [queueKey]
  rw [decodeAndInsertOutq, if_neg (by omega), hlen, Nat.add_sub_cancel, hzero, htake]
  rfl

theorem insertOutq_of {L : Limits} {clientId blob : Bytes} {b : MqttBroker} {o : OrphanSession} {e : OutPub}
    (halloc : b.env.allocs = []) (hfind : orphanFind b clientId = some o)
    (hdec : decodeOutPub L b.env.nextAddr blob = .ok e) :
    insertOutq L clientId blob b =
      ((), ({b with env := {b.env with nextAddr := b.env.nextAddr + 1}} : MqttBroker).updateOrphan o.addr (insertOutPub e)) := by
  rw [insertOutq, run_bind, run_get]
  dsimp only
  rw [hfind]
  dsimp only
  rw [run_bind, alloc_ok b halloc]
  dsimp only
  rw [hdec]
  rfl

/-- One record of the pass over the queues. -/
theorem Holding.step {L : Limits} (hL : L.timeBits ≤ 64) {b₀ b : MqttBroker} {done : List (Bytes × OutPub)}
    (h : Holding b₀ done b) (halloc : b₀.env.allocs = []) (haddrs : (b₀.orphanSessions.map Node.addr).Nodup)
    (hids : (b₀.orphanSessions.map (·.clientId)).Nodup) (x : Bytes × OutPub) (hx : Queueable L x.2)
    (howner : x.1 ∈ b₀.orphanSessions.map (·.clientId))
    (hseq : ∀ e ∈ entriesOf x.1 done, e.enqueueSeq ≠ x.2.enqueueSeq) :
    Holding b₀ (done ++ [x]) (decodeAndInsertOutq L (queueRecord x).1 (queueRecord x).2 b).2 := by
  obtain ⟨clientId, e⟩ := x
  have haddrs' : (b.orphanSessions.map Node.addr).Nodup := by
    rw [h.addrs]
    exact haddrs
  have hids' : (b.orphanSessions.map (·.clientId)).Nodup := by
    rw [h.ids]
    exact hids
  have howner' : clientId ∈ b.orphanSessions.map (·.clientId) := by
    rw [h.ids]
    exact howner
  obtain ⟨o, ho, hid⟩ := List.mem_map.mp howner'
  obtain ⟨o', hfind⟩ : ∃ o', orphanFind b clientId = some o' :=
    Option.isSome_iff_exists.mp (List.find?_isSome.mpr ⟨o, ho, decide_eq_true hid⟩)
  have ho' : o' ∈ b.orphanSessions := List.mem_of_find?_eq_some hfind
  have hid' : o'.clientId = clientId := by simpa using List.find?_some hfind
  have hat : Chain.at? b.orphanSessions o'.addr = some o' := Chain.at?_of_mem haddrs' ho'
  rw [queueRecord, decodeAndInsertOutq_key,
    insertOutq_of (h.allocs halloc) hfind (decodeOutPub_record hL hx b.env.nextAddr)]
  refine ⟨h.rest, ?_, ?_, ?_⟩
  · have hcore : (Chain.writeAt o'.addr (insertOutPub (restoredEntry b.env.nextAddr e)) b.orphanSessions).map core =
        b.orphanSessions.map core := Chain.map_writeAt core (fun _ _ => rfl)
    exact hcore.trans h.cores
  · intro p hp y hy
    show y.addr < b.env.nextAddr + 1
    rcases Chain.mem_writeAt hp with hp | ⟨q, hq, rfl⟩
    · exact Nat.lt_succ_of_lt (h.fresh p hp y hy)
    · have hqo : q = o' := by
        rw [show Chain.at? b.orphanSessions o'.addr = some q from hq] at hat
        exact Option.some.inj hat
      subst hqo
      rcases (mem_insertBySeq _ y _).mp hy with rfl | hy
      · exact Nat.lt_succ_self _
      · exact Nat.lt_succ_of_lt (h.fresh q ho' y hy)
  · intro p hp
    rcases Chain.mem_writeAt_nodup haddrs' hp with ⟨hp, hne⟩ | ⟨q, hq, rfl⟩
    · have hother : clientId ≠ p.clientId := by
        intro heq
        have hsame : p = o' := List.inj_on_of_nodup_map hids' hp ho' (heq.symm.trans hid'.symm)
        exact hne (by rw [hsame]; rfl)
      have hsame : entriesOf p.clientId (done ++ [(clientId, e)]) = entriesOf p.clientId done := by
        simp [entriesOf, List.filter_append, hother]
      rw [hsame]
      exact h.queued p hp
    · have hqo : q = o' := by
        rw [show Chain.at? b.orphanSessions o'.addr = some q from hq] at hat
        exact Option.some.inj hat
      subst hqo
      have hsame : entriesOf q.clientId (done ++ [(clientId, e)]) = entriesOf clientId done ++ [e] := by
        simp [entriesOf, List.filter_append, hid']
      show Queued _ (entriesOf q.clientId (done ++ [(clientId, e)]))
      rw [hsame]
      have hq := h.queued q ho'
      rw [hid'] at hq
      exact hq.insert e b.env.nextAddr (h.fresh q ho') hseq

/-- The pass over the queues. -/
theorem Holding.iter {L : Limits} (hL : L.timeBits ≤ 64) {b₀ : MqttBroker} (halloc : b₀.env.allocs = [])
    (haddrs : (b₀.orphanSessions.map Node.addr).Nodup) (hids : (b₀.orphanSessions.map (·.clientId)).Nodup)
    (xs : List (Bytes × OutPub)) (done : List (Bytes × OutPub)) (b : MqttBroker) (h : Holding b₀ done b)
    (hok : ∀ x ∈ xs, Queueable L x.2 ∧ x.1 ∈ b₀.orphanSessions.map (·.clientId))
    (hseq : (done ++ xs).Pairwise (fun x y => x.1 = y.1 → x.2.enqueueSeq ≠ y.2.enqueueSeq)) :
    Holding b₀ (done ++ xs) (iterRecords (decodeAndInsertOutq L) (xs.map queueRecord) b).2 := by
  induction xs generalizing done b with
  | nil =>
    rw [List.append_nil]
    exact h
  | cons x xs ih =>
    obtain ⟨hx, howner⟩ := hok x List.mem_cons_self
    have hnew : ∀ e ∈ entriesOf x.1 done, e.enqueueSeq ≠ x.2.enqueueSeq := by
      intro e he
      obtain ⟨y, hy, rfl⟩ := List.mem_map.mp he
      obtain ⟨hy, hyid⟩ := List.mem_filter.mp hy
      exact (List.pairwise_append.mp hseq).2.2 y hy x List.mem_cons_self (of_decide_eq_true hyid)
    have hsplit : done ++ x :: xs = (done ++ [x]) ++ xs := by
      rw [List.append_assoc]
      rfl
    rw [List.map_cons, show queueRecord x = ((queueRecord x).1, (queueRecord x).2) from rfl, iterRecords, run_bind, hsplit]
    refine ih (done ++ [x]) _ (h.step hL halloc haddrs hids x hx howner hnew)
      (fun y hy => hok y (List.mem_cons_of_mem x hy)) ?_
    rw [← hsplit]
    exact hseq

/-! ### The expiry sweep -/

/-- What the sweep leaves of a broker, when it looks at these sessions. -/
structure Swept (now : Nat) (os : List OrphanSession) (b b' : MqttBroker) : Prop where
  orphans : b'.orphanSessions =
    b.orphanSessions.filter (fun p => !os.any (fun o => orphanExpired now o && o.addr = p.addr))
  subs : b'.subs =
    b.subs.filter (fun s => !os.any (fun o => orphanExpired now o && (s.client.isNone && s.clientId = some o.clientId)))
  retained : b'.retained = b.retained

theorem restoreExpirySweep_swept (now : Nat) (os : List OrphanSession) (b : MqttBroker)
    (haddrs : (b.orphanSessions.map Node.addr).Nodup) : Swept now os b (restoreExpirySweep now os b).2 := by
  induction os generalizing b with
  | nil => exact ⟨by simp [restoreExpirySweep, run_pure], by simp [restoreExpirySweep, run_pure], rfl⟩
  | cons o os ih =>
    rw [restoreExpirySweep]
    cases hexp : orphanExpired now o with
    | false =>
      obtain ⟨ho, hs, hr⟩ := ih b haddrs
      exact ⟨by simpa [hexp] using ho, by simpa [hexp] using hs, hr⟩
    | true =>
      have hdrop : (orphanDropFull o b).2.orphanSessions = b.orphanSessions.filter (fun p => p.addr ≠ o.addr) :=
        Chain.removeAt_eq_filter haddrs o.addr
      obtain ⟨ho, hs, hr⟩ := ih (orphanDropFull o b).2 (by
        rw [hdrop]
        exact haddrs.sublist (List.filter_sublist.map _))
      simp only [if_true, run_bind]
      refine ⟨?_, ?_, hr⟩
      · rw [ho, hdrop, List.filter_filter]
        refine List.filter_congr ?_
        intro p _
        simp only [List.any_cons, hexp, Bool.true_and, Bool.not_or]
        rw [Bool.and_comm]
        congr 1
        by_cases h : p.addr = o.addr
        · simp [h]
        · simp [h, Ne.symm h]
      · rw [hs, show (orphanDropFull o b).2.subs =
          b.subs.filter (fun s => !(s.client.isNone && s.clientId = some o.clientId)) from rfl, List.filter_filter]
        refine List.filter_congr ?_
        intro s _
        simp only [List.any_cons, hexp, Bool.true_and, Bool.not_or]
        rw [Bool.and_comm]

/-- The sweep over all sessions: those whose expiry has elapsed are gone. -/
theorem Swept.all {now : Nat} {b b' : MqttBroker} (h : Swept now b.orphanSessions b b')
    (haddrs : (b.orphanSessions.map Node.addr).Nodup) :
    b'.orphanSessions = b.orphanSessions.filter (fun o => !orphanExpired now o) := by
  rw [h.orphans]
  refine List.filter_congr ?_
  intro p hp
  congr 1
  rw [Bool.eq_iff_iff, List.any_eq_true]
  constructor
  · rintro ⟨o, ho, hboth⟩
    obtain ⟨hexp, haddr⟩ := Bool.and_eq_true_iff.mp hboth
    have hsame : o = p := List.inj_on_of_nodup_map haddrs ho hp (of_decide_eq_true haddr)
    rw [← hsame]
    exact hexp
  · intro hexp
    exact ⟨p, hp, by simp [hexp]⟩

end WolfMqtt.Persist
