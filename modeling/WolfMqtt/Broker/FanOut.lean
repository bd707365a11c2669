import WolfMqtt.Broker.Reach

/-! The fan-out of a PUBLISH, subscription by subscription.

Every matching subscription of a client that is there adds one entry to the client's
queue (`Fed`), and every matching subscription of a session that is away one entry to its
orphan's (`Offered`). Both walk through the subscriptions in the order of the table, and
a queue that no subscription leads to is as it was. -/
namespace WolfMqtt.Broker

/-! ### What a PUBLISH owes its subscribers -/

/-- No allocation to come fails. -/
def Env.Plenty (env : Env) : Prop := ∀ ok ∈ env.allocs, ok = true

instance (env : Env) : Decidable env.Plenty := inferInstanceAs (Decidable (∀ ok ∈ env.allocs, ok = true))

/-- A new entry with the message of a PUBLISH. -/
structure Conveys (p : InPublish) (qos : QoS) (e : OutPub) : Prop where
  topic : e.topic = p.topicName
  payload : e.payload = p.payload
  props : e.props = p.props
  qos : e.qos = qos
  retain : e.retain = false
  state : e.state = .queued
  duplicate : e.retransmitDup = false

/-- What a subscription gets on the connection at `a`: the QoS, if it points there and matches. -/
def grant (p : InPublish) (a : Nat) (s : BrokerSub) : Option QoS :=
  if s.client = some a ∧ topicMatch s.filter p.topicName then some (p.qos.min s.qos) else none

/-- What a subscription gets in the orphan at `x`: the QoS, if its session is kept there and it
matches. -/
def offer (b : MqttBroker) (p : InPublish) (x : Nat) (s : BrokerSub) : Option QoS :=
  if s.client = none ∧ topicMatch s.filter p.topicName ∧ (s.clientId.bind (orphanFind b)).map (·.addr) = some x
  then some (p.qos.min s.qos) else none

/-- The queue of an orphan after one offer after another: the oldest entries make room. What is
allocated lies at `n` and beyond. -/
inductive Offered (L : Limits) (p : InPublish) (n : Nat) : List QoS → List OutPub → List OutPub → Prop
  | done (xs : List OutPub) : Offered L p n [] xs xs
  | none {qs : List QoS} {xs ys : List OutPub} (h : Offered L p n qs xs ys) : Offered L p n (.qos0 :: qs) xs ys
  | queued {qos : QoS} {qs : List QoS} {xs ys : List OutPub} (hq : qos ≠ .qos0) (e : OutPub) (he : Conveys p qos e)
    (hnew : n ≤ e.addr)
    (h : Offered L p n qs (xs.drop (xs.length + 1 - L.maxOfflineMsgsPerSub) ++ [e]) ys) : Offered L p n (qos :: qs) xs ys

/-- A connection after one delivery after another. Each adds an entry and then drains the queue, but
not that of the publisher itself; one that finds the queue full has the connection closed. -/
inductive Fed (L : Limits) (p : InPublish) (self : Prop) : List QoS → BrokerClient → BrokerClient → Prop
  | done (c : BrokerClient) : Fed L p self [] c c
  | closed {qs : List QoS} {c : BrokerClient} (h : c.connected = false) : Fed L p self qs c c
  | full {qos : QoS} {qs : List QoS} {c c' : BrokerClient} (hup : c.connected = true)
    (hfull : (L.maxQueuedMsgsPerSub : Int) ≤ c.outQ.count) (hgone : c'.connected = false ∧ c'.sockOpen = false)
    (hsame : c'.outQ = c.outQ) : Fed L p self (qos :: qs) c c'
  | queued {qos : QoS} {qs : List QoS} {c c₁ c' : BrokerClient} (hup : c.connected = true)
    (hroom : c.outQ.count < (L.maxQueuedMsgsPerSub : Int)) (e : OutPub) (he : Conveys p qos e)
    (hnew : ∀ x ∈ c.outQ.chain, x.addr ≠ e.addr) (hadd : (c.outQ.enqueue e).chain = c.outQ.chain ++ [e])
    (hdrain : (self ∧ c₁ = {c with outQ := c.outQ.enqueue e}) ∨
      (¬self ∧ ∃ env, c₁ = (drainOutQueue L ⟨{c with outQ := c.outQ.enqueue e}, env⟩).2.c))
    (h : Fed L p self qs c₁ c') : Fed L p self (qos :: qs) c c'

/-! ### Memory and identifiers -/

/-- Connections, subscriptions and orphans are the same. -/
structure Untouched (b b' : MqttBroker) : Prop where
  clients : b'.clients = b.clients
  subs : b'.subs = b.subs
  orphans : b'.orphanSessions = b.orphanSessions
  plenty : b.env.Plenty → b'.env.Plenty

instance : IsPreorder MqttBroker Untouched where
  refl _ := ⟨rfl, rfl, rfl, id⟩
  trans _ _ _ h h' := ⟨h'.clients.trans h.clients, h'.subs.trans h.subs, h'.orphans.trans h.orphans, fun hp => h'.plenty (h.plenty hp)⟩

section supply
variable {L : Limits} {b b' : MqttBroker}

theorem Untouched.client? (h : Untouched b b') (a : Nat) : b'.client? a = b.client? a := by
  rw [MqttBroker.client?, h.clients]
  rfl

theorem Untouched.orphan? (h : Untouched b b') (x : Nat) : b'.orphan? x = b.orphan? x := by
  rw [MqttBroker.orphan?, h.orphans]
  rfl

/-- An allocation that succeeds. -/
theorem alloc_plenty (h : b.env.Plenty) : ∃ b', alloc b = (some b.env.nextAddr, b') ∧ Untouched b b' := by
  unfold alloc Env.alloc
  cases hs : b.env.allocs with
  | nil => exact ⟨_, rfl, rfl, rfl, rfl, fun _ => nofun⟩
  | cons ok rest =>
    have hok : ok = true := h ok (by rw [hs]; exact List.mem_cons_self)
    subst hok
    refine ⟨_, rfl, rfl, rfl, rfl, fun _ ok hin => ?_⟩
    exact h ok (by rw [hs]; exact List.mem_cons_of_mem _ hin)

theorem getTime_untouched (b : MqttBroker) : Untouched b (getTime b).2 := by
  refine ⟨rfl, rfl, rfl, fun h => ?_⟩
  show (Env.getTime b.env).2.Plenty
  unfold Env.getTime
  split <;> exact h

/-- A queue shorter than the identifiers there are always gets one. -/
theorem nextPacketId_some {outQ : List OutPub} (h : outQ.length < 65535) (b : MqttBroker) :
    ∃ id b', nextPacketIdForQueue outQ b = (id, b') ∧ id ≠ 0 ∧ Untouched b b' := by
  have hfirst : (if b.nextPacketId = 0 then 1 else b.nextPacketId) ≠ 0 := by
    split <;> omega
  have htaken : ∀ {fuel candidate}, scanPacketId outQ fuel candidate = none →
      ∀ j < fuel, succPacketId^[j] candidate ∈ outQ.map (·.packetId) := by
    intro fuel
    induction fuel with
    | zero => exact fun _ j hj => absurd hj (Nat.not_lt_zero j)
    | succ fuel ih =>
      intro candidate hnone j hj
      unfold scanPacketId at hnone
      split at hnone
      · rename_i hin
        cases j with
        | zero =>
          obtain ⟨e, he, hid⟩ := List.any_eq_true.mp hin
          exact List.mem_map.mpr ⟨e, he, by simpa using hid⟩
        | succ j =>
          rw [Function.iterate_succ_apply]
          exact ih hnone j (Nat.lt_of_succ_lt_succ hj)
      · cases hnone
  unfold nextPacketIdForQueue
  dsimp only
  generalize (if b.nextPacketId = 0 then 1 else b.nextPacketId) = first at hfirst ⊢
  cases hscan : scanPacketId outQ 65535 first with
  | none =>
    obtain ⟨j, hj, hfree⟩ := exists_succPacketId_notMem hfirst (outQ.map (·.packetId)) (by simpa using h)
    exact absurd (htaken hscan j hj) hfree
  | some id => exact ⟨id, _, rfl, (scanPacketId_spec hscan hfirst).1, rfl, rfl, rfl, fun h => h⟩

end supply

/-! ### Offers to the absent -/

/-- Nothing but the orphan at `x` has changed. -/
structure Aside (x : Nat) (b b' : MqttBroker) : Prop where
  clients : b'.clients = b.clients
  subs : b'.subs = b.subs
  others : ∀ y, y ≠ x → b'.orphan? y = b.orphan? y
  ids : b'.orphanSessions.map (fun o => (o.addr, o.clientId)) = b.orphanSessions.map (fun o => (o.addr, o.clientId))
  plenty : b.env.Plenty → b'.env.Plenty

instance (x : Nat) : IsPreorder MqttBroker (Aside x) where
  refl _ := ⟨rfl, rfl, fun _ _ => rfl, rfl, id⟩
  trans _ _ _ h h' := ⟨h'.clients.trans h.clients, h'.subs.trans h.subs, fun y hy => (h'.others y hy).trans (h.others y hy),
    h'.ids.trans h.ids, fun hp => h'.plenty (h.plenty hp)⟩

section aside
variable {L : Limits} {b b' : MqttBroker} {x : Nat}

theorem orphanFind_addr (h : b'.orphanSessions.map (fun o => (o.addr, o.clientId)) = b.orphanSessions.map (fun o => (o.addr, o.clientId)))
    (clientId : Bytes) : (orphanFind b' clientId).map (·.addr) = (orphanFind b clientId).map (·.addr) := by
  have hfind : ∀ os : List OrphanSession, (os.find? (fun o => o.clientId = clientId)).map (fun o => (o.addr, o.clientId)) =
      (os.map (fun o => (o.addr, o.clientId))).find? (fun q => q.2 = clientId) := by
    intro os
    rw [List.find?_map]
    rfl
  have heq : (orphanFind b' clientId).map (fun o => (o.addr, o.clientId)) = (orphanFind b clientId).map (fun o => (o.addr, o.clientId)) := by
    rw [orphanFind, orphanFind, hfind, hfind, h]
  simpa [Option.map_map, Function.comp_def] using congrArg (Option.map Prod.fst) heq

theorem offer_congr {p : InPublish} (h : b'.orphanSessions.map (fun o => (o.addr, o.clientId)) =
    b.orphanSessions.map (fun o => (o.addr, o.clientId))) : offer b' p x = offer b p x := by
  funext s
  have hfind : (s.clientId.bind (orphanFind b')).map (·.addr) = (s.clientId.bind (orphanFind b)).map (·.addr) := by
    cases s.clientId with
    | none => rfl
    | some id => exact orphanFind_addr h id
  unfold offer
  rw [hfind]

theorem Untouched.aside (h : Untouched b b') (x : Nat) : Aside x b b' :=
  ⟨h.clients, h.subs, fun y _ => h.orphan? y, by rw [h.orphans], h.plenty⟩

theorem updateOrphan_aside {f : OrphanSession → OrphanSession} (hf : ∀ o, (f o).addr = o.addr ∧ (f o).clientId = o.clientId) :
    Aside x b (b.updateOrphan x f) := by
  refine ⟨rfl, rfl, fun y hy => Chain.at?_writeAt_ne (fun o ho => (hf o).1.trans ho) hy, ?_, id⟩
  refine Chain.map_writeAt _ fun o _ => ?_
  rw [(hf o).1, (hf o).2]

/-- The sequence number of the last entry. -/
theorem tailSeq_eq {q : TailQueue OutPub} (h : q.WF) : tailSeq q = (q.chain.getLast?.map (·.enqueueSeq)).getD 0 := by
  unfold tailSeq
  rw [h.tail]
  cases hlast : q.chain.getLast? with
  | none => rfl
  | some e =>
    have hat := h.at? (List.mem_of_getLast? hlast)
    show ((Chain.at? q.chain (Node.addr e)).map _).getD 0 = _
    rw [hat]

/-- Taking the head out of a queue. -/
theorem unlink_head {q : TailQueue OutPub} {head : OutPub} {rest : List OutPub} (h : q.chain = head :: rest) :
    (q.unlink head.addr).chain = rest := by
  show Chain.removeAt head.addr q.chain = rest
  rw [h]
  exact List.eraseP_cons_of_pos (by simp [Node.addr])

/-- An orphan's queue is in order. -/
theorem QInv.orphan_ok (h : QInv b.view) {o : OrphanSession} (ho : b.orphan? x = some o) : QueueOk b.env.nextAddr o.outQ :=
  h.orphan o.view (List.mem_map_of_mem (Chain.at?_mem ho))

theorem QInv.client_ok (h : QInv b.view) {c : BrokerClient} (hc : b.client? x = some c) : QueueOk b.env.nextAddr c.outQ :=
  h.queue c.view (List.mem_map_of_mem (Chain.at?_mem hc))

theorem Fans.inv {P : Label → Prop} {T : Nat → Prop} {O : Prop} (h : Fans L P T O b b') (hb : QInv b.view) : QInv b'.view :=
  QRun.invariant (fun _ _ _ _ hstep hs => hstep.inv hs) h.run hb

/-- Addresses are only used up. -/
theorem QRun.nextAddr_le {P : Label → Prop} (h : QRun L P b.view b'.view) : b.env.nextAddr ≤ b'.env.nextAddr :=
  QRun.invariant (I := fun s => b.env.nextAddr ≤ s.nextAddr) (fun _ _ _ _ hstep hs => Nat.le_trans hs hstep.nextAddr_le) h
    (Nat.le_refl _)

theorem ordinary_all : Ordinary (fun _ => True) := ⟨trivial, trivial⟩

theorem orphanEvictHead_aside (clientId : Bytes) (head : OutPub) : Moves (Aside x) (orphanEvictHead x clientId head) := by
  refine .bind (.modify fun b => updateOrphan_aside fun _ => ⟨rfl, rfl⟩) fun _ => ?_
  refine .bind (.modify fun b => ⟨rfl, rfl, fun _ _ => rfl, rfl, id⟩) fun _ => ?_
  exact .ite (fun _ => .modify fun b => ⟨rfl, rfl, fun _ _ => rfl, rfl, id⟩) (fun _ => .pure _)

/-- The head of the orphan's queue is gone. -/
theorem orphanEvictHead_spec {o : OrphanSession} (ho : b.orphan? x = some o) (clientId : Bytes) (head : OutPub) :
    (orphanEvictHead x clientId head b).2.orphan? x = some (orphanDropHead o head) ∧
      (orphanEvictHead x clientId head b).2.env.nextAddr = b.env.nextAddr := by
  have hat : (b.updateOrphan x (orphanDropHead · head)).orphan? x = some (orphanDropHead o head) :=
    by
    refine Chain.at?_writeAt_self (f := (orphanDropHead · head)) ho ?_
    exact (Chain.at?_addr ho : Node.addr o = x)
  show (whenDo (head.packetId ≠ 0) (persistOps [.delOutPub clientId head.packetId]) _).2.orphan? x = _ ∧
    (whenDo (head.packetId ≠ 0) (persistOps [.delOutPub clientId head.packetId]) _).2.env.nextAddr = _
  unfold whenDo
  split <;> exact ⟨hat, rfl⟩

/-- The oldest entries are dropped until there is room for one more. -/
theorem orphanEvict_spec {o : OrphanSession} (fuel : Nat) (hq : QInv b.view) (ho : b.orphan? x = some o)
    (hfuel : o.outQ.chain.length ≤ fuel) :
    Aside x b (orphanEvict L x fuel b).2 ∧ QInv (orphanEvict L x fuel b).2.view ∧
      (orphanEvict L x fuel b).2.env.nextAddr = b.env.nextAddr ∧
      ∃ o', (orphanEvict L x fuel b).2.orphan? x = some o' ∧ tailSeq o'.outQ ≤ tailSeq o.outQ ∧
        o'.outQ.chain = o.outQ.chain.drop (o.outQ.chain.length + 1 - L.maxOfflineMsgsPerSub) := by
  induction fuel generalizing b o with
  | zero =>
    have hnil : o.outQ.chain = [] := List.length_eq_zero_iff.mp (Nat.le_zero.mp hfuel)
    exact ⟨refl b, hq, rfl, o, ho, Nat.le_refl _, by rw [hnil, List.drop_nil]⟩
  | succ fuel ih =>
    have hok := hq.orphan_ok ho
    unfold orphanEvict
    simp only [run_bind, run_get, ho]
    split
    · rename_i hfull
      rw [hok.wf.count] at hfull
      cases hchain : o.outQ.chain with
      | nil => exact ⟨refl b, hq, rfl, o, ho, Nat.le_refl _, by rw [hchain, List.drop_nil]⟩
      | cons head rest =>
        have hhead : head ∈ o.outQ.chain := by
          rw [hchain]
          exact List.mem_cons_self
        have hq₁ := (orphanEvictHead_fans (L := L) (T := fun _ => True) ordinary_all ho hhead o.clientId).inv hq
        obtain ⟨ho₁, hn₁⟩ := orphanEvictHead_spec ho o.clientId head
        have haside := orphanEvictHead_aside (x := x) o.clientId head b
        have hrest : (orphanDropHead o head).outQ.chain = rest := unlink_head hchain
        have hle : rest.length ≤ fuel := by simpa [hchain] using hfuel
        obtain ⟨haside₂, hq₂, hn₂, o', ho', hseq, hdrop⟩ := ih hq₁ ho₁ (hrest ▸ hle)
        refine ⟨trans_of (Aside x) haside haside₂, hq₂, hn₂.trans hn₁, o', ho', Nat.le_trans hseq ?_, ?_⟩
        · have hwf : (orphanDropHead o head).outQ.WF := (hq₁.orphan_ok ho₁).wf
          rw [tailSeq_eq hwf, tailSeq_eq hok.wf, hrest, hchain]
          cases rest with
          | nil => exact Nat.zero_le _
          | cons y ys =>
            refine Nat.le_of_eq ?_
            rw [List.getLast?_cons_cons]
        · rw [hdrop, hrest, List.length_cons]
          have hlen : (head :: rest).length = o.outQ.chain.length := by rw [hchain]
          rw [List.length_cons] at hlen
          have hone : rest.length + 1 + 1 - L.maxOfflineMsgsPerSub = (rest.length + 1 - L.maxOfflineMsgsPerSub) + 1 := by omega
          rw [hone, List.drop_succ_cons]
    · rename_i hroom
      rw [hok.wf.count] at hroom
      have hzero : o.outQ.chain.length + 1 - L.maxOfflineMsgsPerSub = 0 := by omega
      exact ⟨refl b, hq, rfl, o, ho, Nat.le_refl _, by rw [hzero, List.drop_zero]⟩

/-- The orphan gets the message as its last entry. -/
theorem orphanEnqueue_spec {o : OrphanSession} {p : InPublish} {qos : QoS} (hq : QInv b.view) (ho : b.orphan? x = some o)
    (hqos : qos ≠ .qos0) (hplenty : b.env.Plenty) (hseq : tailSeq o.outQ < maxEnqueueSeq) :
    let b' := (orphanEnqueue L x p.topicName p.payload qos false p.props b).2
    Aside x b b' ∧ QInv b'.view ∧ ∃ e o', b'.orphan? x = some o' ∧ tailSeq o'.outQ ≤ tailSeq o.outQ + 1 ∧ Conveys p qos e ∧
      b.env.nextAddr ≤ e.addr ∧
      o'.outQ.chain = o.outQ.chain.drop (o.outQ.chain.length + 1 - L.maxOfflineMsgsPerSub) ++ [e] := by
  intro b'
  have hinv : QInv b'.view :=
    (orphanEnqueue_fans (L := L) (T := fun _ => True) ordinary_all x p.topicName p.payload qos false p.props b).inv hq
  suffices hspec : Aside x b b' ∧ ∃ e o', b'.orphan? x = some o' ∧ tailSeq o'.outQ ≤ tailSeq o.outQ + 1 ∧ Conveys p qos e ∧
      b.env.nextAddr ≤ e.addr ∧
      o'.outQ.chain = o.outQ.chain.drop (o.outQ.chain.length + 1 - L.maxOfflineMsgsPerSub) ++ [e] from ⟨hspec.1, hinv, hspec.2⟩
  obtain ⟨haside₁, hq₁, hn₁, o₁, ho₁, hseq₁, hdrop⟩ :=
    orphanEvict_spec (L := L) o.outQ.chain.length hq ho (Nat.le_refl _)
  have hb' : b' = (orphanEnqueue L x p.topicName p.payload qos false p.props b).2 := rfl
  unfold orphanEnqueue at hb'
  simp only [run_bind, run_get, ho, if_neg hqos] at hb'
  generalize (orphanEvict L x o.outQ.chain.length b).2 = b₁ at haside₁ hq₁ hn₁ ho₁ hb'
  obtain ⟨b₂, halloc, h₂⟩ := alloc_plenty (haside₁.plenty hplenty)
  have ho₂ : b₂.orphan? x = some o₁ := (h₂.orphan? x).trans ho₁
  have hlen : o₁.outQ.chain.length < 65535 := by
    rw [hdrop, List.length_drop]
    have hmax := L.offline_lt
    omega
  obtain ⟨id, b₃, hnext, hid, h₃⟩ := nextPacketId_some hlen b₂
  have h₄ := getTime_untouched b₃
  rw [halloc] at hb'
  simp only [ho₂, run_bind, hnext, if_neg hid] at hb'
  generalize getTime b₃ = r at h₄ hb'
  rw [run_ite, if_neg (by omega)] at hb'
  have huntouched : Untouched b₁ r.2 := trans_of Untouched (trans_of Untouched h₂ h₃) h₄
  have ho₄ : r.2.orphan? x = some o₁ := (huntouched.orphan? x).trans ho₁
  let e := newOutPub b₁.env.nextAddr p.topicName p.payload p.props qos id false o₁.protocolLevel r.1 (tailSeq o₁.outQ + 1) 0
  have hshape : ∃ env, b' = {r.2.updateOrphan x (fun o => {o with outQ := o.outQ.enqueue e}) with env := env} ∧
      (r.2.env.Plenty → env.Plenty) := ⟨_, hb', fun h => h⟩
  obtain ⟨env, hb', henv⟩ := hshape
  have hok := hq₁.orphan_ok ho₁
  have hchain := TailQueue.enqueue_chain o₁.outQ e hok.wf
  have hfresh : b.env.nextAddr ≤ e.addr := Nat.le_of_eq hn₁.symm
  have hat : (r.2.updateOrphan x (fun o => {o with outQ := o.outQ.enqueue e})).orphan? x =
      some {o₁ with outQ := o₁.outQ.enqueue e} := by
    refine Chain.at?_writeAt_self (f := fun o : OrphanSession => {o with outQ := o.outQ.enqueue e}) ho₄ ?_
    exact (Chain.at?_addr ho₄ : Node.addr o₁ = x)
  have hupdate : Aside x r.2 (r.2.updateOrphan x (fun o => {o with outQ := o.outQ.enqueue e})) :=
    updateOrphan_aside fun _ => ⟨rfl, rfl⟩
  refine ⟨?_, e, {o₁ with outQ := o₁.outQ.enqueue e}, ?_, ?_, ⟨rfl, rfl, rfl, rfl, rfl, rfl, rfl⟩, hfresh, ?_⟩
  · refine trans_of (Aside x) haside₁ (trans_of (Aside x) (huntouched.aside x) ?_)
    rw [hb']
    exact ⟨hupdate.clients, hupdate.subs, hupdate.others, hupdate.ids, henv⟩
  · rw [hb']
    exact hat
  · have hwf : (o₁.outQ.enqueue e).WF := by
      refine TailQueue.enqueue_wf o₁.outQ e hok.wf fun hin => ?_
      obtain ⟨y, hy, heq⟩ := List.mem_map.mp hin
      exact absurd heq (Nat.ne_of_lt (hok.fresh y hy))
    show tailSeq (o₁.outQ.enqueue e) ≤ _
    rw [tailSeq_eq hwf, hchain, List.getLast?_append]
    show tailSeq o₁.outQ + 1 ≤ _
    omega
  · show (o₁.outQ.enqueue e).chain = _
    rw [hchain, hdrop]

end aside

/-! ### The first pass -/

/-- Where a matching subscription of a client that is there leads. -/
def destination (b : MqttBroker) (p : InPublish) (s : BrokerSub) : Option FanoutTarget :=
  if topicMatch s.filter p.topicName then
    s.client.bind (fun a => (b.client? a).bind (fun c =>
      if c.protocolLevel ≠ 0 ∧ c.connected then some ⟨a, p.qos.min s.qos⟩ else none))
  else none

section collect
variable {L : Limits} {b b' : MqttBroker} {p : InPublish}

theorem fanoutAdd_plenty {fl : FanoutList} (hfl : fl.truncated = false) (t : FanoutTarget) (h : b.env.Plenty) :
    ∃ fl' b', fanoutAdd fl t b = (fl', b') ∧ fl'.items = fl.items ++ [t] ∧ fl'.truncated = false ∧ Untouched b b' := by
  unfold fanoutAdd
  rw [if_neg (by simp [hfl])]
  split
  · obtain ⟨b', halloc, huntouched⟩ := alloc_plenty h
    rw [run_bind, halloc]
    exact ⟨_, b', rfl, rfl, hfl, huntouched⟩
  · exact ⟨_, b, rfl, rfl, hfl, refl b⟩

/-- What the first pass leaves: all destinations, and one offer after another to each orphan. -/
structure Collected (L : Limits) (p : InPublish) (ss : List BrokerSub) (fl : FanoutList) (b : MqttBroker)
    (fl' : FanoutList) (b' : MqttBroker) : Prop where
  items : fl'.items = fl.items ++ ss.filterMap (destination b p)
  clients : b'.clients = b.clients
  subs : b'.subs = b.subs
  plenty : b'.env.Plenty
  inv : QInv b'.view
  orphans : ∀ x o, b.orphan? x = some o →
    ∃ o', b'.orphan? x = some o' ∧ ∀ n ≤ b.env.nextAddr, Offered L p n (List.filterMap (offer b p x) ss) o.outQ.chain o'.outQ.chain

theorem destination_congr (h : b'.clients = b.clients) : destination b' p = destination b p := by
  funext s
  unfold destination MqttBroker.client?
  rw [h]

theorem publishTargets_spec (subs : List BrokerSub) (fl : FanoutList) (hfl : fl.truncated = false) (hq : QInv b.view)
    (hplenty : b.env.Plenty) (hseq : ∀ x o, b.orphan? x = some o → tailSeq o.outQ + subs.length ≤ maxEnqueueSeq) :
    Collected L p subs fl b (publishTargets L p subs fl b).1 (publishTargets L p subs fl b).2 := by
  induction subs generalizing fl b with
  | nil => exact ⟨by rw [List.filterMap_nil, List.append_nil]; rfl, rfl, rfl, hplenty, hq, fun x o ho => ⟨o, ho, fun _ _ => .done _⟩⟩
  | cons s rest ih =>
    have hseq' : ∀ x o, b.orphan? x = some o → tailSeq o.outQ + rest.length ≤ maxEnqueueSeq := fun x o ho => by
      have hle := hseq x o ho
      rw [List.length_cons] at hle
      omega
    -- a subscription that leads nowhere
    have hskip : destination b p s = none → (∀ x, offer b p x s = none) →
        Collected L p (s :: rest) fl b (publishTargets L p rest fl b).1 (publishTargets L p rest fl b).2 := by
      intro hdest hoffer
      have hrest := ih fl hfl hq hplenty hseq'
      refine ⟨?_, hrest.clients, hrest.subs, hrest.plenty, hrest.inv, fun x o ho => ?_⟩
      · rw [List.filterMap_cons_none hdest]
        exact hrest.items
      · rw [List.filterMap_cons_none (hoffer x)]
        exact hrest.orphans x o ho
    unfold publishTargets
    split
    · rename_i hmatch
      have hmatch : topicMatch s.filter p.topicName = false := by simpa using hmatch
      exact hskip (by simp [destination, hmatch]) fun x => by simp [offer, hmatch]
    rename_i hmatch
    have hmatch : topicMatch s.filter p.topicName = true := by simpa using hmatch
    cases hclient : s.client with
    | some a =>
      have hoffer : ∀ x, offer b p x s = none := fun x => by simp [offer, hclient]
      simp only [run_bind, run_get]
      cases hc : b.client? a with
      | none => exact hskip (by simp [destination, hmatch, hclient, hc]) hoffer
      | some c =>
        dsimp only
        split
        · rename_i hup
          obtain ⟨fl₁, b₁, hadd, hitems, hfl₁, huntouched⟩ := fanoutAdd_plenty hfl ⟨a, p.qos.min s.qos⟩ hplenty
          have hfans := fanoutAdd_fans (L := L) (T := fun _ => True) (O := True) ordinary_all fl ⟨a, p.qos.min s.qos⟩ b
          rw [hadd] at hfans
          have hq₁ : QInv b₁.view := hfans.inv hq
          have hle₁ := hfans.run.nextAddr_le
          rw [run_bind, hadd]
          have hrest := ih fl₁ hfl₁ hq₁ (huntouched.plenty hplenty) fun x o ho => hseq' x o (huntouched.orphan? x ▸ ho)
          refine ⟨?_, hrest.clients.trans huntouched.clients, hrest.subs.trans huntouched.subs, hrest.plenty, hrest.inv, fun x o ho => ?_⟩
          · have hdest : destination b p s = some ⟨a, p.qos.min s.qos⟩ := by simp [destination, hmatch, hclient, hc, hup]
            rw [hrest.items, hitems, List.filterMap_cons_some hdest, destination_congr huntouched.clients, List.append_assoc]
            rfl
          · rw [List.filterMap_cons_none (hoffer x), ← offer_congr (by rw [huntouched.orphans])]
            obtain ⟨o₁, ho₁, hoffered⟩ := hrest.orphans x o ((huntouched.orphan? x).trans ho)
            exact ⟨o₁, ho₁, fun n hn => hoffered n (Nat.le_trans hn hle₁)⟩
        · rename_i hdown
          exact hskip (by simp [destination, hmatch, hclient, hc, hdown]) hoffer
    | none =>
      have hdest : destination b p s = none := by simp [destination, hclient]
      simp only [run_bind, run_get]
      cases ho : s.clientId.bind (orphanFind b) with
      | none => exact hskip hdest fun x => by simp only [offer, ho, Option.map_none, reduceCtorEq, and_false, if_false]
      | some o =>
        have hmem : o ∈ b.orphanSessions := by
          obtain ⟨id, -, hfind⟩ := Option.bind_eq_some_iff.mp ho
          exact List.mem_of_find?_eq_some hfind
        have hnodup : (b.orphanSessions.map Node.addr).Nodup := by
          have hn := hq.orphans_nodup
          rw [show b.view.orphans = b.orphanSessions.map OrphanSession.view from rfl, List.map_map] at hn
          exact hn
        have hat : b.orphan? o.addr = some o := Chain.at?_of_mem hnodup hmem
        have hself : offer b p o.addr s = some (p.qos.min s.qos) := by simp only [offer, hclient, hmatch, ho, Option.map_some, and_self, if_true]
        have hother : ∀ x, x ≠ o.addr → offer b p x s = none := fun x hx => by
          simp only [offer, ho, Option.map_some, Option.some.injEq, Ne.symm hx, and_false, if_false]
        dsimp only [whenDo]
        by_cases hq0 : p.qos.min s.qos = .qos0
        · rw [if_neg (by simp [hq0])]
          have hrest := ih fl hfl hq hplenty hseq'
          refine ⟨?_, hrest.clients, hrest.subs, hrest.plenty, hrest.inv, fun x o' ho' => ?_⟩
          · rw [List.filterMap_cons_none hdest]
            exact hrest.items
          · obtain ⟨o'', ho'', hoffered⟩ := hrest.orphans x o' ho'
            by_cases hx : x = o.addr
            · subst hx
              rw [List.filterMap_cons_some hself, hq0]
              exact ⟨o'', ho'', fun n hn => .none (hoffered n hn)⟩
            · rw [List.filterMap_cons_none (hother x hx)]
              exact ⟨o'', ho'', hoffered⟩
        · rw [if_pos hq0, run_bind]
          have hroom : tailSeq o.outQ < maxEnqueueSeq := by
            have hle := hseq _ o hat
            rw [List.length_cons] at hle
            omega
          obtain ⟨haside, hq₁, e, o₁, ho₁, hseq₁, hconveys, hnew, hchain⟩ := orphanEnqueue_spec (L := L) (p := p) hq hat hq0 hplenty hroom
          have hle₁ := (orphanEnqueue_fans (L := L) (T := fun _ => True) ordinary_all o.addr p.topicName p.payload
            (p.qos.min s.qos) false p.props b).run.nextAddr_le
          generalize (orphanEnqueue L o.addr p.topicName p.payload (p.qos.min s.qos) false p.props b).2 = b₁ at haside hq₁ ho₁ hle₁ ⊢
          have hrest := ih fl hfl hq₁ (haside.plenty hplenty) fun x o' ho' => by
            by_cases hx : x = o.addr
            · subst hx
              cases ho₁.symm.trans ho'
              have hle := hseq _ o hat
              rw [List.length_cons] at hle
              omega
            · exact hseq' x o' ((haside.others x hx).symm.trans ho')
          refine ⟨?_, hrest.clients.trans haside.clients, hrest.subs.trans haside.subs, hrest.plenty, hrest.inv, fun x o' ho' => ?_⟩
          · rw [List.filterMap_cons_none hdest, ← destination_congr haside.clients]
            exact hrest.items
          · by_cases hx : x = o.addr
            · subst hx
              cases hat.symm.trans ho'
              obtain ⟨o₂, ho₂, hoffered⟩ := hrest.orphans _ o₁ ho₁
              rw [offer_congr haside.ids, hchain] at hoffered
              rw [List.filterMap_cons_some hself]
              exact ⟨o₂, ho₂, fun n hn => .queued hq0 e hconveys (Nat.le_trans hn hnew) (hoffered n (Nat.le_trans hn hle₁))⟩
            · rw [List.filterMap_cons_none (hother x hx), ← offer_congr haside.ids]
              obtain ⟨o₂, ho₂, hoffered⟩ := hrest.orphans x o' ((haside.others x hx).trans ho')
              exact ⟨o₂, ho₂, fun n hn => hoffered n (Nat.le_trans hn hle₁)⟩

end collect

/-! ### The second pass -/

/-- The environment after a function of a connection still has what is to be allocated. -/
def SameAllocs (s s' : Conn) : Prop := s'.env.allocs = s.env.allocs

instance : IsPreorder Conn SameAllocs where
  refl _ := rfl
  trans _ _ _ h h' := Eq.trans h' h

section deliver
variable {L : Limits} {b b' : MqttBroker} {p : InPublish}

theorem Writes.sameAllocs {s s' : Conn} (h : Writes s s') : SameAllocs s s' :=
  (congrArg (fun s : Conn => s.env.allocs) h).symm

theorem writes_sameAllocs {α : Type} {m : ClientM α} (h : Moves Writes m) : Moves SameAllocs m := h.mono fun _ _ h => h.sameAllocs

theorem noteObs_sameAllocs (obs : List Obs) : Moves SameAllocs (noteObs obs) := fun _ => rfl

theorem updateOutPub_sameAllocs (a : Nat) (f : OutPub → OutPub) : Moves SameAllocs (updateOutPub a f) := fun _ => rfl

theorem modifyClient_sameAllocs (f : BrokerClient → BrokerClient) : Moves SameAllocs (modifyClient f) := fun _ => rfl

theorem readClient_sameAllocs {α : Type} (f : BrokerClient → α) : Moves SameAllocs (readClient f) := fun _ => rfl

theorem drainUnlink_sameAllocs (e : OutPub) (cause : Cause) : Moves SameAllocs (drainUnlink e cause) := fun _ => rfl

theorem persistDelOutPub_sameAllocs (packetId : Nat) : Moves SameAllocs (persistDelOutPub packetId) := by
  refine .bind (readClient_sameAllocs _) fun id => ?_
  cases id <;> exact fun _ => rfl

theorem drainPubrel_sameAllocs (e : OutPub) (sent : Int) : Moves SameAllocs (drainPubrel L e sent) := by
  refine .bind (fun _ => rfl) fun _ => .bind (writes_sameAllocs (encodeInto_writes _)) fun _ => .ite (fun _ => .pure _) fun _ => ?_
  refine .bind (readClient_sameAllocs _) fun _ => .ite (fun _ => .pure _) fun _ => .bind (noteObs_sameAllocs _) fun _ => ?_
  refine .bind (writes_sameAllocs (packetWrite_writes L _)) fun _ => .ite (fun _ => ?_) fun _ => ?_
  · exact .bind (modifyClient_sameAllocs _) fun _ => .pure _
  · refine .bind (modifyClient_sameAllocs _) fun _ => .ite (fun _ => .pure _) fun _ => ?_
    exact .bind (updateOutPub_sameAllocs _ _) fun _ => .pure _

theorem drainPublish_sameAllocs (e : OutPub) (sent : Int) : Moves SameAllocs (drainPublish L e sent) := by
  refine .bind (fun _ => rfl) fun _ => .bind (writes_sameAllocs (encodeInto_writes _)) fun _ => .ite (fun _ => ?_) fun _ => ?_
  · refine .bind (readClient_sameAllocs _) fun _ => .ite (fun _ => .pure _) fun _ => .bind (modifyClient_sameAllocs _) fun _ => ?_
    refine .bind (drainUnlink_sameAllocs _ _) fun _ => .bind (.ite (fun _ => ?_) fun _ => .pure _) fun _ => .pure _
    exact persistDelOutPub_sameAllocs _
  · refine .bind (readClient_sameAllocs _) fun _ => .ite (fun _ => .pure _) fun _ => ?_
    refine .bind (.bind (readClient_sameAllocs _) fun _ => .ite (fun _ => noteObs_sameAllocs _) fun _ => .pure _) fun _ => .bind (fun _ => rfl) fun _ => ?_
    refine .bind (writes_sameAllocs (packetWrite_writes L _)) fun _ => .ite (fun _ => ?_) fun _ => ?_
    · refine .bind (modifyClient_sameAllocs _) fun _ => .bind (readClient_sameAllocs _) fun _ => ?_
      exact .bind (.ite (fun _ => updateOutPub_sameAllocs _ _) fun _ => .pure _) fun _ => .pure _
    · refine .bind (modifyClient_sameAllocs _) fun _ => .bind (writes_sameAllocs (zeroTxBuf_writes _)) fun _ => .ite (fun _ => ?_) fun _ => ?_
      · refine .bind (readClient_sameAllocs _) fun _ => .bind (.ite (fun _ => updateOutPub_sameAllocs _ _) fun _ => .pure _) fun _ => ?_
        refine .bind (.ite (fun _ => ?_) fun _ => .pure _) fun _ => .pure _
        exact .bind (drainUnlink_sameAllocs _ _) fun _ => modifyClient_sameAllocs _
      · refine .bind (noteObs_sameAllocs _) fun _ => .ite (fun _ => ?_) fun _ => ?_
        · exact .bind (drainUnlink_sameAllocs _ _) fun _ => .pure _
        · exact .bind (updateOutPub_sameAllocs _ _) fun _ => .bind (modifyClient_sameAllocs _) fun _ => .pure _

theorem drainLoop_sameAllocs (cap : Int) (addrs : List Nat) (sent : Int) : Moves SameAllocs (drainLoop L cap addrs sent) := by
  induction addrs generalizing sent with
  | nil => exact .pure _
  | cons a rest ih =>
    refine .bind (readClient_sameAllocs _) fun found => ?_
    cases found with
    | none => exact ih sent
    | some e =>
      refine .bind ?_ fun step => ?_
      · refine .ite (fun _ => .ite (fun _ => drainPubrel_sameAllocs e sent) fun _ => .pure _) fun _ => ?_
        exact .bind (readClient_sameAllocs _) fun _ => .ite (fun _ => .pure _) fun _ => drainPublish_sameAllocs e sent
      · cases step with
        | stop rc => exact .pure _
        | next sent => exact ih sent

theorem drainOutQueue_sameAllocs : Moves SameAllocs (drainOutQueue L) :=
  .bind (readClient_sameAllocs _) fun _ => .ite (fun _ => .pure _) fun _ => drainLoop_sameAllocs _ _ _

/-- Nothing but the connection at `a` has changed. -/
structure Beside (a : Nat) (b b' : MqttBroker) : Prop where
  others : ∀ y, y ≠ a → b'.client? y = b.client? y
  orphans : b'.orphanSessions = b.orphanSessions
  plenty : b.env.Plenty → b'.env.Plenty

theorem Untouched.beside (h : Untouched b b') (a : Nat) : Beside a b b' := ⟨fun y _ => h.client? y, h.orphans, h.plenty⟩

theorem Beside.trans {a : Nat} {b b₁ b₂ : MqttBroker} (h₁ : Beside a b b₁) (h₂ : Beside a b₁ b₂) : Beside a b b₂ :=
  ⟨fun y hy => (h₂.others y hy).trans (h₁.others y hy), h₂.orphans.trans h₁.orphans, fun h => h₂.plenty (h₁.plenty h)⟩

/-- A function of a connection, run on the one at `a`. -/
theorem onClient_beside {α : Type} {a : Nat} {c : BrokerClient} (hc : b.client? a = some c) (default : α) {m : ClientM α}
    (haddr : (m ⟨c, b.env⟩).2.c.addr = c.addr) (hm : SameAllocs ⟨c, b.env⟩ (m ⟨c, b.env⟩).2) :
    Beside a b (onClient a default m b).2 ∧ (onClient a default m b).2.client? a = some (m ⟨c, b.env⟩).2.c := by
  have hca : c.addr = a := Chain.at?_addr hc
  rw [onClient_some hc]
  refine ⟨⟨fun y hy => ?_, rfl, fun h => ?_⟩, ?_⟩
  · exact Chain.at?_writeAt_ne_of (f := fun _ => (m ⟨c, b.env⟩).2.c) (fun x _ => haddr.trans hca) hy
  · show ∀ ok ∈ (m ⟨c, b.env⟩).2.env.allocs, ok = true
    rw [hm]
    exact h
  · exact Chain.at?_writeAt_self (f := fun _ => (m ⟨c, b.env⟩).2.c) hc (haddr.trans hca)

/-- A connection whose queue is full is closed. -/
theorem quotaDisconnect_beside {a : Nat} {c : BrokerClient} (hc : b.client? a = some c) :
    ∃ c', Beside a b (onClient a () (quotaDisconnect L) b).2 ∧ (onClient a () (quotaDisconnect L) b).2.client? a = some c' ∧
      (c'.connected = false ∧ c'.sockOpen = false) ∧ c'.outQ = c.outQ := by
  have hwrites := sendDisconnect_writes L Reason.quotaExceeded ⟨c, b.env⟩
  have hgone := onClient_beside (m := quotaDisconnect L) hc () (congrArg (fun s : Conn => s.c.addr) hwrites).symm hwrites.sameAllocs
  exact ⟨_, hgone.1, hgone.2, ⟨rfl, rfl⟩, hwrites.outQ⟩

/-- A copy is put at the end of a queue, where it is not yet. -/
theorem enqueueFor_spec {a : Nat} {c : BrokerClient} (qos : QoS) (hq : QInv b.view) (hplenty : b.env.Plenty)
    (hc : b.client? a = some c) (hroom : c.outQ.count < (L.maxQueuedMsgsPerSub : Int)) :
    ∃ e b', enqueueFor a p.topicName p.payload p.props qos false b = (Code.success, b') ∧ Beside a b b' ∧ Conveys p qos e ∧
      (∀ x ∈ c.outQ.chain, x.addr ≠ e.addr) ∧ (c.outQ.enqueue e).chain = c.outQ.chain ++ [e] ∧
      b'.client? a = some {c with outQ := c.outQ.enqueue e} := by
  have hok := hq.client_ok hc
  have hlen : c.outQ.chain.length < 65535 := by
    have hcount := hok.wf.count
    have hmax := L.queued_lt
    omega
  have hnew : ∀ x ∈ c.outQ.chain, x.addr ≠ b.env.nextAddr := fun x hx => Nat.ne_of_lt (hok.fresh x hx)
  obtain ⟨b₁, halloc, h₁⟩ := alloc_plenty hplenty
  have hc₁ : b₁.client? a = some c := (h₁.client? a).trans hc
  unfold enqueueFor
  rw [run_bind, halloc]
  dsimp only
  rw [run_bind, run_get]
  dsimp only
  rw [hc₁]
  dsimp only
  have hput : ∀ {b₂ : MqttBroker} (e : OutPub), Untouched b b₂ →
      Beside a b (onClient a () (enqueueOutPub e) b₂).2 ∧
        (onClient a () (enqueueOutPub e) b₂).2.client? a = some {c with outQ := c.outQ.enqueue e} := by
    intro b₂ e h₂
    have hput := onClient_beside (m := enqueueOutPub e) ((h₂.client? a).trans hc) () rfl rfl
    exact ⟨(h₂.beside a).trans hput.1, hput.2⟩
  split
  · have hput := hput (newOutPub b.env.nextAddr p.topicName p.payload p.props qos 0 false c.protocolLevel 0 0 0) h₁
    exact ⟨_, _, rfl, hput.1, ⟨rfl, rfl, rfl, rfl, rfl, rfl, rfl⟩, hnew, TailQueue.enqueue_chain _ _ hok.wf, hput.2⟩
  · obtain ⟨id, b₂, hnext, hid, h₂⟩ := nextPacketId_some hlen b₁
    rw [run_bind, hnext]
    dsimp only
    rw [if_neg hid]
    have hput := hput (newOutPub b.env.nextAddr p.topicName p.payload p.props qos id false c.protocolLevel 0 0 0)
      (trans_of Untouched h₁ h₂)
    exact ⟨_, _, rfl, hput.1, ⟨rfl, rfl, rfl, rfl, rfl, rfl, rfl⟩, hnew, TailQueue.enqueue_chain _ _ hok.wf, hput.2⟩

/-- A connection that is down gets nothing more. -/
theorem Fed.of_down {self : Prop} {qs : List QoS} {c c' : BrokerClient} (h : Fed L p self qs c c') (hdown : c.connected = false) :
    c' = c := by
  cases h with
  | done => rfl
  | closed => rfl
  | full hup =>
    rw [hdown] at hup
    cases hup
  | queued hup =>
    rw [hdown] at hup
    cases hup

/-- One delivery. -/
theorem deliverPublish_spec (from_ : Nat) (t : FanoutTarget) {c : BrokerClient} (hq : QInv b.view) (hplenty : b.env.Plenty)
    (hc : b.client? t.client = some c) :
    let b' := (deliverPublish L from_ p t b).2
    Beside t.client b b' ∧ ∃ c', b'.client? t.client = some c' ∧
      ∀ qs c'', Fed L p (t.client = from_) qs c' c'' → Fed L p (t.client = from_) (t.qos :: qs) c c'' := by
  unfold deliverPublish
  simp only [run_bind, run_get, hc]
  split
  · rename_i hdown
    have hdown : c.connected = false := by simpa using hdown
    refine ⟨(refl b : Untouched b b).beside _, c, hc, fun qs c'' hfed => ?_⟩
    rw [hfed.of_down hdown]
    exact .closed hdown
  rename_i hup
  have hup : c.connected = true := by simpa using hup
  split
  · rename_i hfull
    obtain ⟨c', hbeside, hc', hgone, hsame⟩ := quotaDisconnect_beside (L := L) hc
    refine ⟨hbeside, c', hc', fun qs c'' hfed => ?_⟩
    rw [hfed.of_down hgone.1]
    exact .full hup hfull hgone hsame
  · rename_i hroom
    obtain ⟨e, b₁, henq, hbeside, hconveys, hnew, hadd, hc₁⟩ := enqueueFor_spec (p := p) t.qos hq hplenty hc (Int.not_le.mp hroom)
    rw [run_bind, henq]
    dsimp only [whenDo]
    by_cases hself : t.client = from_
    · rw [if_neg (by simp [hself])]
      refine ⟨hbeside, _, hc₁, fun qs c'' hfed => ?_⟩
      exact .queued hup (Int.not_le.mp hroom) e hconveys hnew hadd (.inl ⟨hself, rfl⟩) hfed
    · rw [if_pos ⟨rfl, hself⟩]
      have hserves := drainOutQueue_serves (L := L) (P := fun _ => True) trivial ⟨{c with outQ := c.outQ.enqueue e}, b₁.env⟩
      have hdrain := onClient_beside (m := drainOutQueue L) hc₁ (0 : Int) hserves.served.addr (drainOutQueue_sameAllocs _)
      refine ⟨hbeside.trans hdrain.1, _, hdrain.2, fun qs c'' hfed => ?_⟩
      exact .queued hup (Int.not_le.mp hroom) e hconveys hnew hadd (.inr ⟨hself, b₁.env, rfl⟩) hfed

/-- One delivery after another: every connection sees those that are for it, in their order. -/
theorem deliverAll_spec (deliver : FanoutTarget → BrokerM Unit) (all : List FanoutTarget → BrokerM Unit)
    {R : Nat → List QoS → BrokerClient → BrokerClient → Prop} (hnil : ∀ b, (all [] b).2 = b)
    (hcons : ∀ t ts b, (all (t :: ts) b).2 = (all ts (deliver t b).2).2) (hdone : ∀ x c, R x [] c c)
    (hinv : ∀ t b, QInv b.view → QInv (deliver t b).2.view)
    (hnone : ∀ (t : FanoutTarget) (b : MqttBroker), b.client? t.client = none → (deliver t b).2 = b)
    (hone : ∀ (t : FanoutTarget) (b : MqttBroker) (c : BrokerClient), QInv b.view → b.env.Plenty → b.client? t.client = some c →
      Beside t.client b (deliver t b).2 ∧ ∃ c', (deliver t b).2.client? t.client = some c' ∧
        ∀ qs c'', R t.client qs c' c'' → R t.client (t.qos :: qs) c c'')
    (ts : List FanoutTarget) (hq : QInv b.view) (hplenty : b.env.Plenty) :
    (all ts b).2.orphanSessions = b.orphanSessions ∧ (all ts b).2.env.Plenty ∧
      ∀ x c, b.client? x = some c → ∃ c', (all ts b).2.client? x = some c' ∧
        R x ((ts.filter (fun t => t.client = x)).map (·.qos)) c c' := by
  induction ts generalizing b with
  | nil =>
    rw [hnil]
    exact ⟨rfl, hplenty, fun x c hc => ⟨c, hc, hdone x c⟩⟩
  | cons t rest ih =>
    have hq₁ := hinv t b hq
    rw [hcons]
    cases hc : b.client? t.client with
    | none =>
      rw [hnone t b hc]
      obtain ⟨horphans, hplenty', hrest⟩ := ih hq hplenty
      refine ⟨horphans, hplenty', fun x c hx => ?_⟩
      have hne : t.client ≠ x := fun heq => by
        rw [heq, hx] at hc
        cases hc
      rw [List.filter_cons_of_neg (by simpa using hne)]
      exact hrest x c hx
    | some c₀ =>
      obtain ⟨hbeside, c₁, hc₁, hfed₁⟩ := hone t b c₀ hq hplenty hc
      obtain ⟨horphans, hplenty', hrest⟩ := ih hq₁ (hbeside.plenty hplenty)
      refine ⟨horphans.trans hbeside.orphans, hplenty', fun x c hx => ?_⟩
      by_cases hxt : t.client = x
      · subst hxt
        cases hc.symm.trans hx
        obtain ⟨c', hc', hfed⟩ := hrest _ c₁ hc₁
        rw [List.filter_cons_of_pos (by simp)]
        exact ⟨c', hc', hfed₁ _ _ hfed⟩
      · rw [List.filter_cons_of_neg (by simpa using hxt)]
        exact hrest x c ((hbeside.others x (Ne.symm hxt)).trans hx)

theorem deliverPublishes_spec (from_ : Nat) (ts : List FanoutTarget) (hq : QInv b.view) (hplenty : b.env.Plenty) :
    let b' := (deliverPublishes L from_ p ts b).2
    b'.orphanSessions = b.orphanSessions ∧ b'.env.Plenty ∧
      ∀ x c, b.client? x = some c → ∃ c', b'.client? x = some c' ∧
        Fed L p (x = from_) ((ts.filter (fun t => t.client = x)).map (·.qos)) c c' := by
  refine deliverAll_spec (deliverPublish L from_ p) (deliverPublishes L from_ p) (fun _ => rfl) (fun _ _ _ => rfl)
    (fun _ c => .done c) (fun t b hq => ?_) (fun t b hc => ?_) (fun t _ _ hq => deliverPublish_spec from_ t hq) ts hq hplenty
  · exact (deliverPublish_fans (L := L) (T := fun _ => True) (O := True) ordinary_all from_ p t trivial b).inv hq
  · unfold deliverPublish
    simp only [run_bind, run_get, hc]
    rfl

theorem grants_eq {x : Nat} {c : BrokerClient} (hc : b.client? x = some c) (hup : c.connected = true)
    (hlevel : c.protocolLevel ≠ 0) (subs : List BrokerSub) :
    ((subs.filterMap (destination b p)).filter (fun t => t.client = x)).map (·.qos) = subs.filterMap (grant p x) := by
  induction subs with
  | nil => rfl
  | cons s rest ih =>
    by_cases hs : s.client = some x ∧ topicMatch s.filter p.topicName = true
    · have hdest : destination b p s = some ⟨x, p.qos.min s.qos⟩ := by simp [destination, hs.1, hs.2, hc, hup, hlevel]
      have hgrant : grant p x s = some (p.qos.min s.qos) := by rw [grant, if_pos hs]
      rw [List.filterMap_cons_some hdest, List.filterMap_cons_some hgrant, List.filter_cons_of_pos (by simp), List.map_cons, ih]
    · have hgrant : grant p x s = none := by rw [grant, if_neg hs]
      rw [List.filterMap_cons_none hgrant]
      cases hdest : destination b p s with
      | none => rw [List.filterMap_cons_none hdest, ih]
      | some t =>
        have hne : t.client ≠ x := by
          rintro rfl
          unfold destination at hdest
          split at hdest
          · rename_i hmatch
            obtain ⟨a, ha, hdest⟩ := Option.bind_eq_some_iff.mp hdest
            obtain ⟨d, -, hdest⟩ := Option.bind_eq_some_iff.mp hdest
            split at hdest
            · cases hdest
              exact hs ⟨ha, hmatch⟩
            · cases hdest
          · cases hdest
        rw [List.filterMap_cons_some hdest, List.filter_cons_of_neg (by simpa using hne), ih]

end deliver

/-! ### The whole of a PUBLISH -/

/-- The PUBLISH is taken in from the connection at `a`, and is no QoS 2 duplicate. The decoder lets no
empty topic through but with a Topic Alias, which is refused here. -/
structure TakesIn (L : Limits) (b : MqttBroker) (a : Nat) (p : InPublish) : Prop where
  client : ∃ c, b.client? a = some c ∧ (qos2Admit L p ⟨c, b.env⟩).1 = .fresh ∧
    ¬(c.protocolLevel ≥ level5 ∧ (findProp p.props .subscriptionId).isSome) ∧
    ¬(c.protocolLevel ≥ level5 ∧ (findProp p.props .topicAlias).isSome)
  whole : ¬(p.totalLen > 0 ∧ p.buffer.length < p.totalLen)
  topic : p.topicName ≠ []

/-- The same queue, of a connection as much there as before. -/
def QueueKept (c c' : BrokerClient) : Prop := c'.outQ = c.outQ ∧ c'.connected = c.connected

section publish
variable {L : Limits} {b b' : MqttBroker} {p : InPublish} {a : Nat}

theorem fanOut_spec (hb : Phase L Nowhere b) (hplenty : b.env.Plenty)
    (hseq : ∀ o ∈ b.orphanSessions, tailSeq o.outQ + b.subs.length ≤ maxEnqueueSeq) :
    let b' := (fanOut L a p b).2
    b'.env.Plenty ∧
    (∀ x c, b.client? x = some c → ∃ c', b'.client? x = some c' ∧ Fed L p (x = a) (b.subs.filterMap (grant p x)) c c') ∧
    ∀ x o, b.orphan? x = some o →
      ∃ o', b'.orphan? x = some o' ∧
        ∀ n ≤ b.env.nextAddr, Offered L p n (b.subs.filterMap (offer b p x)) o.outQ.chain o'.outQ.chain := by
  have hcollect : Collected L p b.subs {} b (publishTargets L p b.subs {} b).1 (publishTargets L p b.subs {} b).2 :=
    publishTargets_spec b.subs {} rfl hb.queues hplenty fun x o ho => hseq o (Chain.at?_mem ho)
  have hdeliver := deliverPublishes_spec (L := L) (p := p) a (publishTargets L p b.subs {} b).1.items hcollect.inv hcollect.plenty
  refine ⟨hdeliver.2.1, fun x c hc => ?_, fun x o ho => ?_⟩
  · have hc₁ : (publishTargets L p b.subs {} b).2.client? x = some c := by
      rw [MqttBroker.client?, hcollect.clients]
      exact hc
    obtain ⟨c', hc', hfed⟩ := hdeliver.2.2 x c hc₁
    refine ⟨c', hc', ?_⟩
    cases hup : c.connected with
    | false =>
      rw [hfed.of_down hup]
      exact .closed hup
    | true =>
      have hlevel := ((hb.sound c (Chain.at?_mem hc)).live hup).2.1
      rw [hcollect.items, List.nil_append, grants_eq hc hup hlevel] at hfed
      exact hfed
  · obtain ⟨o', ho', hoffered⟩ := hcollect.orphans x o ho
    refine ⟨o', ?_, hoffered⟩
    show Chain.at? (deliverPublishes L a p (publishTargets L p b.subs {} b).1.items (publishTargets L p b.subs {} b).2).2.orphanSessions x = _
    rw [hdeliver.1]
    exact ho'

theorem alloc_untouched : Moves Untouched alloc := by
  intro b
  refine ⟨rfl, rfl, rfl, fun h => ?_⟩
  show b.env.alloc.2.Plenty
  unfold Env.alloc
  split
  · exact h
  · rename_i ok rest hs
    have hrest : ∀ ok ∈ rest, ok = true := fun ok hin => h ok (by rw [hs]; exact List.mem_cons_of_mem _ hin)
    split <;> exact hrest

theorem copyTopic_plenty (h : b.env.Plenty) (topic : Bytes) : ∃ b', copyTopic topic b = (true, b') ∧ Untouched b b' := by
  unfold copyTopic
  split
  · exact ⟨b, rfl, refl b⟩
  · obtain ⟨b', halloc, huntouched⟩ := alloc_plenty h
    exact ⟨b', by rw [run_bind, halloc]; rfl, huntouched⟩

theorem persistOps_untouched (ops : List PersistOp) : Moves Untouched (persistOps ops) := fun _ => ⟨rfl, rfl, rfl, id⟩

theorem allocAll_untouched (n : Nat) : Moves Untouched (allocAll n) := by
  induction n with
  | zero => exact .pure _
  | succ n ih =>
    refine .bind alloc_untouched fun slot => ?_
    cases slot with
    | none => exact .pure _
    | some _ => exact ih

theorem retainedDelete_untouched (topic : Bytes) : Moves Untouched (retainedDelete topic) := by
  refine .get_bind fun b => ?_
  refine Moves.ite (fun _ => ?_) (fun _ => .pure _) b
  exact .bind (.modify fun _ => ⟨rfl, rfl, rfl, id⟩) fun _ => persistOps_untouched _

theorem retainedStore_untouched (topic payload : Bytes) (qos : QoS) (expirySec : Nat) :
    Moves Untouched (retainedStore L topic payload qos expirySec) := by
  refine .bind getTime_untouched fun now => .bind ?_ fun _ => .get_bind fun b => ?_
  · exact .get_bind fun b => ⟨rfl, rfl, rfl, id⟩
  · refine Moves.ite (fun _ => .pure _) (fun _ => .bind (allocAll_untouched _) fun _ => .ite (fun _ => .pure _) fun _ => ?_) b
    refine .bind getTime_untouched fun _ => .bind (.modify fun _ => ⟨rfl, rfl, rfl, id⟩) fun _ => ?_
    exact .bind (persistOps_untouched _) fun _ => .pure _

theorem retainPublish_untouched (p : InPublish) : Moves Untouched (retainPublish L p) :=
  .ite (fun _ => retainedDelete_untouched p.topicName) fun _ => .bind (retainedStore_untouched _ _ _ _) fun _ => .pure _

/-- A PUBLISH is handled on a connection that is live. -/
theorem Handling.publish {decoded : Except DecodeError InPublish} (h : Handling L b a (.publish decoded)) :
    ∃ c, b.client? a = some c ∧ c.connected = true := by
  obtain ⟨b₀, e, hreach, hdisp⟩ := h
  obtain ⟨-, ⟨c, hc, hhears⟩, rfl⟩ := dispatched_some hdisp
  obtain ⟨-, hconn⟩ := Bool.and_eq_true_iff.mp hhears
  exact ⟨_, stampRx_client? hc, by simpa [InPacket.isConnect] using hconn⟩

/-- No queue changes. -/
structure Unqueued (s s' : Conn) : Prop where
  queue : QueueKept s.c s'.c
  addr : s'.c.addr = s.c.addr
  plenty : s.env.Plenty → s'.env.Plenty

instance : IsPreorder Conn Unqueued where
  refl _ := ⟨⟨rfl, rfl⟩, rfl, id⟩
  trans _ _ _ h h' := ⟨⟨h'.queue.1.trans h.queue.1, h'.queue.2.trans h.queue.2⟩, h'.addr.trans h.addr, fun hp => h'.plenty (h.plenty hp)⟩

theorem Writes.unqueued {s s' : Conn} (h : Writes s s') : Unqueued s s' := by
  refine ⟨⟨h.outQ, (congrArg (fun s : Conn => s.c.connected) h).symm⟩, (congrArg (fun s : Conn => s.c.addr) h).symm, fun hp => ?_⟩
  show ∀ ok ∈ s'.env.allocs, ok = true
  rw [h.sameAllocs]
  exact hp

theorem qos2Add_unqueued (packetId : Nat) : Moves Unqueued (qos2Add L packetId) := by
  intro s
  unfold qos2Add
  split
  · exact refl s
  split
  · exact refl s
  split
  · exact refl s
  have hrest : ∀ {ok rest}, s.env.allocs = ok :: rest → s.env.Plenty → ∀ x ∈ rest, x = true := by
    intro ok rest hs h x hx
    exact h x (by rw [hs]; exact List.mem_cons_of_mem _ hx)
  unfold Env.alloc
  cases hs : s.env.allocs with
  | nil => exact ⟨⟨rfl, rfl⟩, rfl, fun _ => nofun⟩
  | cons ok rest => cases ok <;> exact ⟨⟨rfl, rfl⟩, rfl, hrest hs⟩

/-- Recording the identifier of a QoS 2 PUBLISH changes no queue. -/
theorem qos2Admit_unqueued (p : InPublish) : Moves Unqueued (qos2Admit L p) := by
  refine .bind (fun s => refl s) fun _ => .ite (fun _ => .pure _) fun _ => .ite (fun _ => .pure _) fun _ => ?_
  refine .bind (qos2Add_unqueued _) fun _ => .ite (fun _ => .pure _) fun _ => ?_
  exact .bind ((sendDisconnect_writes L _).mono fun _ _ h => h.unqueued) fun _ => .pure _

/-- A PUBLISH that is taken in, from where its identifier is recorded. -/
theorem acceptPublish_spec (hb : Phase L Nowhere b) (htopic : p.topicName ≠ []) (hplenty : b.env.Plenty)
    (hseq : ∀ o ∈ b.orphanSessions, tailSeq o.outQ + b.subs.length ≤ maxEnqueueSeq) :
    let b' := (acceptPublish L a p false b).2
    (∀ x c, b.client? x = some c → ∃ c₁ c', Fed L p (x = a) (b.subs.filterMap (grant p x)) c c₁ ∧
      b'.client? x = some c' ∧ QueueKept c₁ c') ∧
    ∀ x o, b.orphan? x = some o →
      ∃ o', b'.orphan? x = some o' ∧
        ∀ n ≤ b.env.nextAddr, Offered L p n (b.subs.filterMap (offer b p x)) o.outQ.chain o'.outQ.chain := by
  have hordinary : Ordinary (fun _ => True) := ordinary_all
  obtain ⟨b₁, hcopy, h₁⟩ := copyTopic_plenty hplenty p.topicName
  have hfans₁ : Fans L (fun _ => True) b.Established True b b₁ := by
    have hfans := copyTopic_fans (L := L) (T := b.Established) (O := True) hordinary p.topicName b
    rwa [hcopy] at hfans
  have hretain : Untouched b₁ (whenDo (!false ∧ !p.topicName.isEmpty ∧ p.retain) (retainPublish L p) b₁).2 ∧
      Fans L (fun _ => True) b.Established True b₁
        (whenDo (!false ∧ !p.topicName.isEmpty ∧ p.retain) (retainPublish L p) b₁).2 := by
    unfold whenDo
    split
    · exact ⟨retainPublish_untouched p b₁, retainPublish_fans hordinary p b₁⟩
    · exact ⟨refl b₁, refl b₁⟩
  have hb' : (acceptPublish L a p false b).2 = (onClient a Code.badArg (ackPublish L p)
      (fanOut L a p (whenDo (!false ∧ !p.topicName.isEmpty ∧ p.retain) (retainPublish L p) b₁).2).2).2 := by
    unfold acceptPublish
    rw [run_bind, hcopy]
    have hfan : (!false ∧ !p.topicName.isEmpty : Prop) := by simpa using htopic
    simp only [Bool.not_true, Bool.false_eq_true, if_false, run_bind]
    rw [whenDo, whenDo, if_pos hfan]
  generalize (whenDo (!false ∧ !p.topicName.isEmpty ∧ p.retain) (retainPublish L p) b₁).2 = b₂ at hretain hb'
  have h₂ : Untouched b b₂ := trans_of Untouched h₁ hretain.1
  have hfans₂ : Fans L (fun _ => True) b.Established True b b₂ := trans_of (Fans L _ _ _) hfans₁ hretain.2
  have hb₂ : Phase L Nowhere b₂ := (hfans₂.advances (Z := fun _ => True) hb).phase
  obtain ⟨-, hclients, horphans⟩ := fanOut_spec (L := L) (p := p) (a := a) hb₂ (h₂.plenty hplenty) (by
    rw [h₂.orphans, h₂.subs]
    exact hseq)
  rw [h₂.subs] at hclients horphans
  intro b'
  have hb'' : b' = _ := hb'
  have hack := ackPublish_writes (L := L) p
  refine ⟨fun x c hc => ?_, fun x o ho => ?_⟩
  · obtain ⟨c₁, hc₁, hfed⟩ := hclients x c ((h₂.client? x).trans hc)
    refine ⟨c₁, ?_⟩
    cases hca : (fanOut L a p b₂).2.client? a with
    | none =>
      rw [hb'', onClient_none hca]
      exact ⟨c₁, hfed, hc₁, rfl, rfl⟩
    | some ca =>
      have hwrites := hack ⟨ca, (fanOut L a p b₂).2.env⟩
      have hbeside := onClient_beside (m := ackPublish L p) hca Code.badArg
        (congrArg (fun s : Conn => s.c.addr) hwrites).symm hwrites.sameAllocs
      rw [hb'']
      by_cases hx : x = a
      · subst hx
        cases hca.symm.trans hc₁
        exact ⟨_, hfed, hbeside.2, hwrites.outQ, (congrArg (fun s : Conn => s.c.connected) hwrites).symm⟩
      · exact ⟨c₁, hfed, (hbeside.1.others x hx).trans hc₁, rfl, rfl⟩
  · obtain ⟨o', ho', hoffered⟩ := horphans x o ((h₂.orphan? x).trans ho)
    have hoffer : offer b₂ p x = offer b p x := offer_congr (by rw [h₂.orphans])
    rw [hoffer] at hoffered
    refine ⟨o', ?_, fun n hn => hoffered n (Nat.le_trans hn hfans₂.run.nextAddr_le)⟩
    rw [hb'']
    cases hca : (fanOut L a p b₂).2.client? a with
    | none =>
      rw [onClient_none hca]
      exact ho'
    | some ca =>
      rw [onClient_some hca]
      exact ho'

/-- Every subscription that a PUBLISH matches, in any state it is handled in: one entry for each of a
client that is there, unless its queue is full and it is disconnected, and one entry for each of a
session that is away above QoS 0; no other queue changes. -/
theorem handlePublish_fanOut (h : Handling L b a (.publish (.ok p))) (hin : TakesIn L b a p) (hplenty : b.env.Plenty)
    (hseq : ∀ o ∈ b.orphanSessions, tailSeq o.outQ + b.subs.length ≤ maxEnqueueSeq) :
    let b' := (handlePublish L a (.ok p) b).2
    (∀ x c, b.client? x = some c → ∃ c₀ c₁ c', QueueKept c c₀ ∧ Fed L p (x = a) (b.subs.filterMap (grant p x)) c₀ c₁ ∧
      b'.client? x = some c' ∧ QueueKept c₁ c') ∧
    ∀ x o, b.orphan? x = some o →
      ∃ o', b'.orphan? x = some o' ∧
        Offered L p b.env.nextAddr (b.subs.filterMap (offer b p x)) o.outQ.chain o'.outQ.chain := by
  have hb := h.phase
  obtain ⟨c, hc, hup⟩ := h.publish
  have ha : b.Established a := ⟨c, hc, ((hb.sound c (Chain.at?_mem hc)).live hup).1⟩
  obtain ⟨c', hc', hfresh, hsub, halias⟩ := hin.client
  cases hc.symm.trans hc'
  obtain ⟨hkept, haddr, hplenty₁⟩ := qos2Admit_unqueued (L := L) p ⟨c, b.env⟩
  have hrecord := onClient_some hc (.refused Code.badArg) (qos2Admit L p)
  have hadv := onClient_minds (P := fun _ => True) (Z := fun _ => True) hb ha (.refused Code.badArg) (qos2Admit_minds trivial p)
  have hb₁ := hadv.phase
  have hle := hadv.run.nextAddr_le
  have hca : c.addr = a := Chain.at?_addr hc
  -- after the identifier is recorded
  have hclients₁ : ∀ x d, b.client? x = some d → ∃ d₁, (onClient a (.refused Code.badArg) (qos2Admit L p) b).2.client? x = some d₁ ∧
      QueueKept d d₁ := by
    intro x d hd
    rw [hrecord]
    by_cases hx : x = a
    · subst hx
      cases hc.symm.trans hd
      exact ⟨_, Chain.at?_writeAt_self (f := fun _ => (qos2Admit L p ⟨c, b.env⟩).2.c) hc (haddr.trans hca), hkept⟩
    · refine ⟨d, ?_, rfl, rfl⟩
      exact (Chain.at?_writeAt_ne_of (f := fun _ => (qos2Admit L p ⟨c, b.env⟩).2.c) (fun _ _ => haddr.trans hca) hx).trans hd
  have hsubs₁ : (onClient a (.refused Code.badArg) (qos2Admit L p) b).2.subs = b.subs := by rw [hrecord]; rfl
  have horphans₁ : (onClient a (.refused Code.badArg) (qos2Admit L p) b).2.orphanSessions = b.orphanSessions := by rw [hrecord]; rfl
  have henv₁ : (onClient a (.refused Code.badArg) (qos2Admit L p) b).2.env.Plenty := by
    rw [hrecord]
    exact hplenty₁ hplenty
  have hverdict : (onClient a (.refused Code.badArg) (qos2Admit L p) b).1 = .fresh := by
    rw [hrecord]
    exact hfresh
  have hb' : (handlePublish L a (.ok p) b).2 =
      (acceptPublish L a p false (onClient a (.refused Code.badArg) (qos2Admit L p) b).2).2 := by
    unfold handlePublish
    simp only [run_bind, run_get, hc]
    rw [if_neg hsub, if_neg halias, if_neg hin.whole, run_bind, hverdict]
  generalize (onClient a (.refused Code.badArg) (qos2Admit L p) b).2 = b₁ at hb₁ hle hclients₁ hsubs₁ horphans₁ henv₁ hb'
  obtain ⟨hclients, horphans⟩ := acceptPublish_spec (L := L) (a := a) hb₁ hin.topic henv₁ (by
    rw [horphans₁, hsubs₁]
    exact hseq)
  rw [hsubs₁] at hclients horphans
  rw [hb']
  refine ⟨fun x d hd => ?_, fun x o ho => ?_⟩
  · obtain ⟨d₁, hd₁, hkept₁⟩ := hclients₁ x d hd
    obtain ⟨d₂, d', hfed, hd', hkept₂⟩ := hclients x d₁ hd₁
    exact ⟨d₁, d₂, d', hkept₁, hfed, hd', hkept₂⟩
  · have ho₁ : b₁.orphan? x = some o := by
      rw [MqttBroker.orphan?, horphans₁]
      exact ho
    obtain ⟨o', ho', hoffered⟩ := horphans x o ho₁
    have hoffer : offer b₁ p x = offer b p x := offer_congr (by rw [horphans₁])
    rw [hoffer] at hoffered
    exact ⟨o', ho', hoffered b.env.nextAddr hle⟩

/-- A message for the subscriber, as the broker comes to handle it. -/
def oneMessage : InPublish where
  len := 8
  topicName := [0x74]
  qos := .qos1
  packetId := 7
  retain := false
  duplicate := false
  buffer := [0x6D]
  totalLen := 1
  props := []

def beforeMessage : MqttBroker := readied {} (run {} (initial none none) subscriberAndPublisher) 4

theorem handlePublish_fanOut_message :
    beforeMessage.subs.filterMap (grant oneMessage 1) = [.qos1] ∧
    ∃ c c₀ c₁ c', beforeMessage.client? 1 = some c ∧ QueueKept c c₀ ∧ Fed {} oneMessage (1 = 4) [.qos1] c₀ c₁ ∧
      (handlePublish {} 4 (.ok oneMessage) beforeMessage).2.client? 1 = some c' ∧ QueueKept c₁ c' := by
  have hgrants : beforeMessage.subs.filterMap (grant oneMessage 1) = [.qos1] := by decide +kernel
  have hhandling : Handling {} beforeMessage 4 (.publish (.ok oneMessage)) :=
    Handling.of_packetFrom ⟨none, none, _, rfl⟩ (by decide +kernel)
  have hclient : (beforeMessage.client? 1).isSome = true := by decide +kernel
  obtain ⟨c, hc⟩ := Option.isSome_iff_exists.mp hclient
  have hpublisher : (beforeMessage.client? 4).any (fun c => decide ((qos2Admit {} oneMessage ⟨c, beforeMessage.env⟩).1 = .fresh)) = true := by
    decide +kernel
  obtain ⟨d, hd, hfresh⟩ := (Option.any_eq_true _ _).mp hpublisher
  have hin : TakesIn {} beforeMessage 4 oneMessage :=
    ⟨⟨d, hd, of_decide_eq_true hfresh, fun hno => absurd hno.2 (by decide), fun hno => absurd hno.2 (by decide)⟩, by decide, by decide⟩
  obtain ⟨c₀, c₁, c', hkept, hfed, hc', hkept'⟩ :=
    (handlePublish_fanOut hhandling hin (by decide +kernel) (by decide +kernel)).1 1 c hc
  rw [hgrants] at hfed
  exact ⟨hgrants, c, c₀, c₁, c', hc, hkept, hfed, hc', hkept'⟩

end publish

/-! ### Wills -/

/-- The PUBLISH with the message of a Will. -/
def willPublish (topic payload : Bytes) (qos : QoS) : InPublish where
  len := 0
  topicName := topic
  qos := qos
  packetId := 0
  retain := false
  duplicate := false
  buffer := payload
  totalLen := payload.length
  props := []

/-- A Will is queued for every session that is away, as a PUBLISH with the same message is. -/
def WillOffered (L : Limits) (b : MqttBroker) (topic payload : Bytes) (qos : QoS) (retain : Bool) : Prop :=
  ∀ x o, b.orphan? x = some o →
    ∃ o', (publishWillImmediate L topic payload qos retain b).2.orphan? x = some o' ∧
      Offered L (willPublish topic payload qos) b.env.nextAddr
        (b.subs.filterMap (offer b (willPublish topic payload qos) x)) o.outQ.chain o'.outQ.chain

/-- A subscription above QoS 0 of a session that is away and has an orphan, to this topic. -/
def Expects (b : MqttBroker) (topic : Bytes) (s : BrokerSub) : Prop :=
  s.client = none ∧ topicMatch s.filter topic ∧ s.qos ≠ .qos0 ∧ (s.clientId.bind (orphanFind b)).isSome

instance (b : MqttBroker) (topic : Bytes) (s : BrokerSub) : Decidable (Expects b topic s) :=
  inferInstanceAs (Decidable (_ ∧ _ ∧ _ ∧ _))

section wills
variable {L : Limits} {X : Nat → Prop} {b : MqttBroker} {topic payload : Bytes} {qos : QoS}

theorem min_ne_qos0 (hqos : qos ≠ .qos0) {other : QoS} (h : other ≠ .qos0) : qos.min other ≠ .qos0 := by
  cases qos <;> cases other <;> first | exact absurd rfl hqos | exact absurd rfl h | decide

/-- An offer above QoS 0 leaves a new entry behind. -/
theorem Offered.exists_new {p : InPublish} {n : Nat} {qs : List QoS} {xs ys : List OutPub} (h : Offered L p n qs xs ys)
    (hq : ∃ q ∈ qs, q ≠ .qos0) : ∃ e ∈ ys, n ≤ e.addr := by
  have hkeep : ∀ {qs : List QoS} {xs ys : List OutPub}, Offered L p n qs xs ys → ∀ e, xs.getLast? = some e → n ≤ e.addr →
      ∃ e ∈ ys, n ≤ e.addr := by
    intro qs xs ys h
    induction h with
    | done xs => exact fun e he hn => ⟨e, List.mem_of_getLast? he, hn⟩
    | none _ ih => exact ih
    | queued _ e _ hnew _ ih => exact fun _ _ _ => ih e List.getLast?_concat hnew
  induction h with
  | done xs =>
    obtain ⟨q, hq, -⟩ := hq
    cases hq
  | none _ ih =>
    obtain ⟨q, hq, hne⟩ := hq
    rcases List.mem_cons.mp hq with rfl | hq
    · exact absurd rfl hne
    · exact ih ⟨q, hq, hne⟩
  | queued _ e _ hnew h _ => exact hkeep h e List.getLast?_concat hnew

/-- Offers at QoS 0 change nothing. -/
theorem Offered.of_qos0 {p : InPublish} {n : Nat} {qs : List QoS} (h : ∀ q ∈ qs, q = .qos0) (xs : List OutPub) :
    Offered L p n qs xs xs := by
  induction qs with
  | nil => exact .done xs
  | cons q qs ih =>
    obtain rfl : q = .qos0 := h q List.mem_cons_self
    exact .none (ih fun q hq => h q (List.mem_cons_of_mem _ hq))

/-- The fan-out of a Will does not look at orphans. -/
theorem publishWillImmediate_orphans (L : Limits) (topic payload : Bytes) (qos : QoS) (retain : Bool) (b : MqttBroker) :
    (publishWillImmediate L topic payload qos retain b).2.orphanSessions = b.orphanSessions :=
  (publishWillImmediate_fans (P := fun _ => True) (T := fun _ => True) (O := False) ordinary_all topic payload qos retain
    fun _ _ => trivial).spread.untouched id

/-- A Will is queued as it should be just when nobody waits for it. -/
theorem willOffered_iff (hb : QInv b.view) (hqos : qos ≠ .qos0) (payload : Bytes) (retain : Bool) :
    WillOffered L b topic payload qos retain ↔ ∀ s ∈ b.subs, ¬Expects b topic s := by
  have hsame : ∀ x, (publishWillImmediate L topic payload qos retain b).2.orphan? x = b.orphan? x := by
    intro x
    rw [MqttBroker.orphan?, publishWillImmediate_orphans]
    rfl
  constructor
  · rintro h s hs ⟨hclient, hmatch, hsqos, hfound⟩
    obtain ⟨o, ho⟩ := Option.isSome_iff_exists.mp hfound
    obtain ⟨id, -, hfind⟩ := Option.bind_eq_some_iff.mp ho
    obtain ⟨o₁, ho₁⟩ : ∃ o₁, b.orphan? o.addr = some o₁ := by
      have hmem : o ∈ b.orphanSessions := List.mem_of_find?_eq_some hfind
      exact Option.isSome_iff_exists.mp (List.find?_isSome.mpr ⟨o, hmem, by simp [Node.addr]⟩)
    obtain ⟨o', ho', hoffered⟩ := h o.addr o₁ ho₁
    cases ((hsame o.addr).trans ho₁).symm.trans ho'
    have hq : ∃ q ∈ b.subs.filterMap (offer b (willPublish topic payload qos) o.addr), q ≠ .qos0 := by
      refine ⟨qos.min s.qos, List.mem_filterMap.mpr ⟨s, hs, ?_⟩, min_ne_qos0 hqos hsqos⟩
      unfold offer
      rw [if_pos ⟨hclient, hmatch, by rw [ho]; rfl⟩]
      rfl
    obtain ⟨e, he, hnew⟩ := hoffered.exists_new hq
    exact absurd ((hb.orphan_ok ho₁).fresh e he) (Nat.not_lt.mpr hnew)
  · intro h x o ho
    refine ⟨o, (hsame x).trans ho, .of_qos0 (fun q hq => ?_) _⟩
    obtain ⟨s, hs, hoffer⟩ := List.mem_filterMap.mp hq
    unfold offer at hoffer
    split at hoffer
    · rename_i hthere
      obtain rfl := Option.some.inj hoffer
      by_contra hne
      refine h s hs ⟨hthere.1, hthere.2.1, fun h0 => hne ?_, ?_⟩
      · rw [h0]
        cases qos <;> rfl
      · have := hthere.2.2
        cases hf : s.clientId.bind (orphanFind b) with
        | none =>
          rw [hf] at this
          cases this
        | some o => rfl
    · cases hoffer

end wills

end WolfMqtt.Broker
