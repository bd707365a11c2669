import WolfMqtt.Broker.Phase

/-! Sessions that end, and connections that go.

A session leaves its connection for an orphan or is gone (`leaveSession`); afterwards no
subscription points at the connection, and it can be unlinked. -/
namespace WolfMqtt.Broker

section leaving
variable {L : Limits} {P : Label → Prop} {Z X Y : Nat → Prop} {b b' : MqttBroker}

/-! ### The environment -/

theorem persistOps_advances (hb : Phase L X b) (ops : List PersistOp) : Advances L P Z X b (persistOps ops b).2 :=
  .of_forall₂ hb .refl (List.forall₂_same.mpr fun c _ => .refl c) fun x hx => hb.owned x hx

theorem getTime_advances (hb : Phase L X b) : Advances L P Z X b (getTime b).2 := (getTime_fans b).advances hb

/-- A write to what neither the delivery system nor the phases look at. -/
theorem Advances.of_same (hb : Phase L X b) (hview : b'.view = b.view) (hc : b'.clients = b.clients)
    (hs : b'.subs = b.subs) : Advances L P Z X b b' := by
  refine .of_clients hb ?_ hc (fun a ⟨s, hmem, hsa⟩ => ⟨s, hs ▸ hmem, hsa⟩)
  rw [hview]
  exact .refl

/-! ### Orphans that go -/

theorem orphanRemove_advances (hP : Ordinary P) (hb : Phase L X b) {o : OrphanSession} (ho : b.orphan? o.addr = some o) :
    Advances L P Z X b (orphanRemove o b).2 := by
  refine .of_clients hb ?_ rfl (fun _ ha => ha)
  have hview : (orphanRemove o b).2.view =
      (b.view.dropOrphan o.addr).note (o.outQ.chain.map (Obs.left · .sessionEnd)) := by
    show QState.mk _ ((Chain.removeAt o.addr b.orphanSessions).map OrphanSession.view) _ _ = _
    rw [Chain.map_removeAt OrphanSession.view fun _ => rfl]
    rfl
  rw [hview]
  refine .step hP.plain (.dropOrphan o.view ?_)
  show b.view.orphan? o.addr = some o.view
  rw [view_orphan?, ho]
  rfl

theorem orphanDropFull_advances (hP : Ordinary P) (hb : Phase L X b) {o : OrphanSession}
    (ho : b.orphan? o.addr = some o) : Advances L P Z X b (orphanDropFull o b).2 := by
  refine .bind (persistOps_advances hb _) fun hb₁ => ?_
  refine .bind (b := (persistOps _ b).2) (X := X) (.of_clients hb₁ .refl rfl ?_) fun hb₂ => ?_
  · rintro a ⟨s, hs, hsa⟩
    exact ⟨s, (List.mem_filter.mp hs).1, hsa⟩
  · exact orphanRemove_advances hP hb₂ ho

theorem orphanFind_mem {clientId : Bytes} {o : OrphanSession} (h : orphanFind b clientId = some o) :
    o ∈ b.orphanSessions ∧ o.clientId = clientId :=
  ⟨List.mem_of_find?_eq_some h, by simpa using List.find?_some h⟩

theorem oldestOrphan_mem {os : List OrphanSession} {o : OrphanSession} (h : oldestOrphan os = some o) : o ∈ os := by
  induction os with
  | nil => cases h
  | cons p rest ih =>
    unfold oldestOrphan at h
    cases hrest : oldestOrphan rest with
    | none =>
      rw [hrest] at h
      cases h
      exact List.mem_cons_self
    | some q =>
      rw [hrest] at h
      dsimp only at h
      split at h
      · cases h
        exact List.mem_cons_of_mem _ (ih hrest)
      · cases h
        exact List.mem_cons_self

theorem evictOldest_advances (hP : Ordinary P) (fuel : Nat) (hb : Phase L X b) :
    Advances L P Z X b (evictOldest L fuel b).2 := by
  induction fuel generalizing b with
  | zero => exact .refl hb
  | succ fuel ih =>
    show Advances L P Z X b ((if b.orphanSessionCount ≥ L.maxPersistSessions then _ else _ : BrokerM Unit) b).2
    split
    · cases ho : oldestOrphan b.orphanSessions with
      | none => exact .refl hb
      | some o => exact .bind (orphanDropFull_advances hP hb (hb.orphan?_of_mem (oldestOrphan_mem ho))) fun hb₁ => ih hb₁
    · exact .refl hb

theorem expireLoop_advances (hP : Ordinary P) (now fuel : Nat) (hb : Phase L X b) :
    Advances L P Z X b (expireLoop now fuel b).2 := by
  induction fuel generalizing b with
  | zero => exact .refl hb
  | succ fuel ih =>
    simp only [expireLoop, run_bind, run_get]
    cases ho : b.orphanSessions.find? (orphanExpired now) with
    | none => exact .refl hb
    | some o =>
      exact .bind (orphanDropFull_advances hP hb (hb.orphan?_of_mem (List.mem_of_find?_eq_some ho))) fun hb₁ => ih hb₁

theorem orphanExpireSweep_advances (hP : Ordinary P) (hb : Phase L X b) : Advances L P Z X b (orphanExpireSweep b).2 :=
  .bind (getTime_advances hb) fun hb₁ => expireLoop_advances hP _ _ hb₁

theorem orphanReplace_advances (hP : Ordinary P) (hb : Phase L X b) (clientId : Bytes) :
    Advances L P Z X b (orphanReplace clientId b).2 := by
  simp only [orphanReplace, run_bind, run_get]
  cases ho : orphanFind b clientId with
  | none => exact .refl hb
  | some o =>
    exact .bind (orphanRemove_advances hP hb (hb.orphan?_of_mem (orphanFind_mem ho).1)) fun hb₁ =>
      persistOps_advances hb₁ _

/-! ### A session becomes an orphan -/

/-- A connection without the QoS 0 packet that its end cuts off, and what is noted of it. -/
def cutQos0 (c : BrokerClient) : BrokerClient × List Obs :=
  match partialQos0 c with
  | none => (c, [])
  | some e => ({c with outQ := c.outQ.unlink e.addr, writePos := 0}, [.left e .qos0Cut])

theorem dropPartialQos0_eq (s : Conn) :
    dropPartialQos0 s = ((), ⟨(cutQos0 s.c).1, s.env.note (cutQos0 s.c).2⟩) := by
  simp only [dropPartialQos0, readClient, run_bind, run_get, run_pure]
  unfold cutQos0
  cases partialQos0 s.c with
  | none =>
    show ((), s) = ((), ⟨s.c, s.env.note []⟩)
    simp [Env.note]
  | some e => rfl

theorem partialQos0_some {c : BrokerClient} {e : OutPub} (h : partialQos0 c = some e) :
    e ∈ c.outQ.chain ∧ e.state = .queued ∧ e.qos = .qos0 := by
  unfold partialQos0 at h
  split at h
  · cases hfind : c.outQ.chain.find? (fun e => e.state = .queued) with
    | none =>
      rw [hfind] at h
      cases h
    | some x =>
      rw [hfind] at h
      dsimp only at h
      split at h
      · rename_i hq
        cases h
        exact ⟨List.mem_of_find?_eq_some hfind, by simpa using List.find?_some hfind, hq⟩
      · cases h
  · cases h

theorem cutQos0_run (hP : Ordinary P) (c : BrokerClient) (trace : List Obs) (n : Nat) :
    CRun L P ⟨c.view, trace, n⟩ ⟨(cutQos0 c).1.view, trace ++ (cutQos0 c).2, n⟩ := by
  unfold cutQos0
  cases h : partialQos0 c with
  | none =>
    dsimp only
    rw [List.append_nil]
    exact .refl
  | some e =>
    obtain ⟨he, hs, hq⟩ := partialQos0_some h
    exact .step hP.plain (.unsent (s := ⟨c.view, trace, n⟩) e .qos0Cut he hs (.qos0Cut hq))

/-- Everything about a connection but its queue survives the cut. -/
theorem cutQos0_eq (c : BrokerClient) : ∃ q pos, (cutQos0 c).1 = {c with outQ := q, writePos := pos} := by
  unfold cutQos0
  cases partialQos0 c with
  | none => exact ⟨_, _, rfl⟩
  | some e => exact ⟨_, _, rfl⟩

/-- What `orphanTake` does once it has a slot, from the state before the slot's allocation. -/
theorem take_advances (hP : Ordinary P) (hT : P .take) (hb : Phase L X b) {a : Nat} (now : Nat) {c : BrokerClient}
    (hc : b.client? a = some c) (clientId : Bytes) {env : Env} (ht : env.trace = b.env.trace)
    (hn : env.nextAddr = b.env.nextAddr + 1) :
    Advances L P Z X b {b with
      clients := Chain.writeAt a BrokerClient.handOver (Chain.writeAt a (fun _ => (cutQos0 c).1) b.clients)
      orphanSessions := newOrphan b.env.nextAddr clientId now (cutQos0 c).1 :: b.orphanSessions
      orphanSessionCount := b.orphanSessionCount + 1
      env := env.note (cutQos0 c).2} := by
  obtain ⟨q, pos, hcut⟩ := cutQos0_eq c
  have haddr : (cutQos0 c).1.addr = a := by
    rw [hcut]
    exact Chain.at?_addr hc
  have hwrite : Chain.writeAt a BrokerClient.handOver (Chain.writeAt a (fun _ => (cutQos0 c).1) b.clients) =
      Chain.writeAt a (fun _ => (cutQos0 c).1.handOver) b.clients := by
    rw [Chain.writeAt_writeAt fun _ _ => haddr]
    rfl
  rw [hwrite]
  refine .of_forall₂ hb ?_ ?_ (fun a' ha' => hb.owned a' ha')
  · have hconn : b.view.conn? a = some c.view := by
      rw [view_conn?, hc]
      rfl
    have hrun := CRun.lift hconn (cutQos0_run (L := L) hP c b.env.trace b.env.nextAddr)
    refine Relation.ReflTransGen.trans hrun (QRun.step hT ?_)
    have hcut : (b.view.withConn a ⟨(cutQos0 c).1.view, b.env.trace ++ (cutQos0 c).2, b.env.nextAddr⟩).conn? a =
        some (cutQos0 c).1.view := QState.withConn_conn? hconn _ haddr
    have htake := QStep.take (L := L) a _ hcut
    rw [QState.withConn_withConn _ _ _ _ haddr] at htake
    convert htake using 1
    simp only [MqttBroker.view, QState.withConn, QState.focus, CState.setQueue, Env.note, ht, hn,
      Chain.map_writeAt_comm BrokerClient.view (fun _ => rfl) (fun _ => (cutQos0 c).1.handOver.view) (fun _ _ => rfl)]
    rfl
  · refine Chain.forall₂_writeAt (fun c => .refl c) (fun x hx => ?_)
    obtain rfl : c = x := Option.some.inj (hc.symm.trans hx)
    rw [hcut]
    exact SameConn.tended ⟨rfl, rfl, ⟨rfl, rfl⟩, ⟨rfl, rfl⟩, .inl ⟨rfl, rfl⟩⟩ fun _ _ => ⟨rfl, rfl, rfl, rfl⟩

/-- The end of `orphanTake`, once there is a slot and the time is known. -/
theorem takeIntoSlot_advances (hP : Ordinary P) (hT : P .take) (hb : Phase L X b) (a now : Nat) (clientId : Bytes)
    {env : Env} (ht : env.trace = b.env.trace) (hn : env.nextAddr = b.env.nextAddr + 1)
    (henv : Advances L P Z X b {b with env := env}) :
    Advances L P Z X b ((do
      onClient a () dropPartialQos0
      match (← get).client? a with
      | none => return false
      | some c =>
        modify (·.updateClient a BrokerClient.handOver)
        orphanLink (newOrphan b.env.nextAddr clientId now c)
        return true : BrokerM Bool) {b with env := env}).2 := by
  rw [run_bind]
  cases hc : b.client? a with
  | none =>
    have hc' : MqttBroker.client? {b with env := env} a = none := hc
    rw [onClient_none hc', run_bind, run_get]
    dsimp only
    rw [hc']
    exact henv
  | some c =>
    obtain ⟨q, pos, hcut⟩ := cutQos0_eq c
    have hc' : MqttBroker.client? {b with env := env} a = some c := hc
    have haddr : Node.addr (cutQos0 c).1 = a := by
      rw [hcut]
      show c.addr = a
      exact Chain.at?_addr hc
    have hat : MqttBroker.client? {MqttBroker.updateClient {b with env := env} a (fun _ => (cutQos0 c).1) with
        env := env.note (cutQos0 c).2} a = some (cutQos0 c).1 := Chain.at?_writeAt_self hc haddr
    rw [onClient_some hc', dropPartialQos0_eq, run_bind, run_get]
    dsimp only
    rw [hat]
    exact (take_advances (Z := Z) hP hT hb now hc clientId ht hn).trans fun hb₁ => persistOps_advances hb₁ _

theorem orphanTake_advances (hP : Ordinary P) (hT : P .take) (hb : Phase L X b) (a : Nat) :
    Advances L P Z X b (orphanTake L a b).2 := by
  simp only [orphanTake, run_bind, run_get]
  cases (b.client? a).bind (·.clientId) with
  | none => exact .refl hb
  | some clientId =>
    refine .bind (orphanReplace_advances hP hb clientId) fun hb₁ => ?_
    generalize (orphanReplace clientId b).2 = b₁ at hb₁ ⊢
    refine Moves.get_at (R := Advances L P Z X) (.bind (evictOldest_advances hP _ hb₁) fun hb₂ => ?_)
    generalize (evictOldest L b₁.orphanSessions.length b₁).2 = b₂ at hb₂ ⊢
    refine alloc_at (fun env ht hn hp => (Fans.env hP ht (Nat.le_of_eq hn.symm) hp).advances hb₂) (fun env ht hn hp => ?_)
    obtain ⟨htt, htn⟩ := getTime_env env
    exact takeIntoSlot_advances hP hT hb₂ a env.getTime.1 clientId (htt.trans ht) (htn.trans hn)
      ((Fans.env hP (htt.trans ht) (by rw [htn, hn]; exact Nat.le_succ _) (trans_of Env.Spends hp (.getTime env))).advances hb₂)

/-! ### Subscriptions that go -/

/-- A write to a connection's record that only its subscriptions and its timers show. -/
theorem updateSubs_advances {a : Nat} {f : BrokerClient → BrokerClient} {subs : List BrokerSub} (hb : Phase L X b)
    (hf : ∀ c, Tended c (f c)) (hv : ∀ c, (f c).view = c.view)
    (hs : ∀ a', (∃ s ∈ subs, s.client = some a') → b.Subscribed a') :
    Advances L P Z X b {b.updateClient a f with subs := subs} := by
  refine (updateClient_advances (a := a) (f := f) hb (fun c _ => hf c) fun c _ => hv c).trans fun hb₁ => ?_
  exact .of_clients hb₁ .refl rfl hs

theorem subsRemoveClient_advances (hb : Phase L X b) (a : Nat) : Advances L P Z X b (subsRemoveClient a b).2 := by
  have h₁ : Advances L P Z X b {b.updateClient a (fun c => {c with subCount := 0}) with
      subs := b.subs.filter (fun s => s.client ≠ some a)} := by
    refine updateSubs_advances (f := fun c => {c with subCount := 0}) hb ?_ (fun _ => rfl) ?_
    · exact fun c => SameConn.tended ⟨rfl, rfl, ⟨rfl, rfl⟩, ⟨rfl, rfl⟩, .inl ⟨rfl, rfl⟩⟩ fun _ h => ⟨h.1, h.2, h.3, h.4⟩
    · rintro a' ⟨s, hs, hsa⟩
      exact ⟨s, (List.mem_filter.mp hs).1, hsa⟩
  unfold subsRemoveClient
  refine .bind h₁ fun hb₁ => ?_
  generalize Prod.snd _ = b₁ at hb₁ ⊢
  simp only [run_bind, run_get]
  cases b₁.client? a with
  | none => exact .refl hb₁
  | some c =>
    dsimp only
    cases c.clientId with
    | none => exact .refl hb₁
    | some id => exact .when_at hb₁ fun _ => persistOps_advances hb₁ _

theorem subsRemoveClient_subs (a : Nat) (b : MqttBroker) :
    (subsRemoveClient a b).2.subs = b.subs.filter (fun s => s.client ≠ some a) := by
  unfold subsRemoveClient
  rw [run_bind]
  generalize hmod : (modify _ : BrokerM Unit) b = r
  obtain ⟨⟨⟩, b₁⟩ := r
  have hsubs : b₁.subs = b.subs.filter (fun s => s.client ≠ some a) := (congrArg (fun r => r.2.subs) hmod).symm
  rw [← hsubs, run_bind, run_get]
  dsimp only
  cases b₁.client? a with
  | none => rfl
  | some c =>
    dsimp only
    cases c.clientId with
    | none => rfl
    | some id =>
      dsimp only [whenDo]
      split <;> rfl

/-- Nothing points at the connection any more. -/
theorem subsRemoveClient_unsubscribed (a : Nat) (b : MqttBroker) : ¬(subsRemoveClient a b).2.Subscribed a := by
  rintro ⟨s, hs, hsa⟩
  rw [subsRemoveClient_subs] at hs
  simpa [hsa] using (List.mem_filter.mp hs).2

/-- A function that adds no subscription keeps a connection without any. -/
theorem orphanDropFull_subs (o : OrphanSession) (b : MqttBroker) :
    (orphanDropFull o b).2.subs = b.subs.filter (fun s => !(s.client.isNone && s.clientId = some o.clientId)) := rfl

theorem subsEndClientSession_advances (hP : Ordinary P) (hb : Phase L X b) (a : Nat) :
    Advances L P Z X b (subsEndClientSession a b).2 := by
  refine .bind (subsRemoveClient_advances hb a) fun hb₁ => ?_
  generalize (subsRemoveClient a b).2 = b₁ at hb₁ ⊢
  simp only [run_bind, run_get]
  cases (b₁.client? a).bind (·.clientId) with
  | none => exact .refl hb₁
  | some clientId =>
    simp only [run_bind, run_get]
    cases ho : orphanFind b₁ clientId with
    | none => exact .refl hb₁
    | some o => exact orphanDropFull_advances hP hb₁ (hb₁.orphan?_of_mem (orphanFind_mem ho).1)

theorem subsEndClientSession_unsubscribed (a : Nat) (b : MqttBroker) :
    ¬(subsEndClientSession a b).2.Subscribed a := by
  have hno := subsRemoveClient_unsubscribed a b
  simp only [subsEndClientSession, run_bind, run_get]
  generalize (subsRemoveClient a b).2 = b₁ at hno ⊢
  cases (b₁.client? a).bind (·.clientId) with
  | none => exact hno
  | some clientId =>
    simp only [run_bind, run_get]
    cases orphanFind b₁ clientId with
    | none => exact hno
    | some o =>
      rintro ⟨s, hs, hsa⟩
      rw [show (orphanDropFull o b₁).2.subs = _ from orphanDropFull_subs o b₁] at hs
      exact hno ⟨s, (List.mem_filter.mp hs).1, hsa⟩

theorem subsOrphanClient_advances (hP : Ordinary P) (hT : P .take) (hb : Phase L X b) (a : Nat) :
    Advances L P Z X b (subsOrphanClient L a b).2 := by
  refine .bind (orphanTake_advances hP hT hb a) fun hb₁ => ?_
  split
  · refine .of_clients hb₁ .refl rfl ?_
    rintro a' ⟨s, hs, hsa⟩
    obtain ⟨s₀, hs₀, rfl⟩ := List.mem_map.mp hs
    refine ⟨s₀, hs₀, ?_⟩
    split at hsa
    · cases hsa
    · exact hsa
  · exact subsRemoveClient_advances hb₁ a

theorem subsOrphanClient_unsubscribed (L : Limits) (a : Nat) (b : MqttBroker) :
    ¬(subsOrphanClient L a b).2.Subscribed a := by
  show ¬((if (orphanTake L a b).1 then _ else _ : BrokerM Unit) (orphanTake L a b).2).2.Subscribed a
  split
  · rintro ⟨s, hs, hsa⟩
    obtain ⟨s₀, hs₀, rfl⟩ := List.mem_map.mp hs
    split at hsa
    · cases hsa
    · contradiction
  · exact subsRemoveClient_unsubscribed a _

/-! ### Connections that go -/

theorem leaveSession_advances (hP : Ordinary P) (hT : P .take) (hb : Phase L X b) (a : Nat) :
    Advances L P Z X b (leaveSession L a b).2 := by
  simp only [leaveSession, run_bind, run_get]
  cases b.client? a with
  | none => exact .refl hb
  | some c =>
    dsimp only
    split
    · exact subsEndClientSession_advances hP hb a
    · exact subsOrphanClient_advances hP hT hb a

theorem leaveSession_unsubscribed (hb : Phase L X b) (a : Nat) : ¬(leaveSession L a b).2.Subscribed a := by
  simp only [leaveSession, run_bind, run_get]
  cases hc : b.client? a with
  | none =>
    intro ha
    obtain ⟨c, hc', -⟩ := hb.owned a ha
    rw [hc] at hc'
    cases hc'
  | some c =>
    dsimp only
    split
    · exact subsEndClientSession_unsubscribed a b
    · exact subsOrphanClient_unsubscribed L a b

theorem clientRemove_some {a : Nat} {c : BrokerClient} (hc : b.client? a = some c) (cause : Cause) :
    (clientRemove a cause b).2 =
      {b with clients := Chain.removeAt a b.clients, env := b.env.note (c.outQ.chain.map (Obs.left · cause))} := by
  have haddr : c.addr = a := Chain.at?_addr hc
  have hwrite : Chain.removeAt a (Chain.writeAt a (fun _ => (freeOutQueue cause ⟨c, b.env⟩).2.c) b.clients) =
      Chain.removeAt a b.clients := Chain.removeAt_writeAt fun _ _ => haddr
  show {(onClient a () (freeOutQueue cause) b).2 with
    clients := Chain.removeAt a (onClient a () (freeOutQueue cause) b).2.clients} = _
  rw [onClient_some hc]
  simp only [MqttBroker.updateClient, hwrite]
  rfl

theorem clientRemove_none {a : Nat} (hc : b.client? a = none) (cause : Cause) : (clientRemove a cause b).2 = b := by
  show {(onClient a () (freeOutQueue cause) b).2 with
    clients := Chain.removeAt a (onClient a () (freeOutQueue cause) b).2.clients} = b
  rw [onClient_none hc, Chain.removeAt_none hc]

/-- Unlink a connection that no subscription points at. -/
theorem clientRemove_advances {cause : Cause} {a : Nat} (hP : ∀ c, b.client? a = some c → P (removeLabel c.view cause))
    (hcause : cause = .sessionEnd ∨ cause = .takenOver) (hb : Phase L X b) (hno : ¬b.Subscribed a) (hXY : ∀ x, X x → x ≠ a → Y x) : Advances L P Z Y b (clientRemove a cause b).2 := by
  have hsettled : ∀ c ∈ b.clients, c.addr ≠ a → ¬Y c.addr → c.Settled := fun c hc hne hY =>
    hb.settled c hc fun hX => hY (hXY _ hX hne)
  have hsubs : ∀ a', b.Subscribed a' → ∃ c', Chain.at? (Chain.removeAt a b.clients) a' = some c' := by
    intro a' ha'
    obtain ⟨c, hc, -⟩ := hb.owned a' ha'
    refine ⟨c, ?_⟩
    have hne : a' ≠ a := by
      rintro rfl
      exact hno ha'
    rw [Chain.at?_removeAt_ne hne]
    exact hc
  have hgone : ∀ b' : MqttBroker, b'.clients = Chain.removeAt a b.clients → b'.subs = b.subs →
      QRun L P b.view b'.view → Advances L P Z Y b b' := by
    intro b' hclients hs hrun
    refine .of_handled hb hrun (fun c hc => ?_) (fun a' ⟨s, hmem, hsa⟩ => ?_)
    · rw [hclients] at hc
      obtain ⟨hc, hne⟩ := (Chain.mem_removeAt hb.nodup).mp hc
      exact ⟨c, hc, (Tended.refl c).toHandled, fun hY _ => hsettled c hc hne hY⟩
    · rw [hs] at hmem
      refine ⟨hb.owned a' ⟨s, hmem, hsa⟩, ?_⟩
      rw [MqttBroker.client?, hclients]
      exact hsubs a' ⟨s, hmem, hsa⟩
  cases hc : b.client? a with
  | none =>
    rw [clientRemove_none hc]
    exact hgone b (Chain.removeAt_none hc).symm rfl .refl
  | some c =>
    rw [clientRemove_some hc]
    refine hgone _ rfl rfl ?_
    have hconn : b.view.conn? a = some c.view := by
      rw [view_conn?, hc]
      rfl
    have hstep := QStep.remove (L := L) a c.view cause hconn hcause
    convert QRun.step (hP c hc) hstep using 1
    simp only [MqttBroker.view, Chain.map_removeAt BrokerClient.view fun _ => rfl]
    rfl

theorem publishWill_advances (hP : Ordinary P) (hb : Phase L X b) (a : Nat) :
    Advances L P Z X b (publishWill L a b).2 := by
  simp only [publishWill, run_bind, run_get]
  cases b.client? a with
  | none => exact .refl hb
  | some c =>
    dsimp only
    cases c.willTopic with
    | none => exact .refl hb
    | some topic =>
      dsimp only
      split
      · exact .refl hb
      refine .bind ((delayWill_fans hP c topic b).advances hb) fun hb₁ => ?_
      refine .bind (.when_at hb₁ fun _ => ?_) fun hb₂ => clearWill_advances hb₂ a
      exact (publishWillImmediate_fans hP topic _ _ _ hb₁.owned).advances hb₁

theorem abnormalClose_advances (hP : Ordinary P) (hT : P .take) (hb : Phase L X b) {a : Nat}
    (hXY : ∀ x, X x → x ≠ a → Y x) : Advances L P Z Y b (abnormalClose L a b).2 := by
  refine .bind (publishWill_advances hP hb a) fun hb₁ => .bind (leaveSession_advances hP hT hb₁ a) fun hb₂ => ?_
  exact clientRemove_advances (fun _ _ => hP.plain) (.inl rfl) hb₂ (leaveSession_unsubscribed hb₁ a) hXY

theorem leaveConnect_advances (hP : Ordinary P) (hT : P .take) (hb : Phase L X b) (a : Nat) :
    Advances L P Z X b (leaveConnect L a b).2 := by
  simp only [leaveConnect, run_bind, run_get]
  cases b.client? a with
  | none => exact .refl hb
  | some c =>
    dsimp only
    split
    · exact leaveSession_advances hP hT hb a
    · exact subsRemoveClient_advances hb a

theorem leaveConnect_unsubscribed (hb : Phase L X b) (a : Nat) : ¬(leaveConnect L a b).2.Subscribed a := by
  simp only [leaveConnect, run_bind, run_get]
  cases hc : b.client? a with
  | none =>
    intro ha
    obtain ⟨c, hc', -⟩ := hb.owned a ha
    rw [hc] at hc'
    cases hc'
  | some c =>
    dsimp only
    split
    · exact leaveSession_unsubscribed hb a
    · exact subsRemoveClient_unsubscribed a b

theorem endConnect_advances (hP : Ordinary P) (hT : P .take) (hb : Phase L X b) {a : Nat}
    (hXY : ∀ x, X x → x ≠ a → Y x) : Advances L P Z Y b (endConnect L a b).2 :=
  .bind (leaveConnect_advances hP hT hb a) fun hb₁ =>
    clientRemove_advances (fun _ _ => hP.plain) (.inl rfl) hb₁ (leaveConnect_unsubscribed hb a) hXY

theorem dropClient_advances (hP : Ordinary P) (hb : Phase L X b) {a : Nat} (hXY : ∀ x, X x → x ≠ a → Y x) :
    Advances L P Z Y b (dropClient a b).2 :=
  .bind (subsRemoveClient_advances hb a) fun hb₁ =>
    clientRemove_advances (fun _ _ => hP.plain) (.inl rfl) hb₁ (subsRemoveClient_unsubscribed a b) hXY

theorem followDisconnect_advances (hP : Ordinary P) (hT : P .take) (hb : Phase L X b) {a : Nat}
    (hXY : ∀ x, X x → x ≠ a → Y x) : Advances L P Z Y b (followDisconnect L a b).2 :=
  .bind (leaveSession_advances hP hT hb a) fun hb₁ =>
    clientRemove_advances (fun _ _ => hP.plain) (.inl rfl) hb₁ (leaveSession_unsubscribed hb a) hXY

/-- A CONNACK that is given up leaves its connection out of phase, and then takes it down. -/
theorem closeConnAck_advances (hP : Ordinary P) (hT : P .take) (hb : Phase L X b) {a : Nat} (refused : Bool)
    (hXY : ∀ x, X x → x ≠ a → Y x) : Advances L P Z Y b (closeConnAck L a refused b).2 := by
  let b₁ := b.updateClient a (fun c => {c with connackPendingLen := 0, connackRefused := false})
  have h₁ : Advances L P Z (fun x => X x ∨ x = a) b b₁ := by
    refine handleClient_advances hb (fun c hc => ?_) (fun _ _ => rfl) (fun x hx _ => .inl hx)
    refine ⟨⟨rfl, rfl, fun _ => ⟨rfl, rfl⟩, .inl ⟨rfl, rfl⟩, fun _ h => ⟨h.1, h.2, h.3, h.4⟩, ?_⟩, fun hY => ?_⟩
    · rintro - ⟨⟩
    exact absurd (Or.inr (Chain.at?_addr hc)) hY
  refine h₁.trans fun hb₁ => ?_
  have hXY' : ∀ x, (X x ∨ x = a) → x ≠ a → Y x := fun x hx hne => hXY x (hx.resolve_right hne) hne
  show Advances L P Z Y b₁ ((if refused then _ else _ : BrokerM Unit) b₁).2
  split
  · exact endConnect_advances hP hT hb₁ hXY'
  · exact abnormalClose_advances hP hT hb₁ hXY'

end leaving

end WolfMqtt.Broker
