import WolfMqtt.Broker.Checks

/-! A CONNECT that passes its checks.

From the moment its session is established until its CONNACK is on its way, the
connection is between two phases. Until an orphan is resumed its queue is empty: no
subscription points at it, so no Will reaches it while another connection is taken over. -/
namespace WolfMqtt.Broker

section admitting
variable {L : Limits} {P : Label → Prop} {Z X : Nat → Prop} {b b' : MqttBroker} {a : Nat}

/-! ### Up to the session -/

theorem view_withClient {c : BrokerClient} (hc : b.client? a = some c) (t : Conn) (m : Nat) :
    (b.withClient a t m).view = b.view.withConn a t.view := by
  have h := view_onClient hc () fun _ => ((), t)
  rw [onClient_some hc] at h
  exact h

/-- The checks of a CONNECT, on a connection without a session. -/
theorem Checks.advances (hP : Ordinary P) (hb : Phase L X b) {c : BrokerClient} (hc : b.client? a = some c)
    (he : c.sessionEstablished = false) {t : Conn} (ht : Checks ⟨c, b.env⟩ t) (m : Nat) :
    Advances L P Z X b (b.withClient a t m) := by
  obtain ⟨hq, hi, h2, h2c⟩ := (hb.sound c (Chain.at?_mem hc)).idle he
  have hconn : b.view.conn? a = some c.view := by
    rw [view_conn?, hc]
    rfl
  have hview : t.view = ⟨{c.view with level := t.c.protocolLevel, receiveMax := t.c.clientReceiveMax},
      b.env.trace, t.env.nextAddr⟩ := by
    have haddr := ht.get (·.addr) fun _ => rfl
    have hq := ht.get (·.outQ) fun _ => rfl
    have hi := ht.get (·.outQInflight) fun _ => rfl
    simp only [Conn.view, BrokerClient.view, haddr, hq, hi, ht.trace]
  have hrun : CRun L P (b.view.focus c.view) t.view := by
    rw [hview]
    have halloc : CStep L .plain (b.view.focus c.view) ⟨c.view, b.env.trace, t.env.nextAddr⟩ :=
      .alloc t.env.nextAddr ht.nextAddr
    have hnegotiate : CStep L .plain ⟨c.view, b.env.trace, t.env.nextAddr⟩
        ⟨{c.view with level := t.c.protocolLevel, receiveMax := t.c.clientReceiveMax}, b.env.trace, t.env.nextAddr⟩ :=
      .negotiate _ _ hq hi
    exact trans_of (CRun L P) (.step hP.plain halloc) (.step hP.plain hnegotiate)
  refine .of_forall₂ hb ?_ (Chain.forall₂_writeAt (fun c => .refl c) fun x hx => ?_) (fun a' ha' => hb.owned a' ha')
  · rw [view_withClient hc]
    exact CRun.lift hconn hrun
  · obtain rfl : c = x := Option.some.inj (hc.symm.trans hx)
    have hconnack : t.c.connackPendingLen = c.connackPendingLen ∧ t.c.connackRefused = c.connackRefused :=
      ⟨ht.get (·.connackPendingLen) fun _ => rfl, ht.get (·.connackRefused) fun _ => rfl⟩
    refine ⟨⟨ht.addr, ht.get (·.sessionEstablished) fun _ => rfl, fun he' => ?_,
      .inl ⟨ht.get (·.sockOpen) fun _ => rfl, ht.get (·.connected) fun _ => rfl⟩, fun _ _ => ⟨?_, ?_, ?_, ?_⟩, ?_⟩, hconnack⟩
    · rw [he] at he'
      cases he'
    · exact (ht.get (·.outQ) fun _ => rfl).trans hq
    · exact (ht.get (·.outQInflight) fun _ => rfl).trans hi
    · exact (ht.get (·.qos2Pending) fun _ => rfl).trans h2
    · exact (ht.get (·.qos2PendingCount) fun _ => rfl).trans h2c
    · rw [hconnack.1, hconnack.2]
      exact id

/-- The moment a session is established. -/
def BrokerClient.establish (c : BrokerClient) : BrokerClient := {c with sessionEstablished := true}

theorem establish_advances (hb : Phase L X b) (hZ : Z a) (hX : X a) :
    Advances L P Z X b (b.updateClient a BrokerClient.establish) := by
  refine rephase_advances hb (fun c hc => ?_) fun x hx _ => hx
  have haddr : c.addr = a := Chain.at?_addr hc
  refine ⟨rfl, rfl, fun h => ⟨by rintro ⟨⟩, fun hconn => ⟨rfl, (h.live hconn).2⟩, h.refused⟩, fun hnX => ?_, fun _ => rfl,
    fun _ hnZ => ?_⟩
  · exact absurd (haddr ▸ hX) hnX
  · exact absurd (haddr ▸ hZ) hnZ

/-! ### Claiming a session -/

/-- The connection without what claiming a session writes to it. -/
def BrokerClient.unclaimed (c : BrokerClient) : BrokerClient :=
  {c with subCount := 0, qos2Pending := [], qos2PendingCount := 0}

variable (L P Z X a) in
/-- The broker goes on while the connection at `a` claims its session from another connection. -/
structure Claims (b b' : MqttBroker) : Prop extends Advances L P Z X b b' where
  mine : ∀ c, b.client? a = some c → ∃ c', b'.client? a = some c' ∧ c'.unclaimed = c.unclaimed
  orphans : b'.orphanSessions = b.orphanSessions

theorem Claims.refl (hb : Phase L X b) : Claims L P Z X a b b := ⟨.refl hb, fun c hc => ⟨c, hc, rfl⟩, rfl⟩

theorem Claims.trans {b'' : MqttBroker} (h : Claims L P Z X a b b') (h' : Phase L X b' → Claims L P Z X a b' b'') :
    Claims L P Z X a b b'' := by
  have h' := h' h.phase
  refine ⟨h.toAdvances.trans fun _ => h'.toAdvances, fun c hc => ?_, h'.orphans.trans h.orphans⟩
  obtain ⟨c', hc', heq⟩ := h.mine c hc
  obtain ⟨c'', hc'', heq'⟩ := h'.mine c' hc'
  exact ⟨c'', hc'', heq'.trans heq⟩

theorem Claims.bind {α β : Type} {m : BrokerM α} {f : α → BrokerM β} (hm : Claims L P Z X a b (m b).2)
    (hf : Phase L X (m b).2 → Claims L P Z X a (m b).2 (f (m b).1 (m b).2).2) :
    Claims L P Z X a b ((m >>= f) b).2 := hm.trans hf

theorem Claims.established (h : Claims L P Z X a b b') (ha : b.Established a) : b'.Established a := by
  obtain ⟨c, hc, he⟩ := ha
  obtain ⟨c', hc', heq⟩ := h.mine c hc
  refine ⟨c', hc', ?_⟩
  show c'.unclaimed.sessionEstablished = true
  rw [heq]
  exact he

theorem updateClient_client?_ne {x : Nat} {f : BrokerClient → BrokerClient}
    (hf : ∀ c : BrokerClient, c.addr = x → (f c).addr = x) (hne : a ≠ x) : (b.updateClient x f).client? a = b.client? a :=
  Chain.at?_writeAt_ne hf hne

/-- A function that leaves the connection at `a` and the orphans alone. -/
theorem Claims.of_elsewhere (h : Advances L P Z X b b') (hc : b'.client? a = b.client? a)
    (ho : b'.orphanSessions = b.orphanSessions) : Claims L P Z X a b b' :=
  ⟨h, fun c hca => ⟨c, hc.trans hca, rfl⟩, ho⟩

theorem Spread.client?_eq {T : Nat → Prop} {O : Prop} (h : Spread T O b b') (hT : ¬T a) :
    b'.client? a = b.client? a := by
  rcases Chain.forall₂_at? (a := a) (fun _ _ h => h.1.addr) h.clients with ⟨hnone, hnone'⟩ | ⟨x, y, hx, hy, hxy⟩
  · rw [MqttBroker.client?, MqttBroker.client?, hnone, hnone']
  · have haddr : x.addr = a := Chain.at?_addr hx
    rw [MqttBroker.client?, MqttBroker.client?, hx, hy, hxy.2 (by rw [haddr]; exact hT)]

/-- Closing the connection that is taken over reaches it, and whoever gets its Will. -/
theorem closeTakenOver_fans (hP : Ordinary P) {T : Nat → Prop} {O : Prop} (old : BrokerClient) (hold : T old.addr)
    (hT : ∀ x, b.Subscribed x → T x) : Fans L P T O b (closeTakenOver L old b).2 := by
  unfold closeTakenOver
  split
  · exact publishWill_fans hP hold hT
  · refine Moves.bind_at (onClient_fans hold 0 fun c _ => (sendDisconnect_writes L _ _).serves) ?_
    exact clearWill_fans hold _

theorem closeTakenOver_advances (hP : Ordinary P) (hb : Phase L X b) (old : BrokerClient) :
    Advances L P Z X b (closeTakenOver L old b).2 := by
  unfold closeTakenOver
  split
  · exact publishWill_advances hP hb old.addr
  · refine .bind (onClient_writes old.addr hb 0 (sendDisconnect_writes L _)) fun hb₁ => ?_
    exact clearWill_advances hb₁ old.addr

theorem closeTakenOver_claims (hP : Ordinary P) (hb : Phase L X b) {old : BrokerClient} (hne : a ≠ old.addr)
    (hna : ¬b.Subscribed a) : Claims L P Z X a b (closeTakenOver L old b).2 := by
  have hspread := (closeTakenOver_fans (L := L) (T := fun x => b.Subscribed x ∨ x = old.addr) (O := False) hP old (.inr rfl)
    fun x hx => .inl hx).spread
  refine .of_elsewhere (closeTakenOver_advances hP hb old) (hspread.client?_eq ?_) (hspread.untouched id)
  rintro (h | h)
  · exact hna h
  · exact hne h

theorem subsReassociateClient_claims (hb : Phase L X b) (ha : b.Established a) (clientId : Bytes) :
    Claims L P Z X a b (subsReassociateClient clientId a b).2 := by
  unfold subsReassociateClient
  split
  · exact .refl hb
  dsimp only
  generalize b.subs.countP (subOwnedBy b clientId) = count
  let b₁ := b.updateClient a (fun c => {c with subCount := c.subCount + count})
  have h₁ : Advances L P Z X b b₁ := by
    refine updateClient_advances (f := fun c => {c with subCount := c.subCount + count}) hb (fun c _ => ?_) (fun _ _ => rfl)
    exact SameConn.tended ⟨rfl, rfl, ⟨rfl, rfl⟩, ⟨rfl, rfl⟩, .inl ⟨rfl, rfl⟩⟩ fun _ h => ⟨h.1, h.2, h.3, h.4⟩
  have hmine : ∀ c, b.client? a = some c → b₁.client? a = some {c with subCount := c.subCount + count} := by
    intro c hc
    exact Chain.at?_writeAt_self hc (Chain.at?_addr (x := c) hc)
  refine ⟨h₁.trans fun hb₁ => ?_, fun c hc => ⟨_, hmine c hc, rfl⟩, rfl⟩
  refine .of_forall₂ hb₁ .refl (List.forall₂_same.mpr fun c _ => .refl c) ?_
  rintro x ⟨s, hs, hsx⟩
  obtain ⟨s₀, hs₀, rfl⟩ := List.mem_map.mp hs
  split at hsx
  · cases hsx
    obtain ⟨c, hc, he⟩ := ha
    exact ⟨_, hmine c hc, he⟩
  · exact hb₁.owned x ⟨s₀, hs₀, hsx⟩

/-- What a takeover of the QoS 2 identifiers writes. -/
theorem qos2Takeover_writes (new old : BrokerClient) :
    ((qos2Takeover new old).2.1.unclaimed = new.unclaimed) ∧
      ((qos2Takeover new old).2.2 = old ∨
        (qos2Takeover new old).2.2 = {old with qos2Pending := [], qos2PendingCount := 0}) := by
  unfold qos2Takeover
  split
  · exact ⟨rfl, .inl rfl⟩
  · exact ⟨rfl, .inr rfl⟩

theorem qos2TakeoverAt_claims (hb : Phase L X b) (ha : b.Established a) {old : Nat} (hne : a ≠ old) :
    Claims L P Z X a b (qos2TakeoverAt a old b).2 := by
  obtain ⟨new, hnew, he⟩ := ha
  unfold qos2TakeoverAt
  cases hold : b.client? old with
  | none =>
    rw [hnew]
    exact .refl hb
  | some c =>
    rw [hnew]
    dsimp only
    obtain ⟨hmine, htheirs⟩ := qos2Takeover_writes new c
    generalize qos2Takeover new c = r at hmine htheirs ⊢
    have hget : ∀ {γ : Type} (f : BrokerClient → γ), (∀ c, f c.unclaimed = f c) → f r.2.1 = f new := fun f hf =>
      (hf r.2.1).symm.trans ((congrArg f hmine).trans (hf new))
    have haddr : r.2.1.addr = a := (hget (·.addr) fun _ => rfl).trans (Chain.at?_addr hnew)
    have haddr' : r.2.2.addr = old := by
      rcases htheirs with h | h
      · rw [h]
        exact Chain.at?_addr hold
      · rw [h]
        exact Chain.at?_addr (x := c) hold
    let b₁ := b.updateClient a (fun _ => r.2.1)
    have h₁ : Advances L P Z X b b₁ := by
      refine updateClient_advances (f := fun _ => r.2.1) hb (fun x hx => ?_) (fun x hx => ?_)
      · obtain rfl : new = x := Option.some.inj (hnew.symm.trans hx)
        refine SameConn.tended ⟨hget (·.addr) fun _ => rfl, hget (·.sessionEstablished) fun _ => rfl,
          ⟨hget (·.clientId) fun _ => rfl, hget (·.protocolLevel) fun _ => rfl⟩,
          ⟨hget (·.connackPendingLen) fun _ => rfl, hget (·.connackRefused) fun _ => rfl⟩,
          .inl ⟨hget (·.sockOpen) fun _ => rfl, hget (·.connected) fun _ => rfl⟩⟩ fun he' => ?_
        rw [he] at he'
        cases he'
      · obtain rfl : new = x := Option.some.inj (hnew.symm.trans hx)
        exact hget (·.view) fun _ => rfl
    have hold₁ : b₁.client? old = some c := (updateClient_client?_ne (fun _ _ => haddr) hne.symm).trans hold
    have hclient : (b₁.updateClient old (fun _ => r.2.2)).client? a = some r.2.1 :=
      (updateClient_client?_ne (fun _ _ => haddr') hne).trans (Chain.at?_writeAt_self hnew haddr)
    refine ⟨h₁.trans fun hb₁ => ?_, fun x hx => ?_, rfl⟩
    · refine updateClient_advances (a := old) (f := fun _ => r.2.2) hb₁ (fun x hx => ?_) (fun x hx => ?_)
      · obtain rfl : c = x := Option.some.inj (hold₁.symm.trans hx)
        rcases htheirs with h | h
        · rw [h]
          exact .refl c
        · rw [h]
          exact SameConn.tended ⟨rfl, rfl, ⟨rfl, rfl⟩, ⟨rfl, rfl⟩, .inl ⟨rfl, rfl⟩⟩ fun _ h => ⟨h.1, h.2, rfl, rfl⟩
      · obtain rfl : c = x := Option.some.inj (hold₁.symm.trans hx)
        rcases htheirs with h | h
        · rw [h]
        · rw [h]
          rfl
    · obtain rfl : new = x := Option.some.inj (hnew.symm.trans hx)
      exact ⟨r.2.1, hclient, hmine⟩

theorem carryOver_claims (hb : Phase L X b) (ha : b.Established a) {old : Nat} (hne : a ≠ old) (survives : Bool)
    (clientId : Bytes) : Claims L P Z X a b (carryOver survives a old clientId b).2 := by
  unfold carryOver
  split
  · have hsubs := subsReassociateClient_claims (P := P) (Z := Z) hb ha clientId
    refine .bind hsubs fun hb₁ => .bind (qos2TakeoverAt_claims hb₁ (hsubs.established ha) hne) fun hb₂ => .refl hb₂
  · exact .refl hb

theorem subsRemoveClient_eq (x : Nat) (b : MqttBroker) : ∃ ops, (subsRemoveClient x b).2 =
    (persistOps ops {b.updateClient x (fun c => {c with subCount := 0}) with
      subs := b.subs.filter (fun s => s.client ≠ some x)}).2 := by
  generalize hb₁ : ({b.updateClient x (fun c => {c with subCount := 0}) with
    subs := b.subs.filter (fun s => s.client ≠ some x)} : MqttBroker) = b₁
  have hnone : b₁ = (persistOps [] b₁).2 := by
    simp [persistOps, run_modify]
  simp only [subsRemoveClient, run_bind, run_modify, run_get, hb₁]
  cases b₁.client? x with
  | none => exact ⟨[], hnone⟩
  | some c =>
    dsimp only
    cases c.clientId with
    | none => exact ⟨[], hnone⟩
    | some id =>
      dsimp only [whenDo]
      split
      · exact ⟨_, rfl⟩
      · exact ⟨[], hnone⟩

theorem subsRemoveClient_claims (hb : Phase L X b) {x : Nat} (hne : a ≠ x) :
    Claims L P Z X a b (subsRemoveClient x b).2 := by
  obtain ⟨ops, heq⟩ := subsRemoveClient_eq x b
  refine .of_elsewhere (subsRemoveClient_advances hb x) ?_ ?_
  · rw [heq]
    exact updateClient_client?_ne (f := fun c => {c with subCount := 0}) (fun _ h => h) hne
  · rw [heq]
    rfl

theorem clientRemove_claims {cause : Cause} {x : Nat} (hP : ∀ c, b.client? x = some c → P (removeLabel c.view cause))
    (hcause : cause = .sessionEnd ∨ cause = .takenOver) (hb : Phase L X b) (hne : a ≠ x) (hno : ¬b.Subscribed x) : Claims L P Z X a b (clientRemove x cause b).2 := by
  refine .of_elsewhere (clientRemove_advances hP hcause hb hno fun _ h _ => h) ?_ ?_
  · cases hc : b.client? x with
    | none => rw [clientRemove_none hc]
    | some c =>
      rw [clientRemove_some hc]
      exact Chain.at?_removeAt_ne hne
  · cases hc : b.client? x with
    | none => rw [clientRemove_none hc]
    | some c => rw [clientRemove_some hc]

theorem onClient_client? {α : Type} {c : BrokerClient} (hc : b.client? a = some c) (default : α) {m : ClientM α}
    (hm : (m ⟨c, b.env⟩).2.c.addr = c.addr) :
    (onClient a default m b).2.client? a = some (m ⟨c, b.env⟩).2.c := by
  rw [onClient_some hc]
  exact Chain.at?_writeAt_self hc (hm.trans (Chain.at?_addr hc))

/-- A connection with no message above QoS 0 in its queue, and none that its own end could
still put there. -/
def BrokerClient.Spent (c : BrokerClient) : Prop :=
  (∀ e ∈ c.outQ.chain, e.qos = .qos0) ∧ (c.protocolLevel < level5 → c.hasWill = false)

/-- The queue of the connection at `x` is left alone. -/
def SameQueue (x : Nat) (b b' : MqttBroker) : Prop :=
  (b'.client? x).map (·.outQ) = (b.client? x).map (·.outQ)

theorem SameQueue.trans {x : Nat} {b'' : MqttBroker} (h : SameQueue x b b') (h' : SameQueue x b' b'') :
    SameQueue x b b'' := Eq.trans h' h

theorem updateClient_sameQueue {f : BrokerClient → BrokerClient} (x y : Nat)
    (hf : ∀ c, b.client? y = some c → (f c).addr = y ∧ (f c).outQ = c.outQ) : SameQueue x b (b.updateClient y f) := by
  unfold SameQueue
  by_cases hxy : x = y
  · subst hxy
    cases hc : b.client? x with
    | none => rw [MqttBroker.client?, MqttBroker.updateClient, Chain.writeAt_none hc, ← MqttBroker.client?, hc]
    | some c =>
      obtain ⟨haddr, hq⟩ := hf c hc
      rw [MqttBroker.client?, MqttBroker.updateClient, Chain.at?_writeAt_self hc haddr]
      exact congrArg some hq
  · rw [MqttBroker.client?, MqttBroker.updateClient, Chain.at?_writeAt_ne_of (fun c hc => (hf c hc).1) hxy]
    rfl

/-- A connection that has no Will to publish is closed with its queue as it is. -/
theorem closeTakenOver_sameQueue {old : BrokerClient} (hold : b.client? old.addr = some old)
    (hwill : old.protocolLevel < level5 → old.hasWill = false) : SameQueue old.addr b (closeTakenOver L old b).2 := by
  unfold closeTakenOver
  split
  · rename_i hlevel
    have hnone : (publishWill L old.addr b).2 = b := by
      simp only [publishWill, run_bind, run_get, hold]
      cases old.willTopic with
      | none => rfl
      | some topic =>
        dsimp only
        rw [if_pos (by rw [hwill hlevel]; rfl)]
        rfl
    rw [hnone]
    rfl
  · have hwrites := sendDisconnect_writes L Reason.sessionTakenOver ⟨old, b.env⟩
    have hsend : SameQueue old.addr b (onClient old.addr 0 (sendDisconnect L Reason.sessionTakenOver) b).2 := by
      rw [SameQueue, onClient_client? hold (0 : Int) hwrites.tended.addr, hold]
      exact congrArg some hwrites.outQ
    refine hsend.trans (updateClient_sameQueue (f := BrokerClient.clearWill) _ _ fun c hc => ⟨?_, rfl⟩)
    exact Chain.at?_addr (x := c) hc

theorem carryOver_sameQueue (survives : Bool) {old : Nat} (hne : a ≠ old) (clientId : Bytes) :
    SameQueue old b (carryOver survives a old clientId b).2 := by
  unfold carryOver
  split
  · have hsubs : SameQueue old b (subsReassociateClient clientId a b).2 := by
      unfold subsReassociateClient
      split
      · rfl
      · refine updateClient_sameQueue (f := fun c => {c with subCount := _}) _ _ fun c hc => ⟨?_, rfl⟩
        exact Chain.at?_addr (x := c) hc
    refine hsubs.trans ?_
    simp only [run_bind, run_pure]
    generalize (subsReassociateClient clientId a b).2 = b₁
    unfold qos2TakeoverAt
    cases hnew : b₁.client? a with
    | none => rfl
    | some new =>
      cases hold : b₁.client? old with
      | none => rfl
      | some c =>
        obtain ⟨hmine, htheirs⟩ := qos2Takeover_writes new c
        have haddr : (qos2Takeover new c).2.1.addr = a := (congrArg (·.addr) hmine).trans (Chain.at?_addr hnew)
        have hq : (qos2Takeover new c).2.1.outQ = new.outQ := congrArg (·.outQ) hmine
        have haddr' : (qos2Takeover new c).2.2.addr = old ∧ (qos2Takeover new c).2.2.outQ = c.outQ := by
          rcases htheirs with h | h
          · rw [h]
            exact ⟨Chain.at?_addr hold, rfl⟩
          · rw [h]
            exact ⟨Chain.at?_addr (x := c) hold, rfl⟩
        have h₁ : SameQueue old b₁ (b₁.updateClient a (fun _ => (qos2Takeover new c).2.1)) := by
          refine updateClient_sameQueue (f := fun _ => (qos2Takeover new c).2.1) _ _ fun x hx => ?_
          obtain rfl := Option.some.inj (hnew.symm.trans hx)
          exact ⟨haddr, hq⟩
        have hold' : (b₁.updateClient a (fun _ => (qos2Takeover new c).2.1)).client? old = some c :=
          (updateClient_client?_ne (fun _ _ => haddr) hne.symm).trans hold
        refine h₁.trans (updateClient_sameQueue (f := fun _ => (qos2Takeover new c).2.2) _ _ fun x hx => ?_)
        obtain rfl := Option.some.inj (hold'.symm.trans hx)
        exact haddr'
  · rfl

theorem subsRemoveClient_sameQueue (x y : Nat) : SameQueue x b (subsRemoveClient y b).2 := by
  obtain ⟨ops, heq⟩ := subsRemoveClient_eq y b
  rw [heq]
  refine updateClient_sameQueue (f := fun c => {c with subCount := 0}) _ _ fun c hc => ⟨?_, rfl⟩
  exact Chain.at?_addr (x := c) hc

theorem removeLabel_allowed (hP : P .plain) (hover : P .takeover) (c : QConn) (cause : Cause) :
    P (removeLabel c cause) := by
  unfold removeLabel
  split
  · exact hover
  · exact hP

theorem takeover_claims (hP : Ordinary P) (hb : Phase L X b) (ha : b.Established a) (hna : ¬b.Subscribed a)
    (mc : InConnect) (clientId : Bytes) {old : BrokerClient} (hold : b.client? old.addr = some old) (hne : a ≠ old.addr)
    (hover : survivesTakeover mc old = true → P .takeover ∨ old.Spent) :
    Claims L P Z X a b (takeover L a mc clientId old b).2 := by
  have hclose := closeTakenOver_claims (L := L) (Z := Z) hP hb hne hna
  refine .bind hclose fun hb₁ => ?_
  have hcarry := carryOver_claims (P := P) (Z := Z) hb₁ (hclose.established ha) hne (survivesTakeover mc old) clientId
  refine .bind hcarry fun hb₂ => .bind (subsRemoveClient_claims hb₂ hne) fun hb₃ => ?_
  refine .bind (clientRemove_claims (fun c hc => ?_) ?_ hb₃ hne (subsRemoveClient_unsubscribed _ _)) fun hb₄ => .refl hb₄
  rotate_left
  · split
    · exact .inr rfl
    · exact .inl rfl
  cases hs : survivesTakeover mc old with
  | false => exact hP.plain
  | true =>
    rcases hover hs with hover | ⟨hspent, hwill⟩
    · exact removeLabel_allowed hP.plain hover c.view _
    · have hsame := (closeTakenOver_sameQueue (L := L) hold hwill).trans
        ((carryOver_sameQueue (survivesTakeover mc old) hne clientId).trans (subsRemoveClient_sameQueue old.addr old.addr))
      have hq : c.outQ = old.outQ := by
        unfold SameQueue at hsame
        rw [hold, show MqttBroker.client? _ _ = some c from hc] at hsame
        exact Option.some.inj hsame
      have hlabel : removeLabel c.view .takenOver = .plain := by
        refine if_neg ?_
        rintro ⟨-, e, he, hqos⟩
        exact hqos (hspent e (hq ▸ he))
      rw [if_pos rfl, hlabel]
      exact hP.plain

theorem findByClientId_some {id : Bytes} {old : BrokerClient} (h : findByClientId b id a = some old) :
    old ∈ b.clients ∧ old.addr ≠ a ∧ old.clientId = some id := by
  unfold findByClientId at h
  split at h
  · cases h
  · have hp := List.find?_some h
    simp only [ne_eq, decide_eq_true_eq] at hp
    exact ⟨List.mem_of_find?_eq_some h, hp⟩

theorem claimSession_claims (hP : Ordinary P) (hb : Phase L X b) (ha : b.Established a) (hna : ¬b.Subscribed a)
    (mc : InConnect) (clientId : Bytes)
    (hover : ∀ old, findByClientId b clientId a = some old → survivesTakeover mc old = true → P .takeover ∨ old.Spent) :
    Claims L P Z X a b (claimSession L a mc clientId b).2 := by
  simp only [claimSession, run_bind, run_get]
  cases hold : findByClientId b clientId a with
  | some old =>
    obtain ⟨hmem, hne, -⟩ := findByClientId_some hold
    exact takeover_claims hP hb ha hna mc clientId (hb.client?_of_mem hmem) hne.symm (hover old hold)
  | none =>
    show Claims L P Z X a b ((if mc.cleanSession then _ else _ : BrokerM Bool) b).2
    split
    · exact .refl hb
    · exact .bind (subsReassociateClient_claims hb ha clientId) fun hb₁ => .refl hb₁

/-! ### Resuming an orphan -/

theorem orphanReclaim_advances (hb : Phase L X b) {c : BrokerClient} (hc : b.client? a = some c)
    (he : c.sessionEstablished = true) (hq : c.outQ = {})
    (hℓ : ∀ id o, c.clientId = some id → orphanFind b id = some o → P (resumeLabel c.view o.view)) :
    Advances L P Z X b (orphanReclaim a b).2 := by
  simp only [orphanReclaim, run_bind, run_get, hc, Option.bind_some]
  cases hid : c.clientId with
  | none => exact .refl hb
  | some id =>
    simp only [run_bind, run_get]
    cases ho : orphanFind b id with
    | none => exact .refl hb
    | some o =>
      have hat : b.orphan? o.addr = some o := hb.orphan?_of_mem (orphanFind_mem ho).1
      have hconn : b.view.conn? a = some c.view := by
        rw [view_conn?, hc]
        rfl
      have horphan : b.view.orphan? o.view.addr = some o.view := by
        show b.view.orphan? o.addr = some o.view
        rw [view_orphan?, hat]
        rfl
      have hstep := QStep.reclaim (L := L) a c.view o.view hconn hq horphan
      refine .of_forall₂ hb ?_ (Chain.forall₂_writeAt (fun c => .refl c) fun x hx => ?_) (fun x hx => hb.owned x hx)
      · convert QRun.step (hℓ id o hid ho) hstep using 1
        have hconns : (Chain.writeAt a (·.resume o) b.clients).map BrokerClient.view =
            Chain.writeAt a (fun _ => c.view.resume o.view) (b.clients.map BrokerClient.view) := by
          rw [Chain.writeAt_congr (g := fun _ => c.resume o) hc rfl]
          exact Chain.map_writeAt_comm BrokerClient.view (fun _ => rfl) _ fun _ _ => rfl
        have horphans : (Chain.removeAt o.addr b.orphanSessions).map OrphanSession.view =
            Chain.removeAt o.addr (b.orphanSessions.map OrphanSession.view) :=
          Chain.map_removeAt OrphanSession.view (fun _ => rfl) _ _
        show QState.mk ((Chain.writeAt a (·.resume o) b.clients).map BrokerClient.view)
          ((Chain.removeAt o.addr b.orphanSessions).map OrphanSession.view) (b.env.trace ++ []) b.env.nextAddr = _
        rw [hconns, horphans, List.append_nil]
        rfl
      · obtain rfl : c = x := Option.some.inj (hc.symm.trans hx)
        refine SameConn.tended ⟨rfl, rfl, ⟨rfl, rfl⟩, ⟨rfl, rfl⟩, .inl ⟨rfl, rfl⟩⟩ fun he' => ?_
        rw [he] at he'
        cases he'

theorem discardSession_advances (hP : Ordinary P) (hb : Phase L X b) (clientId : Bytes) :
    Advances L P Z X b (discardSession clientId b).2 := by
  have hsubs : Advances L P Z X b (subsRemoveByClientId clientId b).2 := by
    show Advances L P Z X b (if clientId.isEmpty then b else _)
    split
    · exact .refl hb
    · refine .of_clients hb .refl rfl ?_
      rintro x ⟨s, hs, hsx⟩
      exact ⟨s, (List.mem_filter.mp hs).1, hsx⟩
  refine .bind hsubs fun hb₁ => ?_
  generalize (subsRemoveByClientId clientId b).2 = b₁ at hb₁ ⊢
  simp only [run_bind, run_get]
  cases ho : orphanFind b₁ clientId with
  | none => exact .refl hb₁
  | some o => exact orphanRemove_advances hP hb₁ (hb₁.orphan?_of_mem (orphanFind_mem ho).1)

theorem discardSession_client? (clientId : Bytes) (b : MqttBroker) :
    (discardSession clientId b).2.clients = b.clients := by
  have hsubs : (subsRemoveByClientId clientId b).2.clients = b.clients := by
    show (if clientId.isEmpty then b else _).clients = b.clients
    split <;> rfl
  simp only [discardSession, run_bind, run_get]
  generalize (subsRemoveByClientId clientId b).2 = b₁ at hsubs ⊢
  cases orphanFind b₁ clientId with
  | none => exact hsubs
  | some o => exact hsubs

/-- The checks of a CONNECT pass. -/
def Accepts (L : Limits) (b : MqttBroker) (a : Nat) (mc : InConnect) : Prop := (connectChecks L a mc b).1.isOk

instance (L : Limits) (b : MqttBroker) (a : Nat) (mc : InConnect) : Decidable (Accepts L b a mc) :=
  inferInstanceAs (Decidable ((connectChecks L a mc b).1.isOk = true))

/-- What a CONNECT finds under its client id, and which labels it needs for it. -/
structure Finds (P : Label → Prop) (b : MqttBroker) (a : Nat) (mc : InConnect) (clientId : Bytes) : Prop where
  displaced : ∀ old, findByClientId b clientId a = some old → survivesTakeover mc old = true → P .takeover ∨ old.Spent
  resumed : mc.cleanSession = false → ∀ o, orphanFind b clientId = some o →
    o.outQ.chain = [] ∨ o.protocolLevel = mc.protocolLevel ∨ P .mismatch

theorem resumeLabel_allowed (hP : Ordinary P) {c : QConn} {o : QOrphan}
    (h : o.outQ.chain = [] ∨ o.level = c.level ∨ P .mismatch) : P (resumeLabel c o) := by
  unfold resumeLabel
  split
  · exact hP.plain
  · rename_i hno
    rcases h with h | h | h
    · exact absurd (.inl h) hno
    · exact absurd (.inr h) hno
    · exact h

theorem adoptSession_advances (hP : Ordinary P) (hb : Phase L X b) {c : BrokerClient} (hc : b.client? a = some c)
    (he : c.sessionEstablished = true) (hq : c.outQ = {}) (hna : ¬b.Subscribed a) {mc : InConnect} {clientId : Bytes}
    (hid : c.clientId = some clientId) (hlevel : c.protocolLevel = mc.protocolLevel)
    (hfinds : Finds P b a mc clientId) : Advances L P Z X b (adoptSession L a mc clientId b).2 := by
  have hcancel : Advances L P Z X b (pendingWillCancel clientId b).2 := .of_same hb rfl rfl rfl
  refine .bind hcancel fun hb₁ => ?_
  have hclaims : Claims L P Z X a (pendingWillCancel clientId b).2
      (claimSession L a mc clientId (pendingWillCancel clientId b).2).2 :=
    claimSession_claims hP hb₁ ⟨c, hc, he⟩ hna mc clientId hfinds.displaced
  refine .bind hclaims.toAdvances fun hb₂ => ?_
  have horphans : (claimSession L a mc clientId (pendingWillCancel clientId b).2).2.orphanSessions = b.orphanSessions :=
    hclaims.orphans
  obtain ⟨c₂, hc₂, hmine⟩ := hclaims.mine c hc
  generalize claimSession L a mc clientId (pendingWillCancel clientId b).2 = r at hb₂ hc₂ horphans ⊢
  obtain ⟨carried, b₂⟩ := r
  dsimp only at hb₂ hc₂ horphans ⊢
  have hget : ∀ {γ : Type} (f : BrokerClient → γ), (∀ c, f c.unclaimed = f c) → f c₂ = f c := fun f hf =>
    (hf c₂).symm.trans ((congrArg f hmine).trans (hf c))
  cases hclean : mc.cleanSession with
  | true =>
    refine .bind (discardSession_advances hP hb₂ clientId) fun hb₃ => ?_
    exact .bind (persistOps_advances hb₃ _) fun hb₄ => .refl hb₄
  | false =>
    refine .bind (orphanReclaim_advances hb₂ hc₂ ((hget (·.sessionEstablished) fun _ => rfl).trans he)
      ((hget (·.outQ) fun _ => rfl).trans hq) fun id o hid₂ ho => ?_) fun hb₃ => .refl hb₃
    have hid' : id = clientId := by
      rw [hget (·.clientId) fun _ => rfl, hid] at hid₂
      exact (Option.some.inj hid₂).symm
    subst hid'
    have ho' : orphanFind b id = some o := by
      rw [orphanFind, ← horphans]
      exact ho
    refine resumeLabel_allowed hP ?_
    show o.outQ.chain = [] ∨ o.protocolLevel = c₂.protocolLevel ∨ P .mismatch
    rw [hget (·.protocolLevel) fun _ => rfl, hlevel]
    exact hfinds.resumed hclean o ho'

/-- The connection once it has resumed the orphan it found, if it found one. -/
def BrokerClient.resumeFrom (c : BrokerClient) : Option OrphanSession → BrokerClient
  | none => c
  | some o => c.resume o

theorem orphanReclaim_client? {c : BrokerClient} (hc : b.client? a = some c) {clientId : Bytes}
    (hid : c.clientId = some clientId) :
    (orphanReclaim a b).1 = (orphanFind b clientId).isSome ∧
      (orphanReclaim a b).2.client? a = some (c.resumeFrom (orphanFind b clientId)) := by
  simp only [orphanReclaim, run_bind, run_get, hc, Option.bind_some, hid]
  cases orphanFind b clientId with
  | none => exact ⟨rfl, hc⟩
  | some o => exact ⟨rfl, Chain.at?_writeAt_self hc (Chain.at?_addr (x := c) hc)⟩

/-- What an accepted CONNECT finds of its session, and what it leaves in its connection's record. -/
theorem adoptSession_spec (hb : Phase L X b) {c : BrokerClient} (hc : b.client? a = some c)
    (he : c.sessionEstablished = true) (hna : ¬b.Subscribed a) (mc : InConnect) {clientId : Bytes}
    (hid : c.clientId = some clientId) :
    ∃ orphan, orphan = (if mc.cleanSession then none else orphanFind b clientId) ∧
      (adoptSession L a mc clientId b).1 =
        (orphan.isSome || (claimSession L a mc clientId (pendingWillCancel clientId b).2).1) ∧
      ∃ c', (adoptSession L a mc clientId b).2.client? a = some c' ∧
        c'.unclaimed = (c.resumeFrom orphan).unclaimed := by
  let b₁ := (pendingWillCancel clientId b).2
  have hcancel : Advances L (fun _ => True) (fun _ => True) X b b₁ := .of_same hb rfl rfl rfl
  have hb₁ := hcancel.phase
  have hclaims : Claims L (fun _ => True) (fun _ => True) X a b₁ (claimSession L a mc clientId b₁).2 :=
    claimSession_claims ⟨trivial, trivial⟩ hb₁ ⟨c, hc, he⟩ hna mc clientId fun _ _ _ => .inl trivial
  have horphans : (claimSession L a mc clientId b₁).2.orphanSessions = b.orphanSessions := hclaims.orphans
  obtain ⟨c₂, hc₂, hmine⟩ := hclaims.mine c hc
  refine ⟨_, rfl, ?_⟩
  simp only [adoptSession, run_bind]
  generalize claimSession L a mc clientId b₁ = r at hc₂ horphans ⊢
  obtain ⟨carried, b₂⟩ := r
  dsimp only at hc₂ horphans ⊢
  cases mc.cleanSession with
  | true =>
    refine ⟨rfl, c₂, ?_, hmine⟩
    show Chain.at? (discardSession clientId b₂).2.clients a = some c₂
    rw [discardSession_client?]
    exact hc₂
  | false =>
    have hid₂ : c₂.clientId = some clientId := by
      show c₂.unclaimed.clientId = some clientId
      rw [hmine]
      exact hid
    have hfind : orphanFind b₂ clientId = orphanFind b clientId := by
      rw [orphanFind, horphans]
      rfl
    obtain ⟨hres, hclient⟩ := orphanReclaim_client? hc₂ hid₂
    rw [hfind] at hres hclient
    refine ⟨?_, c₂.resumeFrom (orphanFind b clientId), hclient, ?_⟩
    · show ((orphanReclaim a b₂).1 || carried) = _
      rw [hres]
      rfl
    · show (c₂.resumeFrom (orphanFind b clientId)).unclaimed = (c.resumeFrom (orphanFind b clientId)).unclaimed
      cases orphanFind b clientId with
      | none => exact hmine
      | some o =>
        have hexp : c₂.sessionExpirySec = c.sessionExpirySec := congrArg (·.sessionExpirySec) hmine
        have hres : ∀ x : BrokerClient, (x.resume o).unclaimed = {x.unclaimed with
            outQ := o.outQ.updateAll OutPub.resume
            outQInflight := o.outQ.chain.countP (fun e => e.state = .pubrelSent)
            sessionExpirySec := if x.sessionExpirySec = neverExpires then o.sessionExpirySec else x.sessionExpirySec} :=
          fun _ => rfl
        show (c₂.resume o).unclaimed = (c.resume o).unclaimed
        rw [hres, hres, hmine, hexp]

end admitting

end WolfMqtt.Broker
