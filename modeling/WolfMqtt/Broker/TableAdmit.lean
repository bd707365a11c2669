import WolfMqtt.Broker.TableLeave
import WolfMqtt.Broker.Owner

/-! A CONNECT in the session table.

Its checks rename a connection. From the moment the session is established until it is
stored the broker is between two states of the table: the connection it is taken from has
gone, its subscriptions have moved, and what is followed is the table as the CONNECT found
it, with what has been taken from it so far (`Claimed`). One step opens the session. -/
namespace WolfMqtt.Broker

/-! ### Who is left alone -/

/-- No connection without a session has changed but those in `S`, and allocations were only used up. -/
structure Spares (S : Nat → Prop) (b b' : MqttBroker) : Prop where
  others : ∀ c ∈ b'.clients, ¬S c.addr → c.sessionEstablished = false → c ∈ b.clients
  allocs : b'.env.allocs <:+ b.env.allocs

section sparing
variable {S : Nat → Prop} {b b' b'' : MqttBroker} {a : Nat}

instance (S : Nat → Prop) : IsPreorder MqttBroker (Spares S) where
  refl _ := ⟨fun _ hc _ _ => hc, List.suffix_refl _⟩
  trans _ _ _ h h' := ⟨fun c hc hS he => h.others c (h'.others c hc hS he) hS he, h'.allocs.trans h.allocs⟩

theorem Spares.of_eq (hclients : b'.clients = b.clients) (henv : b'.env.allocs = b.env.allocs) : Spares S b b' :=
  ⟨fun _ hc _ _ => hclients ▸ hc, henv ▸ List.suffix_refl _⟩

theorem Spares.updateClient {f : BrokerClient → BrokerClient} (hS : S a) (hf : ∀ c, c.addr = a → (f c).addr = a) :
    Spares S b (b.updateClient a f) := by
  refine ⟨fun c hc hnS _ => ?_, List.suffix_refl _⟩
  rcases Chain.mem_writeAt hc with hc | ⟨y, hy, rfl⟩
  · exact hc
  · refine absurd ?_ hnS
    rw [hf y (Chain.at?_addr (x := y) hy)]
    exact hS

theorem Spread.spares {T : Nat → Prop} {O : Prop} (h : Spread T O b b') (hT : ∀ x, T x → b.Established x ∨ S x)
    (hnodup : ∀ c ∈ b.clients, b.client? c.addr = some c) : Spares S b b' := by
  refine ⟨fun c' hc' hS he => ?_, h.spends.allocs⟩
  obtain ⟨c, hc, hserved, hsame⟩ := Chain.exists_of_mem_right h.clients hc'
  have hnT : ¬T c.addr := by
    intro hreached
    have hest : c'.sessionEstablished = c.sessionEstablished := congrArg SConn.established hserved.sconn
    rcases hT _ hreached with ⟨x, hx, hex⟩ | hin
    · obtain rfl := Option.some.inj (hx.symm.trans (hnodup c hc))
      rw [hest, hex] at he
      cases he
    · exact hS (hserved.addr ▸ hin)
  rw [hsame hnT]
  exact hc

/-- A connection that has gone needs no sparing. -/
theorem Spares.gone {x : Nat} (h : Spares (fun y => S y ∨ y = x) b b') (hgone : b'.client? x = none)
    (hnodup : ∀ c ∈ b'.clients, b'.client? c.addr = some c) : Spares S b b' := by
  refine ⟨fun c hc hS he => h.others c hc ?_ he, h.allocs⟩
  rintro (hin | rfl)
  · exact hS hin
  · rw [hnodup c hc] at hgone
    cases hgone

theorem subsRemoveClient_spares (hS : S a) (b : MqttBroker) : Spares S b (subsRemoveClient a b).2 := by
  obtain ⟨ops, heq⟩ := subsRemoveClient_eq a b
  have h := Spares.updateClient (b := b) (f := fun c => {c with subCount := 0}) hS fun _ h => h
  rw [heq]
  exact ⟨h.others, h.allocs⟩

theorem clientRemove_spares (x : Nat) (cause : Cause) (b : MqttBroker) : Spares S b (clientRemove x cause b).2 := by
  cases hc : b.client? x with
  | none =>
    rw [clientRemove_none hc]
    exact refl b
  | some c =>
    rw [clientRemove_some hc]
    exact ⟨fun y hy _ _ => Chain.mem_of_mem_removeAt hy, List.suffix_refl _⟩

theorem subsReassociateClient_spares (hS : S a) (clientId : Bytes) (b : MqttBroker) :
    Spares S b (subsReassociateClient clientId a b).2 := by
  unfold subsReassociateClient
  split
  · exact refl b
  · have h := Spares.updateClient (b := b)
      (f := fun c => {c with subCount := c.subCount + b.subs.countP (subOwnedBy b clientId)}) hS fun _ h => h
    exact ⟨h.others, h.allocs⟩

theorem qos2TakeoverAt_spares {old : Nat} (hS : S a) (hold : S old) (b : MqttBroker) :
    Spares S b (qos2TakeoverAt a old b).2 := by
  unfold qos2TakeoverAt
  cases hnew : b.client? a with
  | none => exact refl b
  | some new =>
    cases hc : b.client? old with
    | none => exact refl b
    | some c =>
      obtain ⟨hmine, htheirs⟩ := qos2Takeover_writes new c
      have haddr : (qos2Takeover new c).2.1.addr = a := (congrArg (·.addr) hmine).trans (Chain.at?_addr hnew)
      have haddr' : (qos2Takeover new c).2.2.addr = old := by
        rcases htheirs with h | h <;> rw [h] <;> exact Chain.at?_addr (x := c) hc
      exact trans_of (Spares S) (.updateClient (f := fun _ => (qos2Takeover new c).2.1) hS fun _ _ => haddr)
        (.updateClient (f := fun _ => (qos2Takeover new c).2.2) hold fun _ _ => haddr')

theorem carryOver_spares {old : Nat} (hS : S a) (hold : S old) (survives : Bool) (clientId : Bytes) (b : MqttBroker) :
    Spares S b (carryOver survives a old clientId b).2 := by
  unfold carryOver
  split
  · exact trans_of (Spares S) (subsReassociateClient_spares hS clientId b) (qos2TakeoverAt_spares hS hold _)
  · exact refl b

variable {L : Limits} {X : Nat → Prop}

theorem takeover_spares (hb : Phase L X b) (ha : b.Established a) (hna : ¬b.Subscribed a) (mc : InConnect) (clientId : Bytes)
    {old : BrokerClient} (hold : b.client? old.addr = some old) (hne : a ≠ old.addr) :
    Spares (· = a) b (takeover L a mc clientId old b).2 := by
  have hP : Ordinary (fun _ => True) := ⟨trivial, trivial⟩
  let S : Nat → Prop := fun y => y = a ∨ y = old.addr
  have hfans : Fans L (fun _ => True) (fun x => b.Subscribed x ∨ x = old.addr) False b (closeTakenOver L old b).2 :=
    closeTakenOver_fans hP old (.inr rfl) fun x hx => .inl hx
  have hclose : Spares S b (closeTakenOver L old b).2 :=
    hfans.spread.spares (fun x hx => hx.imp (hb.owned x) .inr) fun c => hb.client?_of_mem
  have hspares : Spares S b (takeover L a mc clientId old b).2 :=
    trans_of (Spares S) hclose (trans_of (Spares S) (carryOver_spares (.inl rfl) (.inr rfl) _ clientId _)
      (trans_of (Spares S) (subsRemoveClient_spares (.inr rfl) _) (clientRemove_spares _ _ _)))
  have hclaims : Claims L (fun _ => True) (fun _ => True) X a b (takeover L a mc clientId old b).2 :=
    takeover_claims hP hb ha hna mc clientId hold hne fun _ => .inl trivial
  exact hspares.gone (takeover_gone hb ha hna mc clientId hne) fun c => hclaims.phase.client?_of_mem

theorem claimSession_spares (hb : Phase L X b) (ha : b.Established a) (hna : ¬b.Subscribed a) (mc : InConnect) (clientId : Bytes) :
    Spares (· = a) b (claimSession L a mc clientId b).2 := by
  simp only [claimSession, run_bind, run_get]
  cases hold : findByClientId b clientId a with
  | some old =>
    obtain ⟨hmem, hne, -⟩ := findByClientId_some hold
    exact takeover_spares hb ha hna mc clientId (hb.client?_of_mem hmem) hne.symm
  | none =>
    show Spares (· = a) b ((if mc.cleanSession then _ else _ : BrokerM Bool) b).2
    split
    · exact refl b
    · exact subsReassociateClient_spares (S := (· = a)) rfl clientId b

theorem orphanReclaim_spares (hS : S a) (b : MqttBroker) : Spares S b (orphanReclaim a b).2 := by
  simp only [orphanReclaim, run_bind, run_get]
  cases hid : (b.client? a).bind (·.clientId) with
  | none => exact refl b
  | some clientId =>
    simp only [run_bind, run_get]
    cases orphanFind b clientId with
    | none => exact refl b
    | some o =>
      have h := Spares.updateClient (b := b) (f := (BrokerClient.resume · o)) hS fun _ h => h
      exact ⟨h.others, h.allocs⟩

theorem discardSession_allocs (clientId : Bytes) (b : MqttBroker) :
    (discardSession clientId b).2.env.allocs = b.env.allocs := by
  have hsubs : (subsRemoveByClientId clientId b).2.env = b.env := by
    show (if clientId.isEmpty then b else _).env = b.env
    split <;> rfl
  simp only [discardSession, run_bind, run_get]
  generalize (subsRemoveByClientId clientId b).2 = b₁ at hsubs ⊢
  cases orphanFind b₁ clientId with
  | none => exact congrArg Env.allocs hsubs
  | some o => exact (congrArg Env.allocs hsubs : b₁.env.allocs = b.env.allocs)

/-- Adopting a session reaches no connection without one but its own. -/
theorem adoptSession_spares (hb : Phase L X b) (ha : b.Established a) (hna : ¬b.Subscribed a) (mc : InConnect) (clientId : Bytes) :
    Spares (· = a) b (adoptSession L a mc clientId b).2 := by
  have hcancel : Advances L (fun _ => True) (fun _ => True) X b (pendingWillCancel clientId b).2 := .of_same hb rfl rfl rfl
  have hclaim : Spares (· = a) b (claimSession L a mc clientId (pendingWillCancel clientId b).2).2 := by
    have h := claimSession_spares hcancel.phase ha hna mc clientId
    exact ⟨h.others, h.allocs⟩
  simp only [adoptSession, run_bind]
  generalize claimSession L a mc clientId (pendingWillCancel clientId b).2 = r at hclaim ⊢
  obtain ⟨carried, b₂⟩ := r
  cases mc.cleanSession with
  | true =>
    have h := Spares.of_eq (S := (· = a)) (discardSession_client? clientId b₂) (discardSession_allocs clientId b₂)
    have h' := trans_of (Spares (· = a)) hclaim h
    exact ⟨h'.others, h'.allocs⟩
  | false => exact trans_of (Spares (· = a)) hclaim (orphanReclaim_spares (S := (· = a)) rfl b₂)

end sparing

/-! ### The session is claimed -/

/-- The subscriptions of a connection carry its client id. -/
def STable.Labelled (t : STable) : Prop :=
  ∀ s ∈ t.subs, ∀ x, s.client = some x → ∃ y, t.conn? x = some y ∧ s.clientId = y.clientId

/-- The table once the connection at `a` has taken what is under its client id: the connection at `old` is gone. -/
def STable.claimed (t : STable) (a : Nat) (c : SConn) (old : Option Nat) (subs : List BrokerSub) (count : Int)
    (records : Bytes → Option SessionRecord) : STable where
  conns := Chain.writeAt a (fun _ => {c with subCount := count}) (old.elim t.conns (Chain.removeAt · t.conns))
  subs := subs
  orphans := t.orphans
  count := t.count
  records := records

/-- The broker in the middle of an accepted CONNECT that found the table `t`. -/
structure Claimed (R : Terms) (t : STable) (a : Nat) (clientId : Bytes) (c : SConn) (old : Option Nat) (subs : List BrokerSub)
    (count : Int) (b : MqttBroker) : Prop where
  table : b.table = t.claimed a c old subs count b.env.sessions
  records : R.sure → ∀ k, k ≠ clientId → b.env.sessions k = t.records k

section claiming
variable {L : Limits} {R : Terms} {t : STable} {a : Nat} {clientId : Bytes} {c₀ : SConn} {c : SConn} {b b' : MqttBroker}
  {old : Option Nat} {subs : List BrokerSub} {count : Int}

theorem subOwnedBy_iff (h : b.table.Labelled) {s : BrokerSub} (hs : s ∈ b.subs) :
    subOwnedBy b clientId s = decide (s.clientId = some clientId) := by
  unfold subOwnedBy
  cases hx : s.client with
  | none => rfl
  | some x =>
    obtain ⟨y, hy, hid⟩ := h s hs x hx
    rw [table_conn?] at hy
    obtain ⟨z, hz, rfl⟩ := Option.map_eq_some_iff.mp hy
    simp only [hz, Option.bind_some, hid]
    rfl

/-- What a record's table does not see. -/
theorem updateClient_table {f : BrokerClient → BrokerClient} (hf : ∀ x, b.client? a = some x → (f x).sconn = x.sconn) :
    (b.updateClient a f).table = b.table := by
  have hconns : (Chain.writeAt a f b.clients).map BrokerClient.sconn = b.clients.map BrokerClient.sconn :=
    Chain.map_writeAt BrokerClient.sconn hf
  simp only [MqttBroker.table, MqttBroker.updateClient, hconns]

/-- A write to a record, in the table. -/
theorem updateClient_conns {f : BrokerClient → BrokerClient} {x : BrokerClient} (hx : b.client? a = some x) {y : SConn}
    (hy : (f x).sconn = y) : (b.updateClient a f).table.conns = Chain.writeAt a (fun _ => y) b.table.conns := by
  show (Chain.writeAt a f b.clients).map BrokerClient.sconn = _
  rw [Chain.writeAt_congr (g := fun _ => f x) hx rfl]
  subst hy
  exact Chain.map_writeAt_comm BrokerClient.sconn (fun _ => rfl) _ fun _ _ => rfl

theorem Claimed.of_table (h : Claimed R t a clientId c old subs count b) (htable : b'.table = b.table) :
    Claimed R t a clientId c old subs count b' := by
  have hrecords : b'.env.sessions = b.env.sessions := congrArg STable.records htable
  exact ⟨by rw [htable, h.table, hrecords], fun hsure k hk => (congrFun hrecords k).trans (h.records hsure k hk)⟩

theorem Claimed.conn? (h : Claimed R t a clientId c none subs count b) (hat : t.conn? a = some c₀) (haddr : c.addr = a) :
    b.table.conn? a = some {c with subCount := count} := by
  rw [h.table]
  exact Chain.at?_writeAt_self (f := fun _ => {c with subCount := count}) hat haddr

/-- The subscriptions under the client id are carried over. -/
theorem subsReassociateClient_claimed (h : Claimed R t a clientId c none t.subs 0 b) (hlabelled : b.table.Labelled)
    (hat : t.conn? a = some c₀) (haddr : c.addr = a) (hne : clientId ≠ []) :
    Claimed R t a clientId c none (t.bind clientId a) (t.under clientId) (subsReassociateClient clientId a b).2 := by
  have hsubs : b.subs = t.subs := congrArg STable.subs h.table
  have hempty : clientId.isEmpty = false := by simpa using hne
  have howned : ∀ s ∈ b.subs, subOwnedBy b clientId s = decide (s.clientId = some clientId) := fun s hs =>
    subOwnedBy_iff hlabelled hs
  have hcount : b.subs.countP (subOwnedBy b clientId) = t.under clientId := by
    rw [STable.under, ← hsubs]
    exact List.countP_congr fun s hs => by rw [howned s hs]
  have hbind : b.subs.map (fun s => if subOwnedBy b clientId s then {s with client := some a} else s) = t.bind clientId a := by
    rw [STable.bind, ← hsubs]
    refine List.map_congr_left fun s hs => ?_
    simp only [howned s hs, decide_eq_true_eq]
  have hx := h.conn? hat haddr
  rw [table_conn?] at hx
  obtain ⟨x, hx, hsconn⟩ := Option.map_eq_some_iff.mp hx
  have hnew : ({x with subCount := x.subCount + (t.under clientId : Int)} : BrokerClient).sconn =
      {c with subCount := t.under clientId} := by
    have hzero : x.subCount = 0 := congrArg SConn.subCount hsconn
    show ({x.sconn with subCount := x.subCount + (t.under clientId : Int)} : SConn) = _
    rw [hsconn, hzero, Int.zero_add]
  have hconns := updateClient_conns (b := b) (f := fun x => {x with subCount := x.subCount + (t.under clientId : Int)}) hx hnew
  unfold subsReassociateClient
  rw [if_neg (by rw [hempty]; decide)]
  dsimp only
  rw [hcount, hbind]
  refine ⟨?_, h.records⟩
  have hbase : b.table.conns = (t.claimed a c none t.subs 0 b.env.sessions).conns := congrArg STable.conns h.table
  have hwrite : Chain.writeAt a (fun _ => {c with subCount := (t.under clientId : Int)}) b.table.conns =
      Chain.writeAt a (fun _ => {c with subCount := (t.under clientId : Int)}) t.conns := by
    rw [hbase]
    exact Chain.writeAt_writeAt fun _ _ => haddr
  have horphans : b.orphanSessions.map OrphanSession.sorphan = t.orphans := congrArg STable.orphans h.table
  have hn : b.orphanSessionCount = t.count := congrArg STable.count h.table
  show STable.mk (b.updateClient a _).table.conns _ (b.orphanSessions.map OrphanSession.sorphan) b.orphanSessionCount _ = _
  rw [hconns, hwrite, horphans, hn]
  rfl

theorem qos2TakeoverAt_table (a x : Nat) (b : MqttBroker) : (qos2TakeoverAt a x b).2.table = b.table := by
  unfold qos2TakeoverAt
  cases hnew : b.client? a with
  | none => rfl
  | some new =>
    cases hc : b.client? x with
    | none => rfl
    | some old =>
      have hsame : (qos2Takeover new old).2.1.sconn = new.sconn ∧ (qos2Takeover new old).2.2.sconn = old.sconn := by
        unfold qos2Takeover
        split
        · exact ⟨rfl, rfl⟩
        · exact ⟨rfl, rfl⟩
      dsimp only
      generalize qos2Takeover new old = r at hsame ⊢
      have haddr : r.2.1.addr = a := (congrArg SConn.addr hsame.1).trans (Chain.at?_addr hnew)
      have hfirst : (b.updateClient a (fun _ => r.2.1)).table = b.table := by
        refine updateClient_table fun y hy => ?_
        obtain rfl := Option.some.inj (hnew.symm.trans hy)
        exact hsame.1
      refine (updateClient_table fun y hy => ?_).trans hfirst
      have hsconn : y.sconn = old.sconn := by
        have hat : (b.updateClient a (fun _ => r.2.1)).table.conn? x = some y.sconn := table_conn?_some hy
        rw [hfirst, table_conn?_some hc] at hat
        exact (Option.some.inj hat).symm
      exact hsame.2.trans hsconn.symm

/-- The connection the session is taken from is gone, with the subscriptions that still point at it. -/
theorem removed_claimed (h : Claimed R t a clientId c none subs count b) {x : Nat} (hx : x ≠ a) (haddr : c.addr = a)
    {y : BrokerClient} (hy : b.client? x = some y) (hid : y.clientId = some clientId)
    (hkey : R.sure → sessionKey clientId = clientId) (cause : Cause) :
    Claimed R t a clientId c (some x) (subs.filter (fun s => s.client ≠ some x)) count
      (clientRemove x cause (subsRemoveClient x b).2).2 := by
  have hrecords : R.sure → ∀ k, k ≠ clientId →
      ({b.env with persist := b.env.persist ++ quitOps y} : Env).sessions k = t.records k := by
    intro hsure k hk
    rw [sessions_persist, quitOps, hid]
    dsimp only
    split
    · rw [endOps_sessions, hkey hsure, Function.update_of_ne hk]
      exact h.records hsure k hk
    · exact h.records hsure k hk
  rw [clientRemove_some (subsRemoveClient_client? hy), subsRemoveClient_some hy]
  refine ⟨?_, hrecords⟩
  have hconns : (Chain.removeAt x (Chain.writeAt x (fun _ => {y with subCount := 0}) b.clients)).map BrokerClient.sconn =
      Chain.writeAt a (fun _ => {c with subCount := count}) (Chain.removeAt x t.conns) := by
    have haddr' : Node.addr ({y with subCount := 0} : BrokerClient) = x := Chain.at?_addr (x := y) hy
    have hgone : Chain.removeAt x (Chain.writeAt x (fun _ => ({y with subCount := 0} : BrokerClient)) b.clients) =
        Chain.removeAt x b.clients := Chain.removeAt_writeAt fun _ _ => haddr'
    rw [hgone, Chain.map_removeAt BrokerClient.sconn fun _ => rfl,
      show b.clients.map BrokerClient.sconn = _ from congrArg STable.conns h.table]
    exact Chain.removeAt_writeAt_ne (fun _ _ => haddr) hx
  have hsubs : b.subs = subs := congrArg STable.subs h.table
  have horphans : b.orphanSessions.map OrphanSession.sorphan = t.orphans := congrArg STable.orphans h.table
  have hn : b.orphanSessionCount = t.count := congrArg STable.count h.table
  show STable.mk ((Chain.removeAt x _).map BrokerClient.sconn) (b.subs.filter _) (b.orphanSessions.map OrphanSession.sorphan)
    b.orphanSessionCount _ = _
  rw [hconns, hsubs, horphans, hn]
  rfl

/-! ### What is found -/

variable {N : Bytes → Nat → Prop}

/-- The subscriptions that do not point at the connection that is taken over. -/
def STable.quits (t : STable) (old : Option Nat) : List BrokerSub :=
  old.elim t.subs (fun x => t.subs.filter (fun s => s.client ≠ some x))

theorem Claimed.conn?_ne (h : Claimed R t a clientId c old subs count b) (haddr : c.addr = a) {x : Nat} (hx : x ≠ a)
    (hold : old ≠ some x) : b.table.conn? x = t.conn? x := by
  rw [h.table]
  refine (Chain.at?_writeAt_ne (fun _ _ => haddr) hx).trans ?_
  cases old with
  | none => rfl
  | some y => exact Chain.at?_removeAt_ne fun hxy => hold (congrArg some hxy.symm)

/-- Nothing has been taken yet but connections that nothing points at. -/
theorem Claimed.labelled (h : Claimed R t a clientId c old (t.quits old) count b) (ht : Tidy L N t) (hat : t.conn? a = some c₀)
    (hnew : c₀.established = false) (haddr : c.addr = a) : b.table.Labelled := by
  intro s hs x hx
  have hs : s ∈ t.quits old := by
    rw [h.table] at hs
    exact hs
  have hmem : s ∈ t.subs ∧ old ≠ some x := by
    cases old with
    | none => exact ⟨hs, by rintro ⟨⟩⟩
    | some y =>
      obtain ⟨hs, hne⟩ := List.mem_filter.mp hs
      refine ⟨hs, fun hxy => ?_⟩
      rw [hx, hxy] at hne
      exact absurd rfl (of_decide_eq_true hne)
  obtain ⟨y, hy, hyx, -, hid⟩ := ht.bound s hmem.1 x hx
  have hxa : x ≠ a := fun hxa => ht.not_bound hat hnew s hmem.1 (hxa ▸ hx)
  refine ⟨y, ?_, hid⟩
  rw [h.conn?_ne haddr hxa hmem.2, ← hyx]
  exact ht.conn?_of_mem hy

/-- The connection under the client id is in the table as the CONNECT found it. -/
theorem Claimed.found (h : Claimed R t a clientId c none subs count b) (haddr : c.addr = a)
    (hnodup : ∀ x ∈ b.clients, b.client? x.addr = some x) {y : BrokerClient} (hold : findByClientId b clientId a = some y) :
    t.conn? y.addr = some y.sconn ∧ y.addr ≠ a ∧ y.clientId = some clientId := by
  obtain ⟨hmem, hne, hid⟩ := findByClientId_some hold
  refine ⟨?_, hne, hid⟩
  rw [← h.conn?_ne haddr hne (by rintro ⟨⟩), table_conn?_some (hnodup y hmem)]

/-- Does a CONNECT keep the session it finds? -/
def keepsSession (mc : InConnect) (found : Option BrokerClient) : Bool := found.elim (!mc.cleanSession) (survivesTakeover mc)

theorem bind_quits (ht : Tidy L N t) {x : Nat} {y : SConn} (hat : t.conn? x = some y) (hid : y.clientId = some clientId) (hx : x ≠ a) :
    (t.bind clientId a).filter (fun s => s.client ≠ some x) = t.bind clientId a := by
  refine List.filter_eq_self.mpr fun s hs => decide_eq_true ?_
  obtain ⟨s₀, hs₀, rfl⟩ := List.mem_map.mp hs
  split
  · intro h
    exact hx (Option.some.inj h).symm
  · rename_i hne
    intro h
    obtain ⟨z, hz, hzx, -, hsz⟩ := ht.bound s₀ hs₀ x h
    have hz := ht.conn?_of_mem hz
    rw [hzx, hat] at hz
    rw [hsz, ← Option.some.inj hz, hid] at hne
    exact hne rfl

/-- What a CONNECT claims of the session it finds. -/
theorem claimSession_claimed {X : Nat → Prop} (hb : Phase L X b) (ht : Tidy L N t) (hat : t.conn? a = some c₀)
    (hnew : c₀.established = false) (haddr : c.addr = a) (hne : clientId ≠ []) (hkey : R.sure → sessionKey clientId = clientId)
    (h : Claimed R t a clientId c none t.subs 0 b) (mc : InConnect) {found : Option BrokerClient}
    (hfound : findByClientId b clientId a = found) :
    Claimed R t a clientId c (found.map (·.addr))
      (if keepsSession mc found then t.bind clientId a else t.quits (found.map (·.addr)))
      (if keepsSession mc found then t.under clientId else 0) (claimSession L a mc clientId b).2 := by
  have hstart : Claimed R t a clientId c none (t.quits none) 0 b := h
  have hlabelled : b.table.Labelled := hstart.labelled ht hat hnew haddr
  simp only [claimSession, run_bind, run_get, hfound]
  cases found with
  | none =>
    show Claimed R t a clientId c none _ _ ((if mc.cleanSession then _ else _ : BrokerM Bool) b).2
    unfold keepsSession
    cases mc.cleanSession with
    | true => exact h
    | false => exact subsReassociateClient_claimed h hlabelled hat haddr hne
  | some old =>
    obtain ⟨hold, hoa, hoid⟩ := h.found haddr (fun x => hb.client?_of_mem) hfound
    have hclose : (closeTakenOver L old b).2.table = b.table :=
      (closeTakenOver_fans (P := fun _ => True) (T := fun _ => True) (O := False) ⟨trivial, trivial⟩ old trivial
        fun _ _ => trivial).spread.table
    have h₁ : Claimed R t a clientId c none t.subs 0 (closeTakenOver L old b).2 := h.of_table hclose
    have hlabelled₁ : (closeTakenOver L old b).2.table.Labelled := hclose ▸ hlabelled
    simp only [takeover, run_bind]
    generalize (closeTakenOver L old b).2 = b₁ at h₁ hlabelled₁ ⊢
    have hrecord : ∀ {subs count b₂}, Claimed R t a clientId c none subs count b₂ →
        ∃ y, b₂.client? old.addr = some y ∧ y.clientId = some clientId := by
      intro subs count b₂ h₂
      have hconn := h₂.conn?_ne haddr hoa (by rintro ⟨⟩)
      rw [hold, table_conn?] at hconn
      obtain ⟨y, hy, hsconn⟩ := Option.map_eq_some_iff.mp hconn
      exact ⟨y, hy, (congrArg SConn.clientId hsconn).trans hoid⟩
    cases hsurvives : survivesTakeover mc old with
    | true =>
      have hkeeps : keepsSession mc (some old) = true := hsurvives
      have h₂ := (subsReassociateClient_claimed h₁ hlabelled₁ hat haddr hne).of_table (qos2TakeoverAt_table a old.addr _)
      obtain ⟨y, hy, hyid⟩ := hrecord h₂
      have h₃ := removed_claimed h₂ hoa haddr hy hyid hkey .takenOver
      rw [bind_quits ht hold hoid hoa] at h₃
      rw [hkeeps]
      exact h₃
    | false =>
      have hkeeps : keepsSession mc (some old) = false := hsurvives
      obtain ⟨y, hy, hyid⟩ := hrecord h₁
      rw [hkeeps]
      exact removed_claimed h₁ hoa haddr hy hyid hkey .sessionEnd

/-! ### The session is adopted -/

/-- The broker once the session is adopted, and not yet stored. -/
structure Adopted (R : Terms) (t : STable) (a : Nat) (clientId : Bytes) (old : Option Nat) (keep : Bool) (c : SConn)
    (b : MqttBroker) : Prop where
  table : b.table = {
    conns := Chain.writeAt a (fun _ => c) (old.elim t.conns (Chain.removeAt · t.conns))
    subs := if keep then t.bind clientId a else t.subs.filter (fun s => s.clientId ≠ some clientId)
    orphans := t.orphansBut clientId
    count := (t.orphansBut clientId).length
    records := b.env.sessions}
  records : R.sure → ∀ k, k ≠ clientId → b.env.sessions k = t.records k

theorem Adopted.of_table {keep : Bool} (h : Adopted R t a clientId old keep c b) (htable : b'.table = b.table) :
    Adopted R t a clientId old keep c b' := by
  have hrecords : b'.env.sessions = b.env.sessions := congrArg STable.records htable
  exact ⟨by rw [htable, h.table, hrecords], fun hsure k hk => (congrFun hrecords k).trans (h.records hsure k hk)⟩

theorem orphanFind_none (horphans : b.orphanSessions.map OrphanSession.sorphan = t.orphans)
    (ho : orphanFind b clientId = none) : t.orphansBut clientId = t.orphans := by
  refine List.filter_eq_self.mpr fun o ho' => decide_eq_true fun hid => ?_
  rw [← horphans] at ho'
  obtain ⟨x, hx, rfl⟩ := List.mem_map.mp ho'
  exact List.find?_eq_none.mp ho x hx (decide_eq_true hid)

/-- The orphan under a client id is unlinked. -/
theorem orphanRemove_found (ht : Tidy L N t) (horphans : b.orphanSessions.map OrphanSession.sorphan = t.orphans)
    (hcount : b.orphanSessionCount = t.count) {o o' : OrphanSession} (ho : orphanFind b clientId = some o) (haddr : o'.addr = o.addr) :
    (orphanRemove o' b).2.orphanSessions.map OrphanSession.sorphan = t.orphansBut clientId ∧
      (orphanRemove o' b).2.orphanSessionCount = (t.orphansBut clientId).length := by
  obtain ⟨hmem, hid⟩ := orphanFind_mem ho
  have hmem' : o.sorphan ∈ t.orphans := horphans ▸ List.mem_map_of_mem hmem
  have hrest : Chain.removeAt o.addr t.orphans = t.orphansBut clientId := by
    have h := ht.removeAt_orphan hmem'
    rw [show o.sorphan.clientId = clientId from hid] at h
    exact h
  have hat : b.orphan? o.addr = some o := by
    refine Chain.at?_of_mem ?_ hmem
    have h := ht.orphanNodup
    rw [← horphans, List.map_map] at h
    exact h
  have hlen : (t.orphansBut clientId).length + 1 = t.orphans.length := by
    rw [← hrest, Chain.removeAt, List.length_eraseP_of_mem hmem' (decide_eq_true rfl)]
    have := List.length_pos_of_mem hmem'
    omega
  constructor
  · show (Chain.removeAt o'.addr b.orphanSessions).map OrphanSession.sorphan = _
    rw [haddr, Chain.map_removeAt OrphanSession.sorphan fun _ => rfl, horphans, hrest]
  · show (if (b.orphan? o'.addr).isSome ∧ b.orphanSessionCount > 0 then b.orphanSessionCount - 1 else b.orphanSessionCount) = _
    have hn := ht.count
    rw [haddr, hat, hcount, if_pos ⟨rfl, by omega⟩]
    omega

/-- The subscriptions of a session that is not kept are those that the connection it is taken from had. -/
theorem quits_eq (ht : Tidy L N t) (hold : ∀ x ∈ old, ∃ y, t.conn? x = some y ∧ y.clientId = some clientId) :
    (t.quits old).filter (fun s => s.clientId ≠ some clientId) = t.subs.filter (fun s => s.clientId ≠ some clientId) := by
  cases old with
  | none => rfl
  | some x =>
    obtain ⟨y, hy, hid⟩ := hold x rfl
    show (t.subs.filter _).filter _ = _
    rw [List.filter_filter]
    refine List.filter_congr fun s hs => ?_
    by_cases hs' : s.clientId = some clientId
    · simp [hs']
    · have hne : s.client ≠ some x := by
        intro h
        obtain ⟨z, hz, hzx, -, hsz⟩ := ht.bound s hs x h
        have hz := ht.conn?_of_mem hz
        rw [hzx, hy] at hz
        exact hs' (hsz.trans ((congrArg SConn.clientId (Option.some.inj hz)).symm.trans hid))
      simp [hs', hne]

/-- A clean start discards what stands under the client id. -/
theorem discardSession_adopted (h : Claimed R t a clientId c old (t.quits old) 0 b) (ht : Tidy L N t) (hat : t.conn? a = some c₀)
    (hnew : c₀.established = false) (haddr : c.addr = a) (hne : clientId ≠ [])
    (hold : ∀ x ∈ old, ∃ y, t.conn? x = some y ∧ y.clientId = some clientId) :
    Adopted R t a clientId old false {c with subCount := 0} (discardSession clientId b).2 := by
  have hlabelled := h.labelled ht hat hnew haddr
  have hsubs : b.subs = t.quits old := congrArg STable.subs h.table
  have horphans : b.orphanSessions.map OrphanSession.sorphan = t.orphans := congrArg STable.orphans h.table
  have hcount : b.orphanSessionCount = t.count := congrArg STable.count h.table
  have hconns : b.clients.map BrokerClient.sconn = _ := congrArg STable.conns h.table
  have hempty : clientId.isEmpty = false := by simpa using hne
  have hfilter : b.subs.filter (fun s => !subOwnedBy b clientId s) = t.subs.filter (fun s => s.clientId ≠ some clientId) := by
    rw [← quits_eq ht hold, ← hsubs]
    refine List.filter_congr fun s hs => ?_
    rw [subOwnedBy_iff hlabelled hs]
    simp
  have hremoved : (subsRemoveByClientId clientId b).2 = {b with subs := t.subs.filter (fun s => s.clientId ≠ some clientId)} := by
    show (if clientId.isEmpty then b else _) = _
    rw [hempty, if_neg (by decide), hfilter]
  simp only [discardSession, run_bind, run_get, hremoved]
  cases ho : orphanFind {b with subs := t.subs.filter (fun s => s.clientId ≠ some clientId)} clientId with
  | none =>
    refine ⟨?_, h.records⟩
    have hbut := orphanFind_none (b := b) horphans ho
    have hn := ht.count
    show STable.mk (b.clients.map BrokerClient.sconn) _ (b.orphanSessions.map OrphanSession.sorphan) b.orphanSessionCount _ = _
    rw [hconns, horphans, hcount, hbut, hn]
    rfl
  | some o =>
    refine ⟨?_, h.records⟩
    obtain ⟨hbut, hn⟩ := orphanRemove_found (b := {b with subs := t.subs.filter (fun s => s.clientId ≠ some clientId)}) ht
      horphans hcount ho (Eq.refl o.addr)
    show STable.mk (b.clients.map BrokerClient.sconn) _ ((orphanRemove o _).2.orphanSessions.map OrphanSession.sorphan)
      (orphanRemove o _).2.orphanSessionCount _ = _
    rw [hconns, hbut, hn]
    rfl

/-- An orphan is resumed, and the expiry may be the one it had. -/
theorem orphanReclaim_adopted {keep : Bool} (h : Claimed R t a clientId c old subs count b) (ht : Tidy L N t)
    (hat : t.conn? a = some c₀) (haddr : c.addr = a) (hold : old ≠ some a) (hid : c.clientId = some clientId)
    (hsubs : subs = if keep then t.bind clientId a else t.subs.filter (fun s => s.clientId ≠ some clientId)) :
    ∃ expirySec, Adopted R t a clientId old keep {c with subCount := count, expirySec := expirySec} (orphanReclaim a b).2 := by
  have horphans : b.orphanSessions.map OrphanSession.sorphan = t.orphans := congrArg STable.orphans h.table
  have hcount : b.orphanSessionCount = t.count := congrArg STable.count h.table
  have hself : b.table.conn? a = some {c with subCount := count} := by
    have hin : Chain.at? (old.elim t.conns (Chain.removeAt · t.conns)) a = some c₀ := by
      cases old with
      | none => exact hat
      | some x => exact (Chain.at?_removeAt_ne fun hxa => hold (congrArg some hxa.symm)).trans hat
    rw [h.table]
    exact Chain.at?_writeAt_self (f := fun _ => {c with subCount := count}) hin haddr
  rw [table_conn?] at hself
  obtain ⟨x, hx, hsconn⟩ := Option.map_eq_some_iff.mp hself
  have hxid : x.clientId = some clientId := (congrArg SConn.clientId hsconn).trans hid
  simp only [orphanReclaim, run_bind, run_get, hx, Option.bind_some, hxid]
  cases ho : orphanFind b clientId with
  | none =>
    refine ⟨c.expirySec, ?_, h.records⟩
    have hbut := orphanFind_none horphans ho
    have hn := ht.count
    show b.table = _
    rw [h.table, hbut, ← hsubs, ← hn]
    rfl
  | some o =>
    let e := if x.sessionExpirySec = neverExpires then o.sessionExpirySec else x.sessionExpirySec
    refine ⟨e, ?_, h.records⟩
    have hres : (x.resume o).sconn = {c with subCount := count, expirySec := e} := by
      show ({x.sconn with expirySec := e} : SConn) = _
      rw [hsconn]
    have hconns := updateClient_conns (b := b) (f := (BrokerClient.resume · o)) hx hres
    have hbase : b.table.conns = (t.claimed a c old subs count b.env.sessions).conns := congrArg STable.conns h.table
    have hwrite : Chain.writeAt a (fun _ => ({c with subCount := count, expirySec := e} : SConn)) b.table.conns =
        Chain.writeAt a (fun _ => {c with subCount := count, expirySec := e}) (old.elim t.conns (Chain.removeAt · t.conns)) := by
      rw [hbase]
      exact Chain.writeAt_writeAt fun _ _ => haddr
    let emptied : OrphanSession := {o with outQ := {}, outQInflight := 0, qos2Pending := [], qos2PendingCount := 0}
    have hemptied : emptied.addr = o.addr := rfl
    obtain ⟨hbut, hn⟩ := orphanRemove_found (b := b.updateClient a (BrokerClient.resume · o)) ht horphans hcount ho hemptied
    have hs : b.subs = subs := congrArg STable.subs h.table
    show STable.mk (b.updateClient a (BrokerClient.resume · o)).table.conns b.subs
      ((orphanRemove _ _).2.orphanSessions.map OrphanSession.sorphan) (orphanRemove _ _).2.orphanSessionCount _ = _
    rw [hconns, hwrite, hs, hsubs, hbut, hn]

/-- What an accepted CONNECT has to find for its session to be whole: the connection that has it, if
there is one, and no subscription that it would leave behind. -/
structure FindsAll (t : STable) (a : Nat) (clientId : Bytes) (mc : InConnect) (found : Option BrokerClient) : Prop where
  owner : ∀ y ∈ t.conns, y.established = true → y.clientId = some clientId → found.map (·.addr) = some y.addr
  whole : ∀ old ∈ found, old.sessionEstablished = true ∨ mc.cleanSession = true ∨ old.sessionExpirySec ≠ 0 ∨
    ∀ s ∈ t.subs, s.clientId ≠ some clientId

/-- The session of a CONNECT that starts clean on a connection without one. -/
theorem quits_all (ht : Tidy L N t) {mc : InConnect} (hclean : mc.cleanSession = false) {found : Option BrokerClient}
    (hfound : ∀ y ∈ found, t.conn? y.addr = some y.sconn ∧ y.clientId = some clientId)
    (hall : FindsAll t a clientId mc found) (hkeep : keepsSession mc found = false) :
    t.quits (found.map (·.addr)) = t.subs.filter (fun s => s.clientId ≠ some clientId) := by
  cases found with
  | none =>
    rw [keepsSession, hclean] at hkeep
    cases hkeep
  | some old =>
    obtain ⟨hat, hid⟩ := hfound old rfl
    have hends : old.sessionExpirySec = 0 := by
      have h : survivesTakeover mc old = false := hkeep
      simpa [survivesTakeover, hclean] using h
    refine List.filter_congr fun s hs => ?_
    rcases hall.whole old rfl with he | hc | hexp | hnone
    · have hiff := ht.bound_iff (Chain.at?_mem hat) he hs
      have haddr : old.sconn.addr = old.addr := rfl
      simp only [haddr, show old.sconn.clientId = some clientId from hid] at hiff
      simp [hiff]
    · rw [hclean] at hc
      cases hc
    · exact absurd hends hexp
    · have hne := hnone s hs
      have hnot : s.client ≠ some old.addr := by
        intro h
        obtain ⟨z, hz, hzx, -, hsz⟩ := ht.bound s hs _ h
        have hz := ht.conn?_of_mem hz
        rw [hzx, hat] at hz
        exact hne (hsz.trans ((congrArg SConn.clientId (Option.some.inj hz)).symm.trans hid))
      simp [hne, hnot]

/-- What an accepted CONNECT does to the session under its client id. -/
theorem adoptSession_adopted {X : Nat → Prop} (hb : Phase L X b) (ht : Tidy L N t) (hat : t.conn? a = some c₀)
    (hnew : c₀.established = false) (haddr : c.addr = a) (hid : c.clientId = some clientId) (hne : clientId ≠ [])
    (hkey : R.sure → sessionKey clientId = clientId) (h : Claimed R t a clientId c none t.subs 0 b) (mc : InConnect)
    {found : Option BrokerClient} (hfound : findByClientId b clientId a = found) (hall : FindsAll t a clientId mc found) :
    ∃ expirySec, Adopted R t a clientId (found.map (·.addr)) (keepsSession mc found)
      {c with subCount := if keepsSession mc found then t.under clientId else 0, expirySec := expirySec}
      (adoptSession L a mc clientId b).2 := by
  have hcancel : Advances L (fun _ => True) (fun _ => True) X b (pendingWillCancel clientId b).2 := .of_same hb rfl rfl rfl
  have hthere : ∀ y ∈ found, t.conn? y.addr = some y.sconn ∧ y.addr ≠ a ∧ y.clientId = some clientId := fun y hy =>
    h.found haddr (fun x => hb.client?_of_mem) (hfound.trans hy)
  have hold : found.map (·.addr) ≠ some a := by
    intro h
    obtain ⟨y, hy, hya⟩ := Option.map_eq_some_iff.mp h
    exact (hthere y hy).2.1 hya
  have hclaimed := claimSession_claimed (b := (pendingWillCancel clientId b).2) hcancel.phase ht hat hnew haddr hne hkey
    (h.of_table rfl) mc hfound
  simp only [adoptSession, run_bind]
  generalize claimSession L a mc clientId (pendingWillCancel clientId b).2 = r at hclaimed ⊢
  obtain ⟨carried, b₂⟩ := r
  dsimp only at hclaimed ⊢
  cases hclean : mc.cleanSession with
  | true =>
    have hkeep : keepsSession mc found = false := by
      cases found <;> simp [keepsSession, survivesTakeover, hclean]
    rw [hkeep] at hclaimed ⊢
    have hadopted := discardSession_adopted hclaimed ht hat hnew haddr hne (by
      intro x hx
      obtain ⟨y, hy, rfl⟩ := Option.map_eq_some_iff.mp hx
      exact ⟨y.sconn, (hthere y hy).1, (hthere y hy).2.2⟩)
    refine ⟨c.expirySec, ?_, fun hsure k hk => ?_⟩
    · have htable := hadopted.table
      simp only [MqttBroker.table, STable.mk.injEq] at htable ⊢
      exact ⟨htable.1, htable.2.1, htable.2.2.1, htable.2.2.2.1, trivial⟩
    · have hops : ((persistOps (endOps clientId) (discardSession clientId b₂).2).2).env.sessions k = t.records k := by
        show ({(discardSession clientId b₂).2.env with persist := _ ++ endOps clientId} : Env).sessions k = _
        rw [sessions_persist, endOps_sessions, hkey hsure, Function.update_of_ne hk]
        exact hadopted.records hsure k hk
      exact hops
  | false =>
    refine orphanReclaim_adopted hclaimed ht hat haddr hold hid ?_
    cases hkeep : keepsSession mc found with
    | true => rfl
    | false => exact quits_all ht hclean (fun y hy => ⟨(hthere y hy).1, (hthere y hy).2.2⟩) hall hkeep

/-- The session is stored, and opened in one step. -/
theorem Adopted.opens {keep : Bool} (h : Adopted R t a clientId old keep c b) (hat : t.conn? a = some c₀)
    (hnew : c₀.established = false) (haddr : c.addr = a) (hid : c.clientId = some clientId) (hnamed : R.named clientId c.keepAlive)
    (hlive : c.established = true) (hcount : c.subCount = if keep then (t.under clientId : Int) else 0)
    (hother : ∀ x ∈ old, x ≠ a ∧ ∀ y ∈ t.conns, y.addr = x → y.established = true → y.clientId = some clientId)
    (howner : ∀ y ∈ t.conns, y.established = true → y.clientId = some clientId → old = some y.addr)
    (hstored : R.sure → b.env.sessions clientId = c.record) : SStep L R t b.table := by
  have hrecords : R.sure → b.env.sessions = Function.update t.records clientId c.record := by
    intro hsure
    funext k
    by_cases hk : k = clientId
    · rw [hk, Function.update_self, hstored hsure]
    · rw [Function.update_of_ne hk, h.records hsure k hk]
  rw [h.table]
  exact .open hat hnew haddr ⟨hid, hnamed⟩ hlive hother howner (by rw [hcount]; cases keep <;> rfl) hrecords

end claiming

end WolfMqtt.Broker
