import WolfMqtt.Broker.TableView

/-! Sessions that end, in the session table.

While a connection goes its record is between the table's two states: its session has left
it, and it is still in the list. What is followed is the table without it (`Departs`). -/
namespace WolfMqtt.Broker

/-! ### What is stored -/

theorem sessions_persist (env : Env) (ops : List PersistOp) :
    ({env with persist := env.persist ++ ops} : Env).sessions = ops.foldl PersistOp.onSessions env.sessions := by
  show (env.persist ++ ops).foldl PersistOp.onSessions _ = _
  rw [List.foldl_append]
  rfl

theorem sessions_note (env : Env) (obs : List Obs) : (env.note obs).sessions = env.sessions := rfl

/-- What ends a session in the store. -/
def endOps (clientId : Bytes) : List PersistOp := [.delSubs clientId, .delSession clientId, .delOutQueue clientId]

theorem endOps_sessions (clientId : Bytes) (r : Bytes → Option SessionRecord) :
    (endOps clientId).foldl PersistOp.onSessions r = Function.update r (sessionKey clientId) none := rfl

/-- A session that becomes an orphan is stored with what waits for its client. -/
theorem orphanOps_sessions {o : OrphanSession} (hne : o.clientId ≠ []) (es : List OutPub) (r : Bytes → Option SessionRecord) :
    (PersistOp.putOrphanSession o.clientId o.protocolLevel o.sessionExpirySec o.orphanSince ::
      es.map (PersistOp.putOutPub o.clientId ·)).foldl PersistOp.onSessions r =
      Function.update r (sessionKey o.clientId) (some o.sorphan.record) := by
  rw [List.foldl_cons, PersistOp.onSessions, if_neg hne]
  show (es.map _).foldl PersistOp.onSessions (Function.update r _ (some o.sorphan.record)) = _
  generalize Function.update r _ (some o.sorphan.record) = r'
  induction es with
  | nil => rfl
  | cons e rest ih => exact ih

theorem Env.alloc_none {env : Env} (h : env.alloc.1 = none) : false ∈ env.allocs := by
  unfold Env.alloc at h
  split at h
  · cases h
  · rename_i ok rest hallocs
    rw [hallocs]
    cases ok with
    | false => exact List.mem_cons_self
    | true => cases h

/-- The table with other connections. -/
def STable.among (t : STable) (conns : List SConn) : STable := {t with conns := conns}

section leaving
variable (L : Limits) (R : Terms) {X Y : Nat → Prop} {b b' b'' : MqttBroker}

/-! ### Orphans that go -/

/-- Orphans have gone, whoever is connected. -/
structure Prunes (b b' : MqttBroker) : Prop where
  clients : b'.clients = b.clients
  allocs : b'.env.allocs <:+ b.env.allocs
  run : R.ordered → ∀ conns, Tidy L R.named (b.table.among conns) → SRun L R (b.table.among conns) (b'.table.among conns)

variable {L R}

theorem Prunes.refl (b : MqttBroker) : Prunes L R b b := ⟨rfl, List.suffix_refl _, fun _ _ _ => .refl⟩

theorem Prunes.trans (h : Prunes L R b b') (h' : Prunes L R b' b'') : Prunes L R b b'' where
  clients := h'.clients.trans h.clients
  allocs := h'.allocs.trans h.allocs
  run hR conns ht := Relation.ReflTransGen.trans (h.run hR conns ht) (h'.run hR conns ((h.run hR conns ht).tidy ht))

theorem Prunes.proceeds (hb : InOrder L R X b) (hphase : Phase L X b') (h : Prunes L R b b') : Proceeds L R X b b' := by
  refine .of_run hb hphase (fun c hc he hX => hb.blank c (h.clients ▸ hc) he hX) h.allocs fun hR ht => ?_
  have hconns : b'.table.conns = b.table.conns := congrArg (List.map BrokerClient.sconn) h.clients
  have hsame : b'.table.among b.table.conns = b'.table := hconns ▸ rfl
  exact hsame ▸ h.run hR b.table.conns ht

theorem orphanDropFull_prunes {o : OrphanSession} (ho : o ∈ b.orphanSessions) : Prunes L R b (orphanDropFull o b).2 := by
  refine ⟨rfl, List.suffix_refl _, fun _ conns ht => .single ?_⟩
  have hmem : o.sorphan ∈ (b.table.among conns).orphans := List.mem_map_of_mem ho
  have hstored : R.sure → (orphanDropFull o b).2.env.sessions =
      Function.update b.env.sessions o.sorphan.clientId none := by
    intro hsure
    have hkey : sessionKey o.clientId = o.clientId := by
      obtain ⟨keepAlive, hnamed⟩ := ht.titled _ hmem
      exact R.keyed hsure hnamed
    show (({b.env with persist := b.env.persist ++ endOps o.clientId} : Env).note _).sessions = _
    rw [sessions_note, sessions_persist, endOps_sessions, hkey]
    rfl
  have hstep := SStep.expire (L := L) (R := R) (t := b.table.among conns) hmem hstored
  have hfind : b.orphan? o.addr = some o := by
    refine Chain.at?_of_mem ?_ ho
    have h := ht.orphanNodup
    rwa [show (b.table.among conns).orphans.map Node.addr = b.orphanSessions.map Node.addr from by
      show (b.orphanSessions.map OrphanSession.sorphan).map Node.addr = _
      rw [List.map_map]
      rfl] at h
  have hpos : b.orphanSessionCount > 0 := by
    have hcount : b.orphanSessionCount = (b.table.among conns).orphans.length := ht.count
    have hlen := List.length_pos_of_mem hmem
    omega
  have hcount : (orphanDropFull o b).2.orphanSessionCount = b.orphanSessionCount - 1 := by
    show (if (b.orphan? o.addr).isSome ∧ b.orphanSessionCount > 0 then b.orphanSessionCount - 1 else b.orphanSessionCount) = _
    rw [hfind, if_pos ⟨rfl, hpos⟩]
  have horphans : (orphanDropFull o b).2.orphanSessions.map OrphanSession.sorphan =
      Chain.removeAt o.addr (b.orphanSessions.map OrphanSession.sorphan) :=
    Chain.map_removeAt OrphanSession.sorphan (fun _ => rfl) o.addr b.orphanSessions
  convert hstep using 1
  simp only [MqttBroker.table, STable.among, horphans, hcount]
  rfl

theorem evictOldest_succ (fuel : Nat) (b : MqttBroker) : evictOldest L (fuel + 1) b =
    if b.orphanSessionCount ≥ L.maxPersistSessions then
      match oldestOrphan b.orphanSessions with
      | none => ((), b)
      | some o => evictOldest L fuel (orphanDropFull o b).2
    else ((), b) := by
  show (if b.orphanSessionCount ≥ L.maxPersistSessions then _ else _ : BrokerM Unit) b = _
  split
  · cases oldestOrphan b.orphanSessions with
    | none => rfl
    | some o => rfl
  · rfl

theorem evictOldest_prunes (fuel : Nat) (b : MqttBroker) : Prunes L R b (evictOldest L fuel b).2 := by
  induction fuel generalizing b with
  | zero => exact .refl b
  | succ fuel ih =>
    rw [evictOldest_succ]
    split
    · cases ho : oldestOrphan b.orphanSessions with
      | none => exact .refl b
      | some o => exact (orphanDropFull_prunes (oldestOrphan_mem ho)).trans (ih _)
    · exact .refl b

theorem oldestOrphan_none {os : List OrphanSession} (h : oldestOrphan os = none) : os = [] := by
  cases os with
  | nil => rfl
  | cons o rest =>
    unfold oldestOrphan at h
    split at h
    · cases h
    · split at h <;> cases h

/-- Eviction makes room, or leaves nobody. -/
theorem evictOldest_room (fuel : Nat) (b : MqttBroker) (hfuel : b.orphanSessions.length ≤ fuel) :
    (evictOldest L fuel b).2.orphanSessionCount < L.maxPersistSessions ∨ (evictOldest L fuel b).2.orphanSessions = [] := by
  induction fuel generalizing b with
  | zero => exact .inr (List.eq_nil_of_length_eq_zero (Nat.le_zero.mp hfuel))
  | succ fuel ih =>
    rw [evictOldest_succ]
    split
    · cases ho : oldestOrphan b.orphanSessions with
      | none => exact .inr (oldestOrphan_none ho)
      | some o =>
        refine ih (orphanDropFull o b).2 ?_
        show (b.orphanSessions.eraseP _).length ≤ fuel
        rw [List.length_eraseP_of_mem (oldestOrphan_mem ho) (decide_eq_true rfl)]
        omega
    · rename_i hroom
      exact .inl (Int.not_le.mp hroom)

theorem expireLoop_prunes (now fuel : Nat) (b : MqttBroker) : Prunes L R b (expireLoop now fuel b).2 := by
  induction fuel generalizing b with
  | zero => exact .refl b
  | succ fuel ih =>
    simp only [expireLoop, run_bind, run_get]
    cases ho : b.orphanSessions.find? (orphanExpired now) with
    | none => exact .refl b
    | some o => exact (orphanDropFull_prunes (List.mem_of_find?_eq_some ho)).trans (ih _)

theorem orphanExpireSweep_proceeds (hb : InOrder L R X b) : Proceeds L R X b (orphanExpireSweep b).2 := by
  refine .bind (getTime_proceeds hb) fun hb₁ => ?_
  exact (expireLoop_prunes _ _ _).proceeds hb₁
    (expireLoop_advances (P := fun _ => True) (Z := fun _ => True) ⟨trivial, trivial⟩ _ _ hb₁.phase).phase

/-! ### A session leaves its connection -/

/-- `t` is the table of `b`, but for what it says of the connection at `a`: it has the same session,
perhaps with another expiry. -/
structure Seen (t : STable) (a : Nat) (c : BrokerClient) (b : MqttBroker) : Prop where
  client : b.client? a = some c
  at_ : ∃ c₀, t.conn? a = some c₀ ∧ c₀.established = c.sessionEstablished ∧ c₀.clientId = c.clientId
  table : t = b.table.among t.conns
  conns : Chain.removeAt a t.conns = Chain.removeAt a b.table.conns

theorem Seen.self {a : Nat} {c : BrokerClient} (hc : b.client? a = some c) : Seen b.table a c b :=
  ⟨hc, ⟨c.sconn, table_conn?_some hc, rfl, rfl⟩, rfl, rfl⟩

variable (L R) in
/-- The session of the connection at `a` has left it: the table goes on without the connection. -/
structure Departs (t : STable) (a : Nat) (b b' : MqttBroker) : Prop where
  others : ∀ c ∈ b'.clients, c.addr ≠ a → c ∈ b.clients
  allocs : b'.env.allocs <:+ b.env.allocs
  run : R.ordered → Tidy L R.named t → SRun L R t (b'.table.dropConn a)

section session
variable {t : STable} {a : Nat} {c : BrokerClient}

/-- The table without the connection at `a` does not show what is written to it. -/
theorem Seen.dropConn {c' : BrokerClient} (h : Seen t a c b) (haddr : c'.addr = a)
    (hclients : b'.clients = Chain.writeAt a (fun _ => c') b.clients) :
    b'.table.dropConn a = b'.table.among (Chain.removeAt a t.conns) := by
  have hmap : ∀ cs : List BrokerClient, Chain.removeAt a (cs.map BrokerClient.sconn) =
      (Chain.removeAt a cs).map BrokerClient.sconn :=
    fun cs => (Chain.map_removeAt BrokerClient.sconn (fun _ => rfl) a cs).symm
  have hconns : Chain.removeAt a b'.table.conns = Chain.removeAt a t.conns := by
    rw [h.conns]
    show Chain.removeAt a (b'.clients.map BrokerClient.sconn) = Chain.removeAt a (b.clients.map BrokerClient.sconn)
    rw [hmap, hmap, hclients, Chain.removeAt_writeAt fun _ _ => haddr]
  rw [STable.dropConn, hconns]
  rfl

/-- What goes from the store with the subscriptions of a connection. -/
def quitOps (c : BrokerClient) : List PersistOp :=
  match c.clientId with
  | none => []
  | some clientId => if c.sessionEstablished ∧ c.sessionExpirySec = 0 then endOps clientId else []

theorem subsRemoveClient_some (hc : b.client? a = some c) : (subsRemoveClient a b).2 =
    {b with
      clients := Chain.writeAt a (fun _ => {c with subCount := 0}) b.clients
      subs := b.subs.filter (fun s => s.client ≠ some a)
      env := {b.env with persist := b.env.persist ++ quitOps c}} := by
  have hwrite : Chain.writeAt a (fun c => {c with subCount := 0}) b.clients =
      Chain.writeAt a (fun _ => {c with subCount := 0}) b.clients := Chain.writeAt_congr hc rfl
  have hat : Chain.at? (Chain.writeAt a (fun _ => {c with subCount := 0}) b.clients) a = some {c with subCount := 0} :=
    Chain.at?_writeAt_self hc (Chain.at?_addr (x := c) hc)
  simp only [subsRemoveClient, run_bind, run_modify, run_get, MqttBroker.client?, MqttBroker.updateClient, hwrite, hat]
  unfold quitOps
  cases c.clientId with
  | none =>
    simp only [List.append_nil]
    rfl
  | some id =>
    dsimp only [whenDo]
    split
    · rfl
    · simp only [List.append_nil]
      rfl

/-- A connection that is not there has no subscription to lose. -/
theorem subsRemoveClient_none (hb : Phase L X b) (hc : b.client? a = none) : (subsRemoveClient a b).2 = b := by
  have hsubs : b.subs.filter (fun s => s.client ≠ some a) = b.subs := by
    refine List.filter_eq_self.mpr fun s hs => decide_eq_true fun hbound => ?_
    obtain ⟨c, hc', -⟩ := hb.owned a ⟨s, hs, hbound⟩
    rw [hc] at hc'
    cases hc'
  have hwrite : Chain.writeAt a (fun c : BrokerClient => {c with subCount := 0}) b.clients = b.clients := Chain.writeAt_none hc _
  simp only [subsRemoveClient, run_bind, run_modify, run_get, MqttBroker.client?, MqttBroker.updateClient, hsubs, hwrite,
    show Chain.at? b.clients a = none from hc]
  rfl

theorem quitOps_new (hnew : c.sessionEstablished = false) : quitOps c = [] := by
  unfold quitOps
  rw [hnew]
  cases c.clientId with
  | none => rfl
  | some clientId => exact if_neg fun h => absurd h.1 (by decide)

theorem quitOps_ends {clientId : Bytes} (hid : c.clientId = some clientId) (hlive : c.sessionEstablished = true)
    (hends : c.sessionExpirySec = 0) : quitOps c = endOps clientId := by
  unfold quitOps
  rw [hid]
  exact if_pos ⟨hlive, hends⟩

theorem subsRemoveClient_others (hc : b.client? a = some c) {x : BrokerClient} (hx : x ∈ (subsRemoveClient a b).2.clients)
    (hne : x.addr ≠ a) : x ∈ b.clients := by
  rw [subsRemoveClient_some hc] at hx
  rcases Chain.mem_writeAt hx with hx | ⟨y, -, rfl⟩
  · exact hx
  · exact absurd (Chain.at?_addr (x := c) hc) hne

theorem subsRemoveClient_allocs (hc : b.client? a = some c) : (subsRemoveClient a b).2.env.allocs = b.env.allocs := by
  rw [subsRemoveClient_some hc]

/-- A connection without a session loses none. -/
theorem subsRemoveClient_departs (h : Seen t a c b) (hnew : c.sessionEstablished = false) :
    Departs L R t a b (subsRemoveClient a b).2 := by
  have haddr : Node.addr ({c with subCount := 0} : BrokerClient) = a := Chain.at?_addr (x := c) h.client
  obtain ⟨c₀, hat, he, -⟩ := h.at_
  refine ⟨fun x hx hne => subsRemoveClient_others h.client hx hne, subsRemoveClient_allocs h.client ▸ List.suffix_refl _,
    fun _ ht => .single ?_⟩
  have hsubs : b.subs.filter (fun s => s.client ≠ some a) = b.subs := by
    refine List.filter_eq_self.mpr fun s hs => decide_eq_true ?_
    exact ht.not_bound hat (he.trans hnew) s (by rw [h.table]; exact hs)
  have hstep := SStep.close (L := L) (R := R) hat (he.trans hnew)
  rw [subsRemoveClient_some h.client, h.dropConn haddr rfl]
  convert hstep using 1
  rw [h.table]
  simp only [STable.dropConn, STable.among, MqttBroker.table, hsubs, sessions_persist, quitOps_new hnew, List.foldl_nil]

/-- A session that does not outlive its connection. -/
theorem subsRemoveClient_finishes (h : Seen t a c b) (hlive : c.sessionEstablished = true)
    (hends : R.ordered → Tidy L R.named t → R.sure → c.sessionExpirySec = 0) :
    Departs L R t a b (subsRemoveClient a b).2 := by
  have haddr : Node.addr ({c with subCount := 0} : BrokerClient) = a := Chain.at?_addr (x := c) h.client
  obtain ⟨c₀, hat, he, hid⟩ := h.at_
  refine ⟨fun x hx hne => subsRemoveClient_others h.client hx hne, subsRemoveClient_allocs h.client ▸ List.suffix_refl _,
    fun hR ht => .single ?_⟩
  obtain ⟨clientId, hname, hnamed⟩ := ht.named c₀ (Chain.at?_mem hat) (he.trans hlive)
  have hstored : R.sure → ({b.env with persist := b.env.persist ++ quitOps c} : Env).sessions =
      Function.update t.records clientId none := by
    intro hsure
    rw [sessions_persist, quitOps_ends (hid.symm.trans hname) hlive (hends hR ht hsure), endOps_sessions, R.keyed hsure hnamed,
      h.table]
    rfl
  have hstep := SStep.finish (L := L) (R := R) hat (he.trans hlive) hname hstored
  rw [subsRemoveClient_some h.client, h.dropConn haddr rfl]
  convert hstep using 1
  rw [h.table]
  rfl

theorem subsRemoveClient_client? (hc : b.client? a = some c) :
    (subsRemoveClient a b).2.client? a = some {c with subCount := 0} := by
  rw [subsRemoveClient_some hc]
  exact Chain.at?_writeAt_self hc (Chain.at?_addr (x := c) hc)

/-- No orphan stands under the client id of a session that is connected. -/
theorem Seen.orphanFind (h : Seen t a c b) (ht : Tidy L R.named t) (hlive : c.sessionEstablished = true) {clientId : Bytes}
    (hid : c.clientId = some clientId) : orphanFind b clientId = none := by
  obtain ⟨c₀, hat, he, hid₀⟩ := h.at_
  refine List.find?_eq_none.mpr fun o ho heq => ?_
  have ho : o.sorphan ∈ t.orphans := by
    rw [h.table]
    exact List.mem_map_of_mem ho
  refine ht.apart c₀ (Chain.at?_mem hat) (he.trans hlive) o.sorphan ho ?_
  rw [hid₀, hid]
  exact congrArg some (of_decide_eq_true heq).symm

/-- The connection goes after everything that belongs to its session, if it has one. -/
theorem subsEndClientSession_departs (h : Seen t a c b) (hends : c.sessionExpirySec = 0)
    (hnew : c.sessionEstablished = false → c.clientId = none) : Departs L R t a b (subsEndClientSession a b).2 := by
  have hat := subsRemoveClient_client? h.client
  have horphans : (subsRemoveClient a b).2.orphanSessions = b.orphanSessions := by
    rw [subsRemoveClient_some h.client]
  simp only [subsEndClientSession, run_bind, run_get, hat, Option.bind_some]
  cases he : c.sessionEstablished with
  | false =>
    rw [hnew he]
    exact subsRemoveClient_departs h he
  | true =>
    have hfin : Departs L R t a b (subsRemoveClient a b).2 := subsRemoveClient_finishes h he fun _ _ _ => hends
    cases hid : c.clientId with
    | none => exact hfin
    | some clientId =>
      simp only [run_bind, run_get]
      have hfind : orphanFind (subsRemoveClient a b).2 clientId = orphanFind b clientId := by
        rw [orphanFind, horphans]
        rfl
      cases ho : orphanFind b clientId with
      | none =>
        rw [hfind, ho]
        exact hfin
      | some o =>
        rw [hfind, ho]
        refine ⟨hfin.others, hfin.allocs, fun _ ht => ?_⟩
        rw [h.orphanFind ht he hid] at ho
        cases ho

/-! ### A session becomes an orphan -/

theorem takeIntoSlot_eq (hc : b.client? a = some c) (slot now : Nat) (clientId : Bytes) :
    ((do
      onClient a () dropPartialQos0
      match (← get).client? a with
      | none => return false
      | some c =>
        modify (·.updateClient a BrokerClient.handOver)
        orphanLink (newOrphan slot clientId now c)
        return true : BrokerM Bool) b) =
      (true, (orphanLink (newOrphan slot clientId now (cutQos0 c).1) {b with
        clients := Chain.writeAt a (fun _ => (cutQos0 c).1.handOver) b.clients
        env := b.env.note (cutQos0 c).2}).2) := by
  obtain ⟨q, pos, hcut⟩ := cutQos0_eq c
  have haddr : Node.addr (cutQos0 c).1 = a := by
    rw [hcut]
    exact Chain.at?_addr (x := c) hc
  have hat : Chain.at? (Chain.writeAt a (fun _ => (cutQos0 c).1) b.clients) a = some (cutQos0 c).1 :=
    Chain.at?_writeAt_self hc haddr
  have hwrite : Chain.writeAt a BrokerClient.handOver (Chain.writeAt a (fun _ => (cutQos0 c).1) b.clients) =
      Chain.writeAt a (fun _ => (cutQos0 c).1.handOver) b.clients := by
    rw [Chain.writeAt_writeAt fun _ _ => haddr]
    rfl
  simp only [run_bind, run_get, run_modify, onClient_some hc, dropPartialQos0_eq, MqttBroker.client?, MqttBroker.updateClient,
    hat, hwrite]
  rfl

/-- Where the connections are the same, they are seen as before. -/
theorem Seen.of_clients (h : Seen t a c b) (hclients : b'.clients = b.clients) : Seen (b'.table.among t.conns) a c b' := by
  have hconns : b'.table.conns = b.table.conns := congrArg (List.map BrokerClient.sconn) hclients
  refine ⟨?_, h.at_, rfl, ?_⟩
  · rw [MqttBroker.client?, hclients]
    exact h.client
  · rw [hconns]
    exact h.conns

theorem Departs.after {b₁ : MqttBroker} {t₁ : STable} (hclients : b₁.clients = b.clients)
    (hallocs : b₁.env.allocs <:+ b.env.allocs) (hrun : R.ordered → Tidy L R.named t → SRun L R t t₁)
    (h : Departs L R t₁ a b₁ b') : Departs L R t a b b' where
  others x hx hne := hclients ▸ h.others x hx hne
  allocs := h.allocs.trans hallocs
  run hR ht := Relation.ReflTransGen.trans (hrun hR ht) (h.run hR ((hrun hR ht).tidy ht))

theorem Prunes.before {b₁ : MqttBroker} (hprunes : Prunes L R b b₁) (hs : Seen t a c b)
    (h : Departs L R (b₁.table.among t.conns) a b₁ b') : Departs L R t a b b' := by
  refine h.after hprunes.clients hprunes.allocs fun hR ht => ?_
  rw [hs.table] at ht ⊢
  exact hprunes.run hR t.conns ht

theorem orphanReplace_spec (h : Seen t a c b) (hlive : c.sessionEstablished = true) {clientId : Bytes}
    (hid : c.clientId = some clientId) :
    (orphanReplace clientId b).2.clients = b.clients ∧ (orphanReplace clientId b).2.env.allocs = b.env.allocs ∧
      (Tidy L R.named t → (orphanReplace clientId b).2 = b) := by
  simp only [orphanReplace, run_bind, run_get]
  cases ho : orphanFind b clientId with
  | none => exact ⟨rfl, rfl, fun _ => rfl⟩
  | some o =>
    refine ⟨rfl, rfl, fun ht => ?_⟩
    rw [h.orphanFind ht hlive hid] at ho
    cases ho

/-- The end of `orphanTake`, and of the subscriptions' bond to the connection. -/
theorem intoOrphan_departs (hb : Phase L X b) (h : Seen t a c b) (hlive : c.sessionEstablished = true) {clientId : Bytes}
    (hid : c.clientId = some clientId) (hroom : b.orphanSessionCount < L.maxPersistSessions ∨ b.orphanSessions = [])
    (now : Nat) {env : Env} (hsessions : env.sessions = b.env.sessions) (hallocs : env.allocs <:+ b.env.allocs) :
    Departs L R t a b {(orphanLink (newOrphan b.env.nextAddr clientId now (cutQos0 c).1) {b with
        clients := Chain.writeAt a (fun _ => (cutQos0 c).1.handOver) b.clients
        env := env.note (cutQos0 c).2}).2 with
      subs := b.subs.map (fun s => if s.client = some a then {s with client := none} else s)} := by
  obtain ⟨c₀, hat, he, hid₀⟩ := h.at_
  obtain ⟨q, pos, hcut⟩ := cutQos0_eq c
  have haddr : Node.addr (cutQos0 c).1.handOver = a := by
    rw [hcut]
    exact Chain.at?_addr (x := c) h.client
  let o := newOrphan b.env.nextAddr clientId now (cutQos0 c).1
  refine ⟨fun x hx hne => ?_, hallocs, fun _ ht => .single ?_⟩
  · rcases Chain.mem_writeAt hx with hx | ⟨y, -, rfl⟩
    · exact hx
    · exact absurd haddr hne
  have hname : c₀.clientId = some o.sorphan.clientId := hid₀.trans hid
  have hnamed : R.named clientId c₀.keepAlive := by
    obtain ⟨id, hid', hnamed⟩ := ht.named c₀ (Chain.at?_mem hat) (he.trans hlive)
    obtain rfl : id = clientId := Option.some.inj (hid'.symm.trans hname)
    exact hnamed
  have hfresh : ∀ x ∈ t.orphans, x.addr ≠ o.sorphan.addr := by
    intro x hx
    rw [h.table] at hx
    obtain ⟨y, hy, rfl⟩ := List.mem_map.mp hx
    exact Nat.ne_of_lt (hb.queues.orphans_lt y.view (List.mem_map_of_mem hy))
  have hroom' : t.count < L.maxPersistSessions ∨ t.orphans = [] := by
    rw [h.table]
    refine hroom.imp id fun hnil => ?_
    show b.orphanSessions.map OrphanSession.sorphan = []
    rw [hnil]
    rfl
  have hsessions' : (orphanLink o {b with
      clients := Chain.writeAt a (fun _ => (cutQos0 c).1.handOver) b.clients
      env := env.note (cutQos0 c).2}).2.env.sessions =
      (PersistOp.putOrphanSession o.clientId o.protocolLevel o.sessionExpirySec o.orphanSince ::
        (o.outQ.chain.filter (fun e => e.qos ≠ .qos0)).map (PersistOp.putOutPub o.clientId ·)).foldl PersistOp.onSessions
          env.sessions := sessions_persist (env.note (cutQos0 c).2) _
  have hstored : R.sure → (orphanLink o {b with
      clients := Chain.writeAt a (fun _ => (cutQos0 c).1.handOver) b.clients
      env := env.note (cutQos0 c).2}).2.env.sessions =
      Function.update t.records o.sorphan.clientId (some o.sorphan.record) := by
    intro hsure
    rw [hsessions', orphanOps_sessions (R.nonempty hnamed)]
    have hkey : sessionKey o.clientId = o.sorphan.clientId := R.keyed hsure hnamed
    rw [hkey, hsessions, h.table]
    rfl
  have hstep := SStep.orphan (L := L) (R := R) hat (he.trans hlive) hname hfresh hroom' hstored
  rw [h.dropConn haddr rfl]
  convert hstep using 1
  rw [h.table]
  rfl

/-- The broker when `orphanTake` looks for a slot: no orphan stands under the client id, and there is room for one. -/
def readySlot (L : Limits) (clientId : Bytes) (b : MqttBroker) : MqttBroker :=
  (evictOldest L (orphanReplace clientId b).2.orphanSessions.length (orphanReplace clientId b).2).2

theorem orphanTake_some (hc : (readySlot L clientId b).client? a = some c) (hid : (b.client? a).bind (·.clientId) = some clientId) :
    orphanTake L a b =
      match (readySlot L clientId b).env.alloc with
      | (none, env) => (false, {readySlot L clientId b with env := env})
      | (some slot, env) => (true, (orphanLink (newOrphan slot clientId env.getTime.1 (cutQos0 c).1) {readySlot L clientId b with
          clients := Chain.writeAt a (fun _ => (cutQos0 c).1.handOver) (readySlot L clientId b).clients
          env := env.getTime.2.note (cutQos0 c).2}).2) := by
  simp only [orphanTake, run_bind, run_get, hid]
  have halloc : alloc (evictOldest L (orphanReplace clientId b).2.orphanSessions.length (orphanReplace clientId b).2).2 =
      ((readySlot L clientId b).env.alloc.1, {readySlot L clientId b with env := (readySlot L clientId b).env.alloc.2}) := rfl
  rw [halloc]
  generalize (readySlot L clientId b).env.alloc = r
  obtain ⟨slot, env⟩ := r
  cases slot with
  | none => rfl
  | some slot => exact takeIntoSlot_eq (b := {readySlot L clientId b with env := env.getTime.2}) hc slot env.getTime.1 clientId

/-- A session that outlives its connection. -/
theorem subsOrphanClient_departs (hb : Phase L X b) (hample : R.sure → ∀ ok ∈ b.env.allocs, ok = true) (h : Seen t a c b)
    (hlive : c.sessionEstablished = true) : Departs L R t a b (subsOrphanClient L a b).2 := by
  cases hid : c.clientId with
  | none =>
    have hnone : orphanTake L a b = (false, b) := by
      simp only [orphanTake, run_bind, run_get, h.client, Option.bind_some, hid]
      rfl
    simp only [subsOrphanClient, run_bind, hnone, Bool.false_eq_true, if_false]
    refine ⟨fun x hx hne => subsRemoveClient_others h.client hx hne, subsRemoveClient_allocs h.client ▸ List.suffix_refl _,
      fun _ ht => ?_⟩
    obtain ⟨c₀, hat, he, hid₀⟩ := h.at_
    obtain ⟨clientId, hname, -⟩ := ht.named c₀ (Chain.at?_mem hat) (he.trans hlive)
    rw [hid₀, hid] at hname
    cases hname
  | some clientId =>
    obtain ⟨hclients₁, hallocs₁, hsame₁⟩ := orphanReplace_spec (L := L) (R := R) h hlive hid
    have hb₁ := (orphanReplace_advances (L := L) (P := fun _ => True) (Z := fun _ => True) ⟨trivial, trivial⟩ hb clientId).phase
    have hs₁ := h.of_clients hclients₁
    let b₁ := (orphanReplace clientId b).2
    have hprunes : Prunes L R b₁ (readySlot L clientId b) := evictOldest_prunes b₁.orphanSessions.length b₁
    have hroom : (readySlot L clientId b).orphanSessionCount < L.maxPersistSessions ∨ (readySlot L clientId b).orphanSessions = [] :=
      evictOldest_room b₁.orphanSessions.length b₁ (Nat.le_refl _)
    have hb₂ : Phase L X (readySlot L clientId b) := (evictOldest_advances (L := L) (P := fun _ => True) (Z := fun _ => True)
      ⟨trivial, trivial⟩ b₁.orphanSessions.length hb₁).phase
    have hs₂ := hs₁.of_clients hprunes.clients
    have hrun₁ : R.ordered → Tidy L R.named t → SRun L R t (b₁.table.among t.conns) := fun _ ht => by
      rw [show b₁ = b from hsame₁ ht, ← h.table]
    refine .after hclients₁ (hallocs₁ ▸ List.suffix_refl _) hrun₁ (hprunes.before hs₁ ?_)
    have hidb : (b.client? a).bind (·.clientId) = some clientId := by
      rw [h.client]
      exact hid
    have htake := orphanTake_some (L := L) hs₂.client hidb
    have hspends := Env.Spends.alloc (readySlot L clientId b).env
    have hnone := @Env.alloc_none (readySlot L clientId b).env
    have hslot : ∀ slot, (readySlot L clientId b).env.alloc.1 = some slot → slot = (readySlot L clientId b).env.nextAddr := by
      intro slot hslot
      unfold Env.alloc at hslot
      split at hslot
      · exact (Option.some.inj hslot).symm
      · split at hslot
        · exact (Option.some.inj hslot).symm
        · cases hslot
    have hallocs₂ : (readySlot L clientId b).env.allocs <:+ b.env.allocs := hallocs₁ ▸ hprunes.allocs
    simp only [subsOrphanClient, run_bind, htake]
    generalize readySlot L clientId b = b₂ at hs₂ hb₂ hroom hspends hnone hslot hallocs₂ ⊢
    generalize b₂.env.alloc = r at hspends hnone hslot ⊢
    obtain ⟨slot, env⟩ := r
    cases slot with
    | none =>
      -- the session is lost, which cannot be where the store is sure to follow
      have hlost : ¬R.sure := fun hsure => absurd (hample hsure false (hallocs₂.subset (hnone rfl))) (by decide)
      have hs₃ : Seen (b₂.table.among t.conns) a c {b₂ with env := env} := by
        refine ⟨hs₂.client, hs₂.at_, ?_, hs₂.conns⟩
        show b₂.table.among _ = ({b₂ with env := env} : MqttBroker).table.among _
        simp only [STable.among, MqttBroker.table, hspends.sessions]
      have hfin : Departs L R (b₂.table.among t.conns) a {b₂ with env := env} _ :=
        subsRemoveClient_finishes hs₃ hlive fun _ _ hsure => absurd hsure hlost
      refine Departs.after ?_ hspends.allocs (fun _ _ => .refl) hfin
      rfl
    | some slot =>
      obtain rfl := hslot slot rfl
      have htime := Env.Spends.getTime env
      exact intoOrphan_departs hb₂ hs₂ hlive hid hroom env.getTime.1 (htime.sessions.trans hspends.sessions)
        (htime.allocs.trans hspends.allocs)

/-- A connection's session goes where its expiry says. -/
theorem leaveSession_departs (hb : Phase L X b) (hample : R.sure → ∀ ok ∈ b.env.allocs, ok = true) (h : Seen t a c b)
    (hnew : c.sessionEstablished = false → c.clientId = none ∧ c.sessionExpirySec = 0) :
    Departs L R t a b (leaveSession L a b).2 := by
  simp only [leaveSession, run_bind, run_get, h.client]
  split
  · rename_i hends
    exact subsEndClientSession_departs h hends fun he => (hnew he).1
  · rename_i hlasts
    refine subsOrphanClient_departs hb hample h ?_
    by_contra hne
    exact hlasts (hnew (by simpa using hne)).2

/-- The connection is gone after its session. -/
theorem Departs.removed {b₁ : MqttBroker} (h : Departs L R t a b₁ b') (htidy : R.ordered → Tidy L R.named t)
    (hblank : ∀ c ∈ b₁.clients, c.addr ≠ a → c.sessionEstablished = false → ¬Y c.addr → c.Blank)
    (hample : R.sure → ∀ ok ∈ b₁.env.allocs, ok = true) {cause : Cause} (hb' : Phase L X b')
    (hphase : Phase L Y (clientRemove a cause b').2) :
    InOrder L R Y (clientRemove a cause b').2 ∧ (R.ordered → SRun L R t (clientRemove a cause b').2.table) := by
  have hgone : (clientRemove a cause b').2.clients = Chain.removeAt a b'.clients ∧
      (clientRemove a cause b').2.table = b'.table.dropConn a ∧ (clientRemove a cause b').2.env.allocs = b'.env.allocs := by
    have hmap : Chain.removeAt a b'.table.conns = (Chain.removeAt a b'.clients).map BrokerClient.sconn :=
      (Chain.map_removeAt BrokerClient.sconn (fun _ => rfl) a b'.clients).symm
    rw [STable.dropConn, hmap]
    cases hc : b'.client? a with
    | none =>
      rw [clientRemove_none hc, show Chain.removeAt a b'.clients = b'.clients from Chain.removeAt_none hc]
      exact ⟨rfl, rfl, rfl⟩
    | some c =>
      rw [clientRemove_some hc]
      exact ⟨rfl, rfl, rfl⟩
  obtain ⟨hclients, htable, hallocs⟩ := hgone
  have hrun : R.ordered → SRun L R t (clientRemove a cause b').2.table := fun hR => htable ▸ h.run hR (htidy hR)
  refine ⟨⟨hphase, fun c hc he hY => ?_, fun hsure ok hok => ?_, fun hR => (hrun hR).tidy (htidy hR)⟩, hrun⟩
  · rw [hclients] at hc
    obtain ⟨hc, hne⟩ := (Chain.mem_removeAt hb'.nodup).mp hc
    exact hblank c (h.others c hc hne) hne he hY
  · rw [hallocs] at hok
    exact hample hsure ok (h.allocs.subset hok)

theorem Departs.proceeds (h : Departs L R b.table a b b') (hb : InOrder L R X b) {cause : Cause} (hb' : Phase L X b')
    (hphase : Phase L Y (clientRemove a cause b').2) (hXY : ∀ x, X x → x ≠ a → Y x) :
    Proceeds L R Y b (clientRemove a cause b').2 := by
  obtain ⟨hafter, hrun⟩ := h.removed hb.tidy (fun c hc hne he hY => hb.blank c hc he fun hX => hY (hXY _ hX hne)) hb.ample
    hb' hphase
  exact ⟨hafter, hrun⟩

/-- A connection that is not there is not between two phases. -/
theorem InOrder.absent (hb : InOrder L R X b) (hc : b.client? a = none) (hXY : ∀ x, X x → x ≠ a → Y x) : InOrder L R Y b := by
  have hne : ∀ x ∈ b.clients, x.addr ≠ a := by
    rintro x hx rfl
    rw [hb.phase.client?_of_mem hx] at hc
    cases hc
  exact {hb with
    phase := {hb.phase with settled := fun x hx hY => hb.phase.settled x hx fun hX => hY (hXY _ hX (hne x hx))}
    blank := fun x hx he hY => hb.blank x hx he fun hX => hY (hXY _ hX (hne x hx))}

end session

/-! ### Connections that go -/

section closing
variable {a : Nat}

/-- Nothing of a session is known of the connection at `a`, unless it has one. -/
def Unnamed (b : MqttBroker) (a : Nat) : Prop :=
  ∀ c, b.client? a = some c → c.sessionEstablished = false → c.clientId = none ∧ c.sessionExpirySec = 0

theorem leaveSession_removed (hb : InOrder L R X b) (hnew : Unnamed b a) (hXY : ∀ x, X x → x ≠ a → Y x) :
    Proceeds L R Y b (clientRemove a .sessionEnd (leaveSession L a b).2).2 := by
  have hadv : Advances L (fun _ => True) (fun _ => True) X b (leaveSession L a b).2 :=
    leaveSession_advances ⟨trivial, trivial⟩ trivial hb.phase a
  have hphase : Advances L (fun _ => True) (fun _ => True) Y _ (clientRemove a .sessionEnd (leaveSession L a b).2).2 :=
    clientRemove_advances (fun _ _ => trivial) (.inl rfl) hadv.phase (leaveSession_unsubscribed hb.phase a) hXY
  cases hc : b.client? a with
  | none =>
    have hleave : (leaveSession L a b).2 = b := by
      simp only [leaveSession, run_bind, run_get, hc]
      rfl
    rw [hleave, clientRemove_none hc]
    exact .refl (hb.absent hc hXY)
  | some c => exact (leaveSession_departs hb.phase hb.ample (.self hc) (hnew c hc)).proceeds hb hadv.phase hphase.phase hXY

theorem publishWill_proceeds (hb : InOrder L R X b) (a : Nat) :
    Proceeds L R (fun x => X x ∨ x = a) b (publishWill L a b).2 := by
  have hfans : Fans L (fun _ => True) (fun x => b.Subscribed x ∨ x = a) True b (publishWill L a b).2 :=
    publishWill_fans ⟨trivial, trivial⟩ (.inr rfl) fun x hx => .inl hx
  refine (hb.mono fun _ h => .inl h).fans hfans (fun x hx => hx.imp (hb.phase.owned x) .inr) ?_
  exact (publishWill_advances (P := fun _ => True) (Z := fun _ => True) ⟨trivial, trivial⟩ hb.phase a).phase.mono fun _ h => .inl h

theorem Spread.unnamed {T : Nat → Prop} {O : Prop} (h : Spread T O b b') (hnew : Unnamed b a) : Unnamed b' a := by
  intro c' hc' he
  rcases Chain.forall₂_at? (a := a) (fun _ _ h => h.1.addr) h.clients with ⟨-, hnone⟩ | ⟨x, y, hx, hy, hxy⟩
  · rw [MqttBroker.client?, hnone] at hc'
    cases hc'
  · obtain rfl : y = c' := Option.some.inj (hy.symm.trans hc')
    have hs := hxy.1.sconn
    have hnew := hnew x hx ((congrArg SConn.established hs).symm.trans he)
    exact ⟨(congrArg SConn.clientId hs).trans hnew.1, (congrArg SConn.expirySec hs).trans hnew.2⟩

theorem abnormalClose_proceeds (hb : InOrder L R X b) (hnew : Unnamed b a) (hXY : ∀ x, X x → x ≠ a → Y x) :
    Proceeds L R Y b (abnormalClose L a b).2 := by
  have hfans : Fans L (fun _ => True) (fun x => b.Subscribed x ∨ x = a) True b (publishWill L a b).2 :=
    publishWill_fans ⟨trivial, trivial⟩ (.inr rfl) fun x hx => .inl hx
  refine (publishWill_proceeds hb a).bind fun hb₁ => ?_
  exact leaveSession_removed hb₁ (hfans.spread.unnamed hnew) fun x hx hne => hXY x (hx.resolve_right hne) hne

/-- A connection is dropped that has no session, or whose session has no Keep Alive. -/
theorem dropClient_proceeds (hb : InOrder L R X b)
    (hnew : ∀ c, b.client? a = some c → c.sessionEstablished = true → c.keepAliveSec = 0)
    (hXY : ∀ x, X x → x ≠ a → Y x) : Proceeds L R Y b (dropClient a b).2 := by
  have hadv : Advances L (fun _ => True) (fun _ => True) X b (subsRemoveClient a b).2 := subsRemoveClient_advances hb.phase a
  have hphase : Advances L (fun _ => True) (fun _ => True) Y b (dropClient a b).2 :=
    dropClient_advances ⟨trivial, trivial⟩ hb.phase hXY
  cases hc : b.client? a with
  | none =>
    have hremove := subsRemoveClient_none hb.phase hc
    show Proceeds L R Y b (clientRemove a .sessionEnd (subsRemoveClient a b).2).2
    rw [hremove, clientRemove_none hc]
    exact .refl (hb.absent hc hXY)
  | some c =>
    have hdeparts : Departs L R b.table a b (subsRemoveClient a b).2 := by
      cases he : c.sessionEstablished with
      | false => exact subsRemoveClient_departs (.self hc) he
      | true =>
        -- where the store is sure to follow, no session is without a Keep Alive
        refine subsRemoveClient_finishes (.self hc) he fun _ ht hsure => ?_
        have hmem : c.sconn ∈ b.table.conns := List.mem_map_of_mem (Chain.at?_mem hc)
        obtain ⟨clientId, -, hnamed⟩ := ht.named c.sconn hmem he
        exact absurd (hnew c hc he) (R.watched hsure hnamed)
    exact hdeparts.proceeds hb hadv.phase hphase.phase hXY

/-- A connection whose CONNECT did not leave it live: it may have a client id by now, but its
session is what says whether anything is kept. -/
theorem endConnect_proceeds (hb : InOrder L R X b) (hXY : ∀ x, X x → x ≠ a → Y x) : Proceeds L R Y b (endConnect L a b).2 := by
  cases hc : b.client? a with
  | none =>
    have hleave : (leaveConnect L a b).2 = b := by
      simp only [leaveConnect, run_bind, run_get, hc]
      rfl
    show Proceeds L R Y b (clientRemove a .sessionEnd (leaveConnect L a b).2).2
    rw [hleave, clientRemove_none hc]
    exact .refl (hb.absent hc hXY)
  | some c =>
    cases he : c.sessionEstablished with
    | true =>
      have hleave : (leaveConnect L a b).2 = (leaveSession L a b).2 := by
        simp only [leaveConnect, run_bind, run_get, hc, he, if_true]
      show Proceeds L R Y b (clientRemove a .sessionEnd (leaveConnect L a b).2).2
      rw [hleave]
      refine leaveSession_removed hb (fun c' hc' he' => ?_) hXY
      obtain rfl := Option.some.inj (hc.symm.trans hc')
      exact absurd (he.symm.trans he') (by decide)
    | false =>
      have hleave : (leaveConnect L a b).2 = (subsRemoveClient a b).2 := by
        simp only [leaveConnect, run_bind, run_get, hc, he, Bool.false_eq_true, if_false]
      show Proceeds L R Y b (clientRemove a .sessionEnd (leaveConnect L a b).2).2
      rw [hleave]
      refine dropClient_proceeds hb (fun c' hc' he' => ?_) hXY
      obtain rfl := Option.some.inj (hc.symm.trans hc')
      exact absurd (he.symm.trans he') (by decide)

end closing

end leaving

end WolfMqtt.Broker
