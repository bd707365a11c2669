import WolfMqtt.Broker.Session

/-! The session table of a broker, and what leaves it alone.

Everything that only writes, delivers or publishes is no step of the table. A connection
without a session has sent no CONNECT, or its CONNACK is a refusal still on its way
(`BrokerClient.Blank`): that is what keeps such a connection from leaving a session behind
when it goes. -/
namespace WolfMqtt.Broker

/-! ### The view -/

/-- What the session table sees of an orphan. -/
def OrphanSession.sorphan (o : OrphanSession) : SOrphan where
  addr := o.addr
  clientId := o.clientId
  level := o.protocolLevel
  expirySec := o.sessionExpirySec
  since := o.orphanSince

/-- The session table of a broker. -/
def MqttBroker.table (b : MqttBroker) : STable where
  conns := b.clients.map BrokerClient.sconn
  subs := b.subs
  orphans := b.orphanSessions.map OrphanSession.sorphan
  count := b.orphanSessionCount
  records := b.env.sessions

theorem table_conn? (b : MqttBroker) (a : Nat) : b.table.conn? a = (b.client? a).map BrokerClient.sconn :=
  Chain.at?_map BrokerClient.sconn (fun _ => rfl) b.clients a

theorem table_conn?_some {b : MqttBroker} {a : Nat} {c : BrokerClient} (hc : b.client? a = some c) :
    b.table.conn? a = some c.sconn := by
  rw [table_conn?, hc]
  rfl

/-- A connection without a session before its CONNECT, or while its refusal goes out. -/
structure BrokerClient.Blank (c : BrokerClient) : Prop where
  direct : c.directPendingLen = 0
  willless : c.hasWill = false
  refused : c.connackPendingLen ≠ 0 → c.connackRefused = true
  unnamed : c.connackPendingLen = 0 → c.clientId = none ∧ c.sessionExpirySec = 0
  unwatched : c.connackPendingLen = 0 → c.keepAliveSec = 0

section order
variable (L : Limits) (R : Terms) (X : Nat → Prop)

/-- The sessions are in order, with the connections in `X` between two phases. -/
structure InOrder (b : MqttBroker) : Prop where
  phase : Phase L X b
  blank : ∀ c ∈ b.clients, c.sessionEstablished = false → ¬X c.addr → c.Blank
  ample : R.sure → ∀ ok ∈ b.env.allocs, ok = true
  tidy : R.ordered → Tidy L R.named b.table

/-- `b'` comes after `b` in the session table, and is in order. -/
structure Proceeds (b b' : MqttBroker) : Prop where
  after : InOrder L R X b'
  run : R.ordered → SRun L R b.table b'.table

variable {L R X} {Y : Nat → Prop} {b b' b'' : MqttBroker}

theorem InOrder.mono (hXY : ∀ x, X x → Y x) (hb : InOrder L R X b) : InOrder L R Y b :=
  {hb with phase := hb.phase.mono hXY, blank := fun c hc he hY => hb.blank c hc he fun hX => hY (hXY _ hX)}

namespace Proceeds

/-- The sessions stay in order where the table is run. -/
theorem of_run (hb : InOrder L R X b) (hphase : Phase L Y b')
    (hblank : ∀ c ∈ b'.clients, c.sessionEstablished = false → ¬Y c.addr → c.Blank)
    (hallocs : b'.env.allocs <:+ b.env.allocs)
    (hrun : R.ordered → Tidy L R.named b.table → SRun L R b.table b'.table) : Proceeds L R Y b b' := by
  refine ⟨⟨hphase, hblank, fun h ok hok => hb.ample h ok (hallocs.subset hok), fun h => ?_⟩, fun h => hrun h (hb.tidy h)⟩
  exact (hrun h (hb.tidy h)).tidy (hb.tidy h)

theorem refl (hb : InOrder L R X b) : Proceeds L R X b b := ⟨hb, fun _ => .refl⟩

theorem trans (h : Proceeds L R X b b') (h' : InOrder L R X b' → Proceeds L R Y b' b'') :
    Proceeds L R Y b b'' :=
  have h' := h' h.after
  ⟨h'.after, fun hR => Relation.ReflTransGen.trans (h.run hR) (h'.run hR)⟩

theorem bind {α β : Type} {m : BrokerM α} {f : α → BrokerM β} (hm : Proceeds L R X b (m b).2)
    (hf : InOrder L R X (m b).2 → Proceeds L R Y (m b).2 (f (m b).1 (m b).2).2) :
    Proceeds L R Y b ((m >>= f) b).2 := hm.trans hf

theorem when_at {p : Prop} [Decidable p] {m : BrokerM Unit} (hb : InOrder L R X b)
    (h : p → Proceeds L R X b (m b).2) : Proceeds L R X b (whenDo p m b).2 := by
  unfold whenDo
  by_cases hp : p
  · rw [if_pos hp]
    exact h hp
  · rw [if_neg hp]
    exact .refl hb

/-- What the table does not see. -/
theorem quiet (hb : InOrder L R X b) (hphase : Phase L Y b') (htable : b'.table = b.table)
    (hblank : ∀ c ∈ b'.clients, c.sessionEstablished = false → ¬Y c.addr → c.Blank)
    (hallocs : b'.env.allocs <:+ b.env.allocs) : Proceeds L R Y b b' :=
  .of_run hb hphase hblank hallocs fun _ _ => htable ▸ .refl

end Proceeds

/-! ### Deliveries -/

theorem map_sconn {cs cs' : List BrokerClient} {T : Nat → Prop}
    (h : List.Forall₂ (fun c c' => Served c c' ∧ (¬T c.addr → c' = c)) cs cs') :
    cs'.map BrokerClient.sconn = cs.map BrokerClient.sconn := by
  induction h with
  | nil => rfl
  | cons hxy _ ih => rw [List.map_cons, List.map_cons, ih, hxy.1.sconn]

theorem Spread.table {T : Nat → Prop} {O : Prop} (h : Spread T O b b') : b'.table = b.table := by
  have horphans : b'.orphanSessions.map OrphanSession.sorphan = b.orphanSessions.map OrphanSession.sorphan := by
    have hstill : ∀ os : List OrphanSession, os.map OrphanSession.sorphan = (os.map OrphanSession.still).map OrphanSession.sorphan :=
      fun os => by rw [List.map_map]; rfl
    rw [hstill, h.orphans, ← hstill]
  have hcount : b'.orphanSessionCount = b.orphanSessionCount := congrArg (·.2.2) h.fixed
  simp only [MqttBroker.table, map_sconn h.clients, h.subs, horphans, hcount, h.spends.sessions]

/-- A connection without a session that is not reached is as blank as it was. -/
theorem Spread.blank {T : Nat → Prop} {O : Prop} (h : Spread T O b b') (hb : Phase L X b)
    (hblank : ∀ c ∈ b.clients, c.sessionEstablished = false → ¬Y c.addr → c.Blank) (hT : ∀ x, T x → b.Established x ∨ Y x) :
    ∀ c ∈ b'.clients, c.sessionEstablished = false → ¬Y c.addr → c.Blank := by
  intro c' hc' he hY
  obtain ⟨c, hc, hserved, hsame⟩ := Chain.exists_of_mem_right h.clients hc'
  have haddr : c'.addr = c.addr := hserved.addr
  have hest : c.sessionEstablished = false := (congrArg SConn.established hserved.sconn).symm.trans he
  have hnT : ¬T c.addr := by
    intro hreached
    rcases hT _ hreached with ⟨x, hx, hex⟩ | hin
    · obtain rfl := Option.some.inj (hx.symm.trans (hb.client?_of_mem hc))
      exact absurd (hest.symm.trans hex) (by decide)
    · exact hY (haddr ▸ hin)
  rw [hsame hnT]
  exact hblank c hc hest (haddr ▸ hY)

/-- A fan-out that reaches connections with a session, and some that are between two phases. -/
theorem InOrder.fans (hb : InOrder L R X b) {P : Label → Prop} {T : Nat → Prop} {O : Prop} (h : Fans L P T O b b')
    (hT : ∀ x, T x → b.Established x ∨ X x) (hphase : Phase L X b') : Proceeds L R X b b' :=
  .quiet hb hphase h.spread.table (h.spread.blank hb.phase hb.blank hT) h.spread.spends.allocs

theorem Fans.proceeds (hb : InOrder L R X b) (h : Fans L (fun _ => True) b.Established True b b') :
    Proceeds L R X b b' :=
  hb.fans h (fun _ => .inl) (h.advances (Z := fun _ => True) hb.phase).phase

/-! ### One connection -/

/-- A write to one connection that the table does not see. -/
theorem InOrder.write (hb : InOrder L R X b) {a : Nat} {c c' : BrokerClient} (hc : b.client? a = some c)
    (hclients : b'.clients = Chain.writeAt a (fun _ => c') b.clients)
    (hrest : b'.subs = b.subs ∧ b'.orphanSessions = b.orphanSessions ∧ b'.orphanSessionCount = b.orphanSessionCount)
    (hspends : b.env.Spends b'.env) (hphase : Phase L Y b') (hsconn : c'.sconn = c.sconn)
    (hblank : c'.sessionEstablished = false → ¬Y a → c'.Blank) (hXY : ∀ x, X x → x ≠ a → Y x) :
    Proceeds L R Y b b' := by
  have haddr : c'.addr = a := (congrArg SConn.addr hsconn).trans (Chain.at?_addr hc)
  obtain ⟨hsubs, horphans, hcount⟩ := hrest
  refine .quiet hb hphase ?_ (fun x hx he hY => ?_) hspends.allocs
  · have hconns : b'.clients.map BrokerClient.sconn = b.clients.map BrokerClient.sconn := by
      rw [hclients]
      refine Chain.map_writeAt BrokerClient.sconn fun x hx => ?_
      obtain rfl := Option.some.inj (hc.symm.trans hx)
      exact hsconn
    simp only [MqttBroker.table, hconns, hsubs, horphans, hcount, hspends.sessions]
  · rw [hclients] at hx
    rcases Chain.mem_writeAt_nodup hb.phase.nodup hx with ⟨hx, hne⟩ | ⟨y, hy, rfl⟩
    · exact hb.blank x hx he fun hX => hY (hXY _ hX hne)
    · exact hblank he (haddr ▸ hY)

/-- A write to the record of one connection. -/
theorem InOrder.update (hb : InOrder L R X b) {a : Nat} {f : BrokerClient → BrokerClient}
    (hphase : Phase L Y (b.updateClient a f)) (hf : ∀ c, b.client? a = some c → (f c).sconn = c.sconn ∧
      (c.sessionEstablished = false → (¬X a → c.Blank) → ¬Y a → (f c).Blank))
    (hXY : ∀ x, X x → x ≠ a → Y x) : Proceeds L R Y b (b.updateClient a f) := by
  cases hc : b.client? a with
  | none =>
    have hsame : b.updateClient a f = b := by rw [MqttBroker.updateClient, Chain.writeAt_none hc]
    rw [hsame] at hphase ⊢
    refine .quiet hb hphase rfl (fun c hmem he hY => hb.blank c hmem he fun hX => hY (hXY _ hX ?_)) (List.suffix_refl _)
    intro haddr
    have hat := hb.phase.client?_of_mem hmem
    rw [haddr, hc] at hat
    cases hat
  | some c =>
    obtain ⟨hsconn, hblank⟩ := hf c hc
    have hclients : (b.updateClient a f).clients = Chain.writeAt a (fun _ => f c) b.clients := Chain.writeAt_congr hc rfl
    refine hb.write hc hclients ⟨rfl, rfl, rfl⟩ (refl _) hphase hsconn (fun he hY => ?_) hXY
    have haddr : c.addr = a := Chain.at?_addr hc
    have hest : c.sessionEstablished = false := (congrArg SConn.established hsconn).symm.trans he
    exact hblank hest (fun hX => hb.blank c (Chain.at?_mem hc) hest (haddr ▸ hX)) hY

/-- A function of a connection with a session. -/
theorem InOrder.handles {α : Type} (hb : InOrder L R X b) {a : Nat} (ha : b.Established a) (default : α) {m : ClientM α}
    (hphase : Phase L X (onClient a default m b).2)
    (hm : ∀ c, b.client? a = some c →
      (m ⟨c, b.env⟩).2.c.sconn = c.sconn ∧ b.env.Spends (m ⟨c, b.env⟩).2.env) :
    Proceeds L R X b (onClient a default m b).2 := by
  obtain ⟨c, hc, hest⟩ := ha
  obtain ⟨hsconn, hspends⟩ := hm c hc
  rw [onClient_some hc] at hphase ⊢
  refine hb.write hc rfl ⟨rfl, rfl, rfl⟩ hspends hphase hsconn (fun he => ?_) fun x hX _ => hX
  exact absurd ((congrArg SConn.established hsconn).symm.trans he) (by rw [show c.sconn.established = true from hest]; decide)

theorem InOrder.serves {α : Type} (hb : InOrder L R X b) {a : Nat} (ha : b.Established a) (default : α) {m : ClientM α}
    (hm : ∀ c, b.client? a = some c → Serves L (fun _ => True) ⟨c, b.env⟩ (m ⟨c, b.env⟩).2) :
    Proceeds L R X b (onClient a default m b).2 :=
  hb.handles ha default (onClient_serves (Z := fun _ => True) hb.phase ha default hm).phase fun c hc =>
    ⟨(hm c hc).served.sconn, (hm c hc).spends⟩

theorem InOrder.minds {α : Type} (hb : InOrder L R X b) {a : Nat} (ha : b.Established a) (default : α) {m : ClientM α}
    (hm : Moves (Minds L (fun _ => True)) m) : Proceeds L R X b (onClient a default m b).2 :=
  hb.handles ha default (onClient_minds (Z := fun _ => True) hb.phase ha default hm).phase fun c _ =>
    ⟨(hm ⟨c, b.env⟩).session, (hm ⟨c, b.env⟩).spends⟩

theorem InOrder.writes {α : Type} (hb : InOrder L R X b) {a : Nat} (ha : b.Established a) (default : α) {m : ClientM α}
    (hm : Moves Writes m) : Proceeds L R X b (onClient a default m b).2 :=
  hb.minds ha default (hm.mono fun _ _ h => h.minds)

/-- What only the environment sees. -/
theorem InOrder.env (hb : InOrder L R X b) {env : Env} (hphase : Phase L X {b with env := env})
    (hspends : b.env.Spends env) : Proceeds L R X b {b with env := env} := by
  refine .quiet hb hphase ?_ hb.blank hspends.allocs
  simp only [MqttBroker.table, hspends.sessions]

theorem getTime_proceeds (hb : InOrder L R X b) : Proceeds L R X b (getTime b).2 :=
  hb.env (getTime_advances (P := fun _ => True) (Z := fun _ => True) hb.phase).phase (.getTime b.env)

end order

end WolfMqtt.Broker
