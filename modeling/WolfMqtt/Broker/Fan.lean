import WolfMqtt.Broker.Serve
import WolfMqtt.Broker.Subscribe

/-! Deliveries to any number of connections, as runs of the delivery system.

A fan-out serves the queues of the connections it reaches (`Fans`): no connection comes
or goes, none that it does not reach is touched, and the subscriptions and the stored
sessions stay. -/
namespace WolfMqtt.Broker

/-! ### Views -/

/-- What the delivery system sees of an orphan. -/
def OrphanSession.view (o : OrphanSession) : QOrphan := ⟨o.addr, o.protocolLevel, o.outQ⟩

/-- What the delivery system sees of the broker. -/
def MqttBroker.view (b : MqttBroker) : QState where
  conns := b.clients.map BrokerClient.view
  orphans := b.orphanSessions.map OrphanSession.view
  trace := b.env.trace
  nextAddr := b.env.nextAddr

theorem view_conn? (b : MqttBroker) (a : Nat) : b.view.conn? a = (b.client? a).map BrokerClient.view :=
  Chain.at?_map BrokerClient.view (fun _ => rfl) b.clients a

theorem view_orphan? (b : MqttBroker) (a : Nat) : b.view.orphan? a = (b.orphan? a).map OrphanSession.view :=
  Chain.at?_map OrphanSession.view (fun _ => rfl) b.orphanSessions a

theorem onClient_some {α : Type} {a : Nat} {b : MqttBroker} {c : BrokerClient} (h : b.client? a = some c)
    (default : α) (m : ClientM α) :
    onClient a default m b =
      ((m ⟨c, b.env⟩).1, {b.updateClient a (fun _ => (m ⟨c, b.env⟩).2.c) with env := (m ⟨c, b.env⟩).2.env}) := by
  simp only [onClient, h]

theorem onClient_none {α : Type} {a : Nat} {b : MqttBroker} (h : b.client? a = none) (default : α)
    (m : ClientM α) : onClient a default m b = (default, b) := by
  simp only [onClient, h]

theorem view_onClient {α : Type} {a : Nat} {b : MqttBroker} {c : BrokerClient} (h : b.client? a = some c)
    (default : α) (m : ClientM α) : (onClient a default m b).2.view = b.view.withConn a (m ⟨c, b.env⟩).2.view := by
  rw [onClient_some h]
  simp only [MqttBroker.view, QState.withConn, MqttBroker.updateClient,
    Chain.map_writeAt_comm BrokerClient.view (fun _ => rfl) (fun _ => (m ⟨c, b.env⟩).2.c.view) (fun _ _ => rfl)]
  rfl

/-! ### Frames -/

/-- The orphan without its queue. -/
def OrphanSession.still (o : OrphanSession) : OrphanSession := {o with outQ := {}, outQInflight := 0}

/-- What a fan-out leaves as it is, besides connections, subscriptions and orphans. -/
def MqttBroker.fixed (b : MqttBroker) : Option Bytes × Option Bytes × Int := (b.authUser, b.authPass, b.orphanSessionCount)

/-- Only connections in `T` are served, and orphans' queues only if `O`. -/
structure Spread (T : Nat → Prop) (O : Prop) (b b' : MqttBroker) : Prop where
  clients : List.Forall₂ (fun c c' => Served c c' ∧ (¬T c.addr → c' = c)) b.clients b'.clients
  subs : b'.subs = b.subs
  orphans : b'.orphanSessions.map OrphanSession.still = b.orphanSessions.map OrphanSession.still
  untouched : ¬O → b'.orphanSessions = b.orphanSessions
  fixed : b'.fixed = b.fixed
  spends : b.env.Spends b'.env

theorem Served.addr {c c' : BrokerClient} (h : Served c c') : c'.addr = c.addr := by
  show c'.still.addr = c.still.addr
  rw [h.still]

instance (T : Nat → Prop) (O : Prop) : IsPreorder MqttBroker (Spread T O) where
  refl b := ⟨List.forall₂_same.mpr fun c _ => ⟨refl c, fun _ => rfl⟩, rfl, rfl, fun _ => rfl, rfl, refl b.env⟩
  trans b b' b'' h h' := by
    refine ⟨Chain.forall₂_trans ?_ h.clients h'.clients, h'.subs.trans h.subs, h'.orphans.trans h.orphans,
      fun hO => (h'.untouched hO).trans (h.untouched hO), h'.fixed.trans h.fixed,
      trans_of Env.Spends h.spends h'.spends⟩
    intro c c' c'' hc hc'
    refine ⟨trans_of Served hc.1 hc'.1, fun hT => ?_⟩
    rw [hc'.2 (by rw [hc.1.addr]; exact hT), hc.2 hT]

/-- A write to the environment, or to anything else than connections, subscriptions and orphans. -/
theorem Spread.of_eq {T : Nat → Prop} {O : Prop} {b b' : MqttBroker} (hc : b'.clients = b.clients) (hs : b'.subs = b.subs)
    (ho : b'.orphanSessions = b.orphanSessions) (hf : b'.fixed = b.fixed) (hp : b.env.Spends b'.env) :
    Spread T O b b' := by
  refine ⟨?_, hs, by rw [ho], fun _ => ho, hf, hp⟩
  rw [hc]
  exact List.forall₂_same.mpr fun c _ => ⟨refl c, fun _ => rfl⟩

theorem Spread.note {T : Nat → Prop} {O : Prop} {b b' : MqttBroker} (h : Spread T O b b') (obs : List Obs) :
    Spread T O b (noteBroker obs b').2 := by
  have hnote : Spread T O b' (noteBroker obs b').2 := .of_eq rfl rfl rfl rfl (.of_eq rfl rfl)
  exact trans_of (Spread T O) h hnote

theorem onClient_spread {α : Type} {T : Nat → Prop} {O : Prop} {a : Nat} {b : MqttBroker} (hT : T a) (default : α) {m : ClientM α}
    (hm : ∀ c, b.client? a = some c → Served c (m ⟨c, b.env⟩).2.c ∧ b.env.Spends (m ⟨c, b.env⟩).2.env) :
    Spread T O b (onClient a default m b).2 := by
  cases hc : b.client? a with
  | none => rw [onClient_none hc]; exact refl b
  | some c =>
    rw [onClient_some hc]
    refine ⟨?_, rfl, rfl, fun _ => rfl, rfl, (hm c hc).2⟩
    refine Chain.forall₂_writeAt (fun c => ⟨refl c, fun _ => rfl⟩) (fun x hx => ?_)
    obtain rfl : c = x := Option.some.inj (hc.symm.trans hx)
    have haddr : c.addr = a := Chain.at?_addr hx
    exact ⟨(hm c hc).1, fun hn => absurd (haddr ▸ hT) hn⟩

section fans
variable (L : Limits) (P : Label → Prop) (T : Nat → Prop) (O : Prop)

/-- A fan-out that reaches connections in `T`. -/
structure Fans (b b' : MqttBroker) : Prop where
  spread : Spread T O b b'
  run : QRun L P b.view b'.view

instance : IsPreorder MqttBroker (Fans L P T O) where
  refl b := ⟨refl b, .refl⟩
  trans _ _ _ h h' := ⟨trans_of (Spread T O) h.spread h'.spread, Relation.ReflTransGen.trans h.run h'.run⟩

variable {L P T O}

/-- A connection's run is the system's. -/
theorem onClient_run {α : Type} {a : Nat} {b : MqttBroker} (default : α) {m : ClientM α}
    (hm : ∀ c, b.client? a = some c → CRun L P (Conn.view ⟨c, b.env⟩) (m ⟨c, b.env⟩).2.view) :
    QRun L P b.view (onClient a default m b).2.view := by
  cases hc : b.client? a with
  | none => rw [onClient_none hc]; exact .refl
  | some c =>
    rw [view_onClient hc]
    exact CRun.lift (by rw [view_conn?, hc]; rfl) (hm c hc)

theorem onClient_fans {α : Type} {a : Nat} {b : MqttBroker} (hT : T a) (default : α) {m : ClientM α}
    (hm : ∀ c, b.client? a = some c → Serves L P ⟨c, b.env⟩ (m ⟨c, b.env⟩).2) :
    Fans L P T O b (onClient a default m b).2 :=
  ⟨onClient_spread hT default fun c hc => ⟨(hm c hc).served, (hm c hc).spends⟩, onClient_run default fun c hc => (hm c hc).run⟩

/-- Nothing the delivery system sees. -/
theorem Fans.of_eq {b b' : MqttBroker} (hs : Spread T O b b') (hv : b'.view = b.view) : Fans L P T O b b' :=
  ⟨hs, by rw [hv]; exact .refl⟩

/-! ### Allocations, the clock and identifiers -/

/-- What follows an allocation: it failed, or it gave the next address. -/
theorem alloc_at {β : Type} {R : MqttBroker → MqttBroker → Prop} {f : Option Nat → BrokerM β} {b₀ b : MqttBroker}
    (hnone : ∀ env, env.trace = b.env.trace → env.nextAddr = b.env.nextAddr → b.env.Spends env →
      R b₀ (f none {b with env := env}).2)
    (hsome : ∀ env, env.trace = b.env.trace → env.nextAddr = b.env.nextAddr + 1 → b.env.Spends env →
      R b₀ (f (some b.env.nextAddr) {b with env := env}).2) : R b₀ ((alloc >>= f) b).2 := by
  have hspends := Env.Spends.alloc b.env
  show R b₀ (f b.env.alloc.1 {b with env := b.env.alloc.2}).2
  unfold Env.alloc at hspends ⊢
  split at hspends
  · exact hsome _ rfl rfl hspends
  · split at hspends
    · rename_i hok
      rw [if_pos hok]
      exact hsome _ rfl rfl hspends
    · rename_i hok
      rw [if_neg hok]
      exact hnone _ rfl rfl hspends

/-- A new environment in which only allocations have happened. -/
theorem Fans.env (hP : Ordinary P) {b : MqttBroker} {env : Env} (ht : env.trace = b.env.trace)
    (hn : b.env.nextAddr ≤ env.nextAddr) (hp : b.env.Spends env) : Fans L P T O b {b with env := env} := by
  refine ⟨.of_eq rfl rfl rfl rfl hp, ?_⟩
  have hstep : QStep L .plain b.view {b.view with nextAddr := env.nextAddr} := .alloc _ hn
  have hview : MqttBroker.view {b with env := env} = {b.view with nextAddr := env.nextAddr} := by
    simp only [MqttBroker.view, ht]
  rw [hview]
  exact .step hP.plain hstep

theorem alloc_fans (hP : Ordinary P) : Moves (Fans L P T O) alloc := by
  intro b
  have : Fans L P T O b ((alloc >>= pure) b).2 :=
    alloc_at (fun env ht hn hp => .env hP ht (Nat.le_of_eq hn.symm) hp) (fun env ht hn hp => .env hP ht (by omega) hp)
  exact this

theorem getTime_env (env : Env) : env.getTime.2.trace = env.trace ∧ env.getTime.2.nextAddr = env.nextAddr := by
  unfold Env.getTime
  split <;> exact ⟨rfl, rfl⟩

theorem alloc_env (env : Env) : env.alloc.2.trace = env.trace ∧ env.nextAddr ≤ env.alloc.2.nextAddr := by
  unfold Env.alloc
  split
  · exact ⟨rfl, Nat.le_succ _⟩
  · split
    · exact ⟨rfl, Nat.le_succ _⟩
    · exact ⟨rfl, Nat.le_refl _⟩

theorem getTime_fans : Moves (Fans L P T O) getTime := by
  intro b
  obtain ⟨ht, hn⟩ := getTime_env b.env
  refine .of_eq (.of_eq rfl rfl rfl rfl (.getTime b.env)) ?_
  show QState.mk _ _ b.env.getTime.2.trace b.env.getTime.2.nextAddr = _
  rw [ht, hn]
  rfl

/-- Calls that are not about sessions. -/
theorem persistOps_fans {ops : List PersistOp} (hops : ∀ r, ops.foldl PersistOp.onSessions r = r) :
    Moves (Fans L P T O) (persistOps ops) := fun _ => .of_eq (.of_eq rfl rfl rfl rfl (.persist hops)) rfl

theorem scanPacketId_spec {outQ : List OutPub} {fuel candidate id : Nat}
    (h : scanPacketId outQ fuel candidate = some id) (hc : candidate ≠ 0) :
    id ≠ 0 ∧ packetIdInQueue outQ id = false := by
  induction fuel generalizing candidate with
  | zero => cases h
  | succ fuel ih =>
    unfold scanPacketId at h
    split at h
    · exact ih h (succPacketId_ne candidate)
    · rename_i hfree
      cases h
      exact ⟨hc, Bool.eq_false_iff.mpr hfree⟩

/-- What follows the choice of an identifier: it is zero, or one the queue does not use. -/
theorem nextPacketId_at {β : Type} {R : MqttBroker → MqttBroker → Prop} {outQ : List OutPub} {f : Nat → BrokerM β}
    {b₀ b : MqttBroker}
    (h : ∀ id next, (id ≠ 0 → packetIdInQueue outQ id = false) → R b₀ (f id {b with nextPacketId := next}).2) :
    R b₀ ((nextPacketIdForQueue outQ >>= f) b).2 := by
  have hfirst : (if b.nextPacketId = 0 then 1 else b.nextPacketId) ≠ 0 := by
    split <;> omega
  show R b₀ (f (nextPacketIdForQueue outQ b).1 (nextPacketIdForQueue outQ b).2).2
  unfold nextPacketIdForQueue
  dsimp only
  split
  · exact h 0 b.nextPacketId (fun h => absurd rfl h)
  · rename_i id hscan
    exact h id _ (fun _ => (scanPacketId_spec hscan hfirst).2)

/-! ### Enqueueing -/

/-- The one step of an enqueue, from the state before its allocation. -/
theorem enqueueOutPub_fans (hP : Ordinary P) {a : Nat} {b b' : MqttBroker} {c : BrokerClient} {e : OutPub} (hT : T a)
    (hb : b'.clients = b.clients ∧ b'.subs = b.subs ∧ b'.orphanSessions = b.orphanSessions ∧
      b'.fixed = b.fixed ∧ b.env.Spends b'.env)
    (ht : b'.env.trace = b.env.trace) (hn : b'.env.nextAddr = b.env.nextAddr + 1) (hc : b'.client? a = some c)
    (ha : e.addr = b.env.nextAddr) (hs : e.state = .queued) (hl : e.protocolLevel = c.protocolLevel)
    (hid : FreshId c.outQ e) : Fans L P T O b (onClient a () (enqueueOutPub e) b').2 := by
  obtain ⟨hcl, hsub, ho, hf, hp⟩ := hb
  have hspread : Spread T O b b' := .of_eq hcl hsub ho hf hp
  refine ⟨trans_of (Spread T O) hspread (onClient_spread hT () fun c _ => ⟨⟨rfl, .inl ⟨rfl, rfl⟩⟩, .of_eq rfl rfl⟩), ?_⟩
  have hcb : b.view.conn? a = some c.view := by
    rw [view_conn?, MqttBroker.client?, ← hcl]
    exact congrArg (Option.map BrokerClient.view) hc
  have hstep := QStep.conn (L := L) a c.view hcb (CStep.enqueue e ha hs hl hid)
  have hview : (onClient a () (enqueueOutPub e) b').2.view = b.view.withConn a
      {((b.view.focus c.view).setQueue (c.outQ.enqueue e) c.outQInflight).note [.enqueued e.addr] with
        nextAddr := b.env.nextAddr + 1} := by
    rw [view_onClient hc]
    simp only [QState.withConn, MqttBroker.view, hcl, ho]
    show QState.mk _ _ (b'.env.trace ++ [.enqueued e.addr]) b'.env.nextAddr = _
    rw [ht, hn]
    rfl
  rw [hview]
  exact .step hP.enqueue hstep

theorem enqueueFor_fans (hP : Ordinary P) {a : Nat} (hT : T a) (topic payload : Bytes) (props : List MqttProp) (qos : QoS)
    (retain : Bool) : Moves (Fans L P T O) (enqueueFor a topic payload props qos retain) := by
  intro b
  refine alloc_at (fun env ht hn hp => .env hP ht (Nat.le_of_eq hn.symm) hp) (fun env ht hn hp => ?_)
  have henv : Fans L P T O b {b with env := env} := .env hP ht (by omega) hp
  simp only [run_bind, run_get]
  cases hc : MqttBroker.client? {b with env := env} a with
  | none => exact henv
  | some c =>
    dsimp only
    by_cases hq : qos = .qos0
    · rw [if_pos hq]
      refine enqueueOutPub_fans (e := newOutPub _ _ _ _ _ _ _ _ _ _ _) hP hT ⟨rfl, rfl, rfl, rfl, hp⟩ ht hn hc
        rfl rfl rfl ?_
      simp only [FreshId, newOutPub, hq, if_true]
    · rw [if_neg hq]
      refine nextPacketId_at (fun id next hfree => ?_)
      by_cases hid : id = 0
      · rw [if_pos hid]
        refine trans_of (Fans L P T O) henv ?_
        exact .of_eq (.of_eq rfl rfl rfl rfl (.of_eq rfl rfl)) rfl
      · rw [if_neg hid]
        refine enqueueOutPub_fans (e := newOutPub _ _ _ _ _ _ _ _ _ _ _) hP hT ⟨rfl, rfl, rfl, rfl, hp⟩ ht hn hc
          rfl rfl rfl ?_
        simp only [FreshId, newOutPub, hq, if_false]
        exact ⟨hid, hfree hid⟩

/-! ### Wills -/

theorem writeWill_writes (L : Limits) (topic payload : Bytes) (qos : QoS) :
    Moves Writes (writeWill L topic payload qos) := by
  refine .bind (readClient_writes _) (fun _ => .bind (encodeInto_writes _) (fun _ => .ite (fun _ => ?_) (fun _ => .pure _)))
  exact .bind (writeDirect_writes L _) (fun _ => .ite (fun _ => zeroTxBuf_writes _) (fun _ => .pure _))

theorem quotaDisconnect_serves (L : Limits) {P : Label → Prop} : Moves (Serves L P) (quotaDisconnect L) := by
  intro s
  refine Serves.after_writes (sendDisconnect_writes L _) (fun _ s₁ _ => ⟨⟨rfl, .inr ⟨rfl, rfl⟩⟩, .refl, .of_eq rfl rfl⟩)

theorem fanoutAdd_fans (hP : Ordinary P) (fl : FanoutList) (t : FanoutTarget) : Moves (Fans L P T O) (fanoutAdd fl t) := by
  refine .ite (fun _ => .pure _) (fun _ => .ite (fun _ => ?_) (fun _ => .pure _))
  refine .bind (alloc_fans hP) (fun slot => ?_)
  cases slot with
  | none => exact .pure _
  | some _ => exact .pure _

theorem fanoutAdd_items (fl : FanoutList) (t : FanoutTarget) (b : MqttBroker) :
    ∀ x ∈ (fanoutAdd fl t b).1.items, x ∈ fl.items ∨ x = t := by
  have hadd : ∀ x ∈ fl.items ++ [t], x ∈ fl.items ∨ x = t := by simp
  unfold fanoutAdd
  split
  · exact fun x hx => .inl hx
  · split
    · simp only [run_bind]
      cases (alloc b).1 with
      | none => exact fun x hx => .inl hx
      | some _ => exact hadd
    · exact hadd

theorem willTargets_fans (hP : Ordinary P) (topic : Bytes) (qos : QoS) (subs : List BrokerSub) (fl : FanoutList) :
    Moves (Fans L P T O) (willTargets topic qos subs fl) := by
  induction subs generalizing fl with
  | nil => exact .pure _
  | cons s rest ih =>
    unfold willTargets
    cases s.client with
    | none => exact ih fl
    | some a =>
      refine .get_bind (fun b => ?_)
      cases b.client? a with
      | none => exact ih fl b
      | some c =>
        refine Moves.ite (fun _ => ?_) (fun _ => ih fl) b
        exact .bind (fanoutAdd_fans hP fl _) (fun fl => ih fl)

/-- A will goes to connections that subscriptions point at. -/
theorem willTargets_items (topic : Bytes) (qos : QoS) (subs : List BrokerSub) (fl : FanoutList) (b : MqttBroker) :
    ∀ x ∈ (willTargets topic qos subs fl b).1.items, x ∈ fl.items ∨ ∃ s ∈ subs, s.client = some x.client := by
  induction subs generalizing fl b with
  | nil => exact fun x hx => .inl hx
  | cons s rest ih =>
    have hrest : ∀ fl b, ∀ x ∈ (willTargets topic qos rest fl b).1.items,
        x ∈ fl.items ∨ ∃ s' ∈ s :: rest, s'.client = some x.client := by
      intro fl b x hx
      rcases ih fl b x hx with hx | ⟨s', hs', hx⟩
      · exact .inl hx
      · exact .inr ⟨s', List.mem_cons_of_mem _ hs', hx⟩
    unfold willTargets
    cases hs : s.client with
    | none => exact hrest fl b
    | some a =>
      simp only [run_bind, run_get]
      cases b.client? a with
      | none => exact hrest fl b
      | some c =>
        dsimp only
        split
        · intro x hx
          rcases hrest _ _ x hx with hx | hx
          · rcases fanoutAdd_items fl _ b x hx with hx | rfl
            · exact .inl hx
            · exact .inr ⟨s, List.mem_cons_self, hs⟩
          · exact .inr hx
        · exact hrest fl b

theorem deliverWill_fans (hP : Ordinary P) (topic payload : Bytes) (t : FanoutTarget) (hT : T t.client) :
    Moves (Fans L P T O) (deliverWill L topic payload t) := by
  refine .get_bind (fun b => ?_)
  cases b.client? t.client with
  | none => exact refl b
  | some c =>
    dsimp only
    split
    · split
      · exact Moves.when_at (fun _ => onClient_fans hT () (fun c _ => quotaDisconnect_serves L _))
      · refine Moves.bind_at (enqueueFor_fans hP hT _ _ _ _ _ b) (Moves.when_at fun _ => ?_)
        exact Moves.bind_at (onClient_fans hT 0 (fun c _ => drainOutQueue_serves hP.plain _)) (refl _)
    · exact onClient_fans hT () (fun c _ => (writeWill_writes L topic payload _ _).serves)

theorem deliverWills_fans (hP : Ordinary P) (topic payload : Bytes) (ts : List FanoutTarget)
    (hT : ∀ t ∈ ts, T t.client) : Moves (Fans L P T O) (deliverWills L topic payload ts) := by
  induction ts with
  | nil => exact .pure _
  | cons t rest ih =>
    exact .bind (deliverWill_fans hP topic payload t (hT t List.mem_cons_self))
      (fun _ => ih fun t ht => hT t (List.mem_cons_of_mem _ ht))

theorem retainedReapExpired_fans (now : Nat) : Moves (Fans L P T O) (retainedReapExpired now) :=
  .get_bind fun b => by
    have hops : ∀ (ms : List RetainedMsg) (r : Bytes → Option SessionRecord),
        (ms.map (fun m => PersistOp.delRetained m.topic)).foldl PersistOp.onSessions r = r := by
      intro ms
      induction ms with
      | nil => exact fun _ => rfl
      | cons m rest ih => exact ih
    exact Moves.bind_at (persistOps_fans (hops _) b) (.of_eq (.of_eq rfl rfl rfl rfl (.of_eq rfl rfl)) rfl)

theorem allocAll_fans (hP : Ordinary P) (n : Nat) : Moves (Fans L P T O) (allocAll n) := by
  induction n with
  | zero => exact .pure _
  | succ n ih =>
    refine .bind (alloc_fans hP) (fun slot => ?_)
    cases slot with
    | none => exact .pure _
    | some _ => exact ih

theorem retainedInsert_fans (hP : Ordinary P) (topic payload : Bytes) (qos : QoS) (expirySec : Nat) :
    Moves (Fans L P T O) (retainedInsert L topic payload qos expirySec) := by
  refine .get_bind (fun b => ?_)
  refine Moves.ite (fun _ => .pure _) (fun _ => .bind (allocAll_fans hP _) (fun ok => ?_)) b
  refine .ite (fun _ => .pure _) (fun _ => ?_)
  refine .bind getTime_fans (fun _ => .bind (.modify fun _ => ?_) (fun _ => .bind (persistOps_fans fun _ => rfl) (fun _ => .pure _)))
  exact .of_eq (.of_eq rfl rfl rfl rfl (.of_eq rfl rfl)) rfl

theorem retainedStore_fans (hP : Ordinary P) (topic payload : Bytes) (qos : QoS) (expirySec : Nat) :
    Moves (Fans L P T O) (retainedStore L topic payload qos expirySec) :=
  .bind getTime_fans (fun now => .bind (retainedReapExpired_fans now)
    (fun _ => retainedInsert_fans hP topic payload qos expirySec))

theorem retainedDelete_fans (topic : Bytes) : Moves (Fans L P T O) (retainedDelete topic) := by
  refine .get_bind (fun b => Moves.when_at fun _ => Moves.bind_at ?_ (persistOps_fans (fun _ => rfl) _))
  exact .of_eq (.of_eq rfl rfl rfl rfl (.of_eq rfl rfl)) rfl

theorem retainWill_fans (hP : Ordinary P) (topic payload : Bytes) (qos : QoS) :
    Moves (Fans L P T O) (retainWill L topic payload qos) :=
  .ite (fun _ => retainedDelete_fans topic)
    (fun _ => .bind (retainedStore_fans hP topic payload qos 0) (fun _ => .pure _))

/-- The connections that subscriptions point at. -/
def MqttBroker.Subscribed (b : MqttBroker) (a : Nat) : Prop := ∃ s ∈ b.subs, s.client = some a

theorem publishWillImmediate_fans (hP : Ordinary P) (topic payload : Bytes) (qos : QoS) (retain : Bool) {b : MqttBroker}
    (hT : ∀ a, b.Subscribed a → T a) : Fans L P T O b (publishWillImmediate L topic payload qos retain b).2 := by
  have hretain : Fans L P T O b (whenDo retain (retainWill L topic payload qos) b).2 :=
    Moves.when_at fun _ => retainWill_fans hP topic payload qos b
  refine Moves.bind_at hretain ?_
  generalize (whenDo retain (retainWill L topic payload qos) b).2 = b₁ at hretain ⊢
  refine Moves.get_at (Moves.bind_at (willTargets_fans hP topic qos b₁.subs {} b₁) ?_)
  refine deliverWills_fans hP topic payload _ (fun t ht => ?_) _
  rcases willTargets_items topic qos b₁.subs {} b₁ t ht with ht | ⟨s, hs, hst⟩
  · cases ht
  · exact hT t.client ⟨s, hretain.spread.subs ▸ hs, hst⟩

theorem pendingWillAdd_fans (hP : Ordinary P) (c : BrokerClient) (clientId topic : Bytes) :
    Moves (Fans L P T O) (pendingWillAdd L c clientId topic) := by
  refine .bind getTime_fans (fun now => .get_bind fun b => ?_)
  refine Moves.ite (fun _ => .pure _) (fun _ => .bind (alloc_fans hP) (fun slot => ?_)) b
  cases slot with
  | none => exact .pure _
  | some _ => exact .bind (.modify fun _ => .of_eq (.of_eq rfl rfl rfl rfl (.of_eq rfl rfl)) rfl) (fun _ => .pure _)

theorem delayWill_fans (hP : Ordinary P) (c : BrokerClient) (topic : Bytes) :
    Moves (Fans L P T O) (delayWill L c topic) :=
  .ite (fun _ => pendingWillAdd_fans hP c _ topic) (fun _ => .pure _)

/-- A write to a connection that the delivery system does not see. -/
theorem updateClient_fans {a : Nat} (hT : T a) {f : BrokerClient → BrokerClient} (hs : ∀ c, Served c (f c))
    (hv : ∀ c, (f c).view = c.view) (b : MqttBroker) : Fans L P T O b (b.updateClient a f) := by
  refine ⟨⟨?_, rfl, rfl, fun _ => rfl, rfl, .of_eq rfl rfl⟩, ?_⟩
  · refine Chain.forall₂_writeAt (fun c => ⟨refl c, fun _ => rfl⟩) (fun c hc => ⟨hs c, fun hn => ?_⟩)
    have haddr : c.addr = a := Chain.at?_addr hc
    exact absurd (haddr ▸ hT) hn
  · have hview : (b.updateClient a f).view = b.view := by
      simp only [MqttBroker.view, MqttBroker.updateClient, Chain.map_writeAt BrokerClient.view (fun c _ => hv c)]
    rw [hview]
    exact .refl

theorem clearWill_fans {a : Nat} (hT : T a) (b : MqttBroker) :
    Fans L P T O b (b.updateClient a BrokerClient.clearWill) :=
  updateClient_fans (f := BrokerClient.clearWill) hT (fun _ => ⟨rfl, .inl ⟨rfl, rfl⟩⟩) (fun _ => rfl) b

theorem publishWill_fans (hP : Ordinary P) {a : Nat} {b : MqttBroker} (ha : T a) (hT : ∀ a, b.Subscribed a → T a) :
    Fans L P T O b (publishWill L a b).2 := by
  simp only [publishWill, run_bind, run_get]
  cases b.client? a with
  | none => exact refl b
  | some c =>
    dsimp only
    cases c.willTopic with
    | none => exact refl b
    | some topic =>
      dsimp only
      split
      · exact refl b
      have hdelay := delayWill_fans (L := L) (P := P) (T := T) (O := O) hP c topic b
      refine Moves.bind_at hdelay (Moves.bind_at (Moves.when_at fun _ => ?_) (clearWill_fans ha _))
      refine publishWillImmediate_fans hP topic _ _ _ ?_
      rintro a' ⟨s, hs, hsa⟩
      refine hT a' ⟨s, ?_, hsa⟩
      rw [← hdelay.spread.subs]
      exact hs

theorem pendingWillLoop_fans (hP : Ordinary P) (now : Nat) (ws : List PendingWill) {b : MqttBroker}
    (hT : ∀ a, b.Subscribed a → T a) : Fans L P T O b (pendingWillLoop L now ws b).2 := by
  induction ws generalizing b with
  | nil => exact refl b
  | cons w rest ih =>
    have hone : Fans L P T O b (whenDo (now ≥ w.publishTime) (do
        publishWillImmediate L w.topic w.payload w.qos w.retain
        modify (fun b => {b with pendingWills := b.pendingWills.erase w})) b).2 := by
      refine Moves.when_at fun _ => Moves.bind_at (publishWillImmediate_fans hP _ _ _ _ hT) ?_
      exact .of_eq (.of_eq rfl rfl rfl rfl (.of_eq rfl rfl)) rfl
    refine Moves.bind_at hone (ih fun a ⟨s, hs, hsa⟩ => hT a ⟨s, ?_, hsa⟩)
    rw [← hone.spread.subs]
    exact hs

theorem pendingWillProcess_fans (hP : Ordinary P) {b : MqttBroker} (hT : ∀ a, b.Subscribed a → T a) :
    Fans L P T O b (pendingWillProcess L b).2 := by
  have htime := getTime_fans (L := L) (P := P) (T := T) (O := O) b
  refine Moves.bind_at htime (pendingWillLoop_fans hP _ _ fun a ⟨s, hs, hsa⟩ => hT a ⟨s, ?_, hsa⟩)
  rw [← htime.spread.subs]
  exact hs

/-! ### Queues of the absent -/

theorem view_updateOrphan {a : Nat} {b : MqttBroker} {o : OrphanSession} {f : OrphanSession → OrphanSession}
    (h : b.orphan? a = some o) (hf : (f o).view = {o.view with outQ := (f o).outQ}) :
    (b.updateOrphan a f).view = b.view.setOrphan a (f o).outQ := by
  have hat : Chain.at? (b.orphanSessions.map OrphanSession.view) a = some o.view := by
    rw [Chain.at?_map OrphanSession.view (fun _ => rfl)]
    exact congrArg (Option.map OrphanSession.view) h
  have hmap : (Chain.writeAt a f b.orphanSessions).map OrphanSession.view =
      Chain.writeAt a (fun q => {q with outQ := (f o).outQ}) (b.orphanSessions.map OrphanSession.view) := by
    rw [Chain.writeAt_congr (g := fun _ => f o) h rfl,
      Chain.map_writeAt_comm OrphanSession.view (fun _ => rfl) (fun _ => (f o).view) (fun _ _ => rfl)]
    exact Chain.writeAt_congr hat hf
  simp only [MqttBroker.view, MqttBroker.updateOrphan, QState.setOrphan, hmap]

theorem updateOrphan_spread (a : Nat) (b : MqttBroker) {f : OrphanSession → OrphanSession}
    (hf : ∀ o, (f o).still = o.still) : Spread T True b (b.updateOrphan a f) := by
  refine ⟨List.forall₂_same.mpr fun c _ => ⟨refl c, fun _ => rfl⟩, rfl, ?_, fun h => absurd trivial h, rfl, refl b.env⟩
  exact Chain.map_writeAt OrphanSession.still (fun o _ => hf o)

theorem orphanEvictHead_fans (hP : Ordinary P) {a : Nat} {b : MqttBroker} {o : OrphanSession} (ho : b.orphan? a = some o)
    {head : OutPub} (hhead : head ∈ o.outQ.chain) (clientId : Bytes) :
    Fans L P T True b (orphanEvictHead a clientId head b).2 := by
  have haddr : o.addr = a := Chain.at?_addr ho
  have hview := view_updateOrphan (f := (orphanDropHead · head)) ho rfl
  have horphan : b.view.orphan? o.view.addr = some o.view := by
    show b.view.orphan? o.addr = some o.view
    rw [view_orphan?, haddr, ho]
    rfl
  have hstep : QStep L .plain b.view
      ((b.view.setOrphan o.addr (o.outQ.unlink head.addr)).note [.left head .evicted]) :=
    .evict o.view head horphan hhead
  have hdrop : Fans L P T True b (noteBroker [.left head .evicted] (b.updateOrphan a (orphanDropHead · head))).2 := by
    have hspread := updateOrphan_spread (T := T) (f := (orphanDropHead · head)) a b (fun _ => rfl)
    refine ⟨hspread.note _, ?_⟩
    show QRun L P b.view ((b.updateOrphan a (orphanDropHead · head)).view.note [.left head .evicted])
    rw [hview, ← haddr]
    exact .step hP.plain hstep
  exact trans_of (Fans L P T True) hdrop (Moves.when_at fun _ => persistOps_fans (fun _ => rfl) _)

theorem orphanEvict_fans (hP : Ordinary P) (a fuel : Nat) : Moves (Fans L P T True) (orphanEvict L a fuel) := by
  induction fuel with
  | zero => exact .pure _
  | succ fuel ih =>
    refine .get_bind (fun b => ?_)
    cases ho : b.orphan? a with
    | none => exact refl b
    | some o =>
      dsimp only
      split
      · cases hchain : o.outQ.chain with
        | nil => exact refl b
        | cons head rest =>
          have hhead : head ∈ o.outQ.chain := by rw [hchain]; exact List.mem_cons_self
          exact Moves.bind_at (orphanEvictHead_fans hP ho hhead o.clientId) (ih _)
      · exact refl b

/-- The one step of an enqueue for an absent client, from the state before its allocation. -/
theorem enqueueOffline_fans (hP : Ordinary P) {a : Nat} {b b' : MqttBroker} {o : OrphanSession} {e : OutPub}
    (hb : b'.clients = b.clients ∧ b'.subs = b.subs ∧ b'.orphanSessions = b.orphanSessions ∧
      b'.fixed = b.fixed ∧ b.env.Spends b'.env)
    (ht : b'.env.trace = b.env.trace) (hn : b'.env.nextAddr = b.env.nextAddr + 1) (ho : b'.orphan? a = some o)
    (ha : e.addr = b.env.nextAddr) (hs : e.state = .queued) (hl : e.protocolLevel = o.protocolLevel)
    (hid : FreshId o.outQ e) :
    Fans L P T True b (noteBroker [.enqueued e.addr] (b'.updateOrphan a (fun o => {o with outQ := o.outQ.enqueue e}))).2 := by
  obtain ⟨hcl, hsub, hor, hf, hp⟩ := hb
  have haddr : o.addr = a := Chain.at?_addr ho
  have hob : b.orphan? a = some o := by
    rw [MqttBroker.orphan?, ← hor]
    exact ho
  have hstep : QStep L .enqueue b.view
      {(b.view.setOrphan o.addr (o.outQ.enqueue e)).note [.enqueued e.addr] with nextAddr := b.env.nextAddr + 1} := by
    refine .offline o.view e ?_ ha hs hl hid
    show b.view.orphan? o.addr = some o.view
    rw [view_orphan?, haddr, hob]
    rfl
  have hview := view_updateOrphan (f := fun o => {o with outQ := o.outQ.enqueue e}) ho rfl
  have hspread : Spread T True b (b'.updateOrphan a (fun o => {o with outQ := o.outQ.enqueue e})) := by
    refine trans_of (Spread T True) (.of_eq hcl hsub hor hf hp : Spread T True b b') ?_
    exact updateOrphan_spread a b' fun _ => rfl
  refine ⟨hspread.note _, ?_⟩
  show QRun L P b.view ((b'.updateOrphan a (fun o => {o with outQ := o.outQ.enqueue e})).view.note [.enqueued e.addr])
  rw [hview]
  simp only [QState.setOrphan, QState.note, MqttBroker.view, hcl, hor, ht, hn, ← haddr]
  exact .step hP.enqueue hstep

theorem orphanEnqueue_fans (hP : Ordinary P) (a : Nat) (topic payload : Bytes) (qos : QoS) (retain : Bool)
    (props : List MqttProp) : Moves (Fans L P T True) (orphanEnqueue L a topic payload qos retain props) := by
  refine .get_bind (fun b => ?_)
  cases b.orphan? a with
  | none => exact refl b
  | some before =>
    dsimp only
    split
    · exact refl b
    rename_i hq
    refine Moves.bind_at (orphanEvict_fans hP a _ b) ?_
    generalize (orphanEvict L a before.outQ.chain.length b).2 = b₁
    refine alloc_at (fun env ht hn hp => .env hP ht (Nat.le_of_eq hn.symm) hp) (fun env ht hn hp => ?_)
    have henv : Fans L P T True b₁ {b₁ with env := env} := .env hP ht (by omega) hp
    refine Moves.get_at ?_
    cases ho : MqttBroker.orphan? {b₁ with env := env} a with
    | none => exact henv
    | some o =>
      refine nextPacketId_at (fun id next hfree => ?_)
      have hid : Fans L P T True b₁ {b₁ with env := env, nextPacketId := next} := by
        refine trans_of (Fans L P T True) henv ?_
        exact .of_eq (.of_eq rfl rfl rfl rfl (.of_eq rfl rfl)) rfl
      split
      · exact hid
      rename_i hne
      have htime := getTime_env env
      show Fans L P T True b₁ ((if tailSeq o.outQ = maxEnqueueSeq then _ else _ : BrokerM Unit)
        {b₁ with env := env.getTime.2, nextPacketId := next}).2
      split
      · exact trans_of (Fans L P T True) hid (getTime_fans {b₁ with env := env, nextPacketId := next})
      · have hfresh : FreshId o.outQ (newOutPub b₁.env.nextAddr topic payload props qos id retain o.protocolLevel
            env.getTime.1 (tailSeq o.outQ + 1) 0) := by
          simp only [FreshId, newOutPub, hq, if_false]
          exact ⟨hne, hfree hne⟩
        let b₂ : MqttBroker := {b₁ with env := env.getTime.2, nextPacketId := next}
        have hsame : b₂.clients = b₁.clients ∧ b₂.subs = b₁.subs ∧ b₂.orphanSessions = b₁.orphanSessions ∧
          b₂.fixed = b₁.fixed ∧ b₁.env.Spends b₂.env :=
          ⟨rfl, rfl, rfl, rfl, trans_of Env.Spends hp (.getTime env)⟩
        have hqueued := enqueueOffline_fans (L := L) (P := P) (T := T) (b := b₁) hP hsame
          (htime.1.trans ht) (htime.2.trans hn) ho rfl rfl rfl hfresh
        exact trans_of (Fans L P T True) hqueued (persistOps_fans (fun _ => rfl) _)

/-! ### Publishing -/

theorem publishTargets_fans (hP : Ordinary P) (p : InPublish) (subs : List BrokerSub) (fl : FanoutList) :
    Moves (Fans L P T True) (publishTargets L p subs fl) := by
  induction subs generalizing fl with
  | nil => exact .pure _
  | cons s rest ih =>
    unfold publishTargets
    refine .ite (fun _ => ih fl) (fun _ => ?_)
    cases s.client with
    | some a =>
      refine .get_bind (fun b => ?_)
      cases b.client? a with
      | none => exact ih fl b
      | some c =>
        refine Moves.ite (fun _ => ?_) (fun _ => ih fl) b
        exact .bind (fanoutAdd_fans hP fl _) (fun fl => ih fl)
    | none =>
      refine .get_bind (fun b => ?_)
      cases s.clientId.bind (orphanFind b) with
      | none => exact ih fl b
      | some o => exact Moves.bind_at (Moves.when_at fun _ => orphanEnqueue_fans hP _ _ _ _ _ _ b) (ih fl _)

/-- A PUBLISH goes to connections that subscriptions point at. -/
theorem publishTargets_items (p : InPublish) (subs : List BrokerSub) (fl : FanoutList) (b : MqttBroker) :
    ∀ x ∈ (publishTargets L p subs fl b).1.items, x ∈ fl.items ∨ ∃ s ∈ subs, s.client = some x.client := by
  induction subs generalizing fl b with
  | nil => exact fun x hx => .inl hx
  | cons s rest ih =>
    have hrest : ∀ fl b, ∀ x ∈ (publishTargets L p rest fl b).1.items,
        x ∈ fl.items ∨ ∃ s' ∈ s :: rest, s'.client = some x.client := by
      intro fl b x hx
      rcases ih fl b x hx with hx | ⟨s', hs', hx⟩
      · exact .inl hx
      · exact .inr ⟨s', List.mem_cons_of_mem _ hs', hx⟩
    unfold publishTargets
    split
    · exact hrest fl b
    cases hs : s.client with
    | some a =>
      simp only [run_bind, run_get]
      cases b.client? a with
      | none => exact hrest fl b
      | some c =>
        dsimp only
        split
        · intro x hx
          rcases hrest _ _ x hx with hx | hx
          · rcases fanoutAdd_items fl _ b x hx with hx | rfl
            · exact .inl hx
            · exact .inr ⟨s, List.mem_cons_self, hs⟩
          · exact .inr hx
        · exact hrest fl b
    | none =>
      simp only [run_bind, run_get]
      cases s.clientId.bind (orphanFind b) with
      | none => exact hrest fl b
      | some o => exact hrest fl _

theorem deliverPublish_fans (hP : Ordinary P) (from_ : Nat) (p : InPublish) (t : FanoutTarget) (hT : T t.client) :
    Moves (Fans L P T O) (deliverPublish L from_ p t) := by
  refine .get_bind (fun b => ?_)
  cases b.client? t.client with
  | none => exact refl b
  | some c =>
    dsimp only
    split
    · exact refl b
    split
    · exact onClient_fans hT () (fun c _ => quotaDisconnect_serves L _)
    · refine Moves.bind_at (enqueueFor_fans hP hT _ _ _ _ _ b) (Moves.when_at fun _ => ?_)
      exact Moves.bind_at (onClient_fans hT 0 (fun c _ => drainOutQueue_serves hP.plain _)) (refl _)

theorem deliverPublishes_fans (hP : Ordinary P) (from_ : Nat) (p : InPublish) (ts : List FanoutTarget)
    (hT : ∀ t ∈ ts, T t.client) : Moves (Fans L P T O) (deliverPublishes L from_ p ts) := by
  induction ts with
  | nil => exact .pure _
  | cons t rest ih =>
    exact .bind (deliverPublish_fans hP from_ p t (hT t List.mem_cons_self))
      (fun _ => ih fun t ht => hT t (List.mem_cons_of_mem _ ht))

theorem fanOut_fans (hP : Ordinary P) (from_ : Nat) (p : InPublish) {b : MqttBroker}
    (hT : ∀ a, b.Subscribed a → T a) : Fans L P T True b (fanOut L from_ p b).2 := by
  refine Moves.get_at (Moves.bind_at (publishTargets_fans hP p b.subs {} b) ?_)
  refine deliverPublishes_fans hP from_ p _ (fun t ht => ?_) _
  rcases publishTargets_items p b.subs {} b t ht with ht | ⟨s, hs, hst⟩
  · cases ht
  · exact hT t.client ⟨s, hs, hst⟩

theorem retainPublish_fans (hP : Ordinary P) (p : InPublish) : Moves (Fans L P T O) (retainPublish L p) :=
  .ite (fun _ => retainedDelete_fans _)
    (fun _ => .bind (retainedStore_fans hP _ _ _ _) (fun _ => .pure _))

/-! ### Retained messages for a new subscription -/

theorem retainedDeliverOne_fans (hP : Ordinary P) {a : Nat} (hT : T a) (m : RetainedMsg) (subQos : QoS) :
    Moves (Fans L P T O) (retainedDeliverOne L a m subQos) := by
  refine .get_bind (fun b => ?_)
  cases b.client? a with
  | none => exact refl b
  | some c =>
    dsimp only
    split
    · exact Moves.bind_at (onClient_fans hT () (fun c _ => quotaDisconnect_serves L _)) (refl _)
    · exact enqueueFor_fans hP hT _ _ _ _ _ b

theorem retainedDeliverLoop_fans (hP : Ordinary P) {a : Nat} (hT : T a) (filter : Bytes) (subQos : QoS) (now : Nat)
    (ms : List RetainedMsg) : Moves (Fans L P T O) (retainedDeliverLoop L a filter subQos now ms) := by
  induction ms with
  | nil => exact .pure _
  | cons m rest ih =>
    refine .ite (fun _ => .bind (persistOps_fans fun _ => rfl) fun _ => .bind (.modify fun _ => ?_) fun _ => ih) (fun _ => ?_)
    · exact .of_eq (.of_eq rfl rfl rfl rfl (.of_eq rfl rfl)) rfl
    refine .ite (fun _ => .bind (retainedDeliverOne_fans hP hT m subQos) fun _ => ?_) (fun _ => ih)
    exact .ite (fun _ => .pure _) (fun _ => ih)

theorem retainedDeliverToClient_fans (hP : Ordinary P) {a : Nat} (hT : T a) (filter : Bytes) (subQos : QoS) :
    Moves (Fans L P T O) (retainedDeliverToClient L a filter subQos) :=
  .bind getTime_fans fun _ => .get_bind fun b => retainedDeliverLoop_fans hP hT filter subQos _ _ b

theorem subscribeRetained_fans (hP : Ordinary P) {a : Nat} (hT : T a) (t : SubTopic) :
    Moves (Fans L P T O) (subscribeRetained L a t) := by
  refine .ite (fun _ => .bind (alloc_fans hP) fun slot => ?_) (fun _ => retainedDeliverToClient_fans hP hT _ _)
  cases slot with
  | none => exact .pure _
  | some _ => exact retainedDeliverToClient_fans hP hT _ _

end fans

end WolfMqtt.Broker
