import WolfMqtt.Broker.TableReach

/-! Sessions and delayed Wills while the clock stands still.

At one reading of the clock the pool of orphans gets no session but one that begins its
wait at that reading, and the list of delayed Wills no Will that is already due
(`Ages`). An orphan may go at any time. What may happen to the delayed Wills is a
preorder `W`: for most of the broker it can be equality. -/
namespace WolfMqtt.Broker

/-! ### The clock -/

/-- The clock stands at `n`. -/
structure Env.At (n : Nat) (env : Env) : Prop where
  clock : env.clock = []
  now : env.now = n

section clock
variable {n : Nat} {env env' : Env}

theorem Env.At.spends (h : env.At n) (hs : env.Spends env') : env'.At n := by
  have hclock := hs.clock
  rw [h.clock] at hclock
  exact ⟨List.suffix_nil.mp hclock, hs.now.trans h.now⟩

theorem Env.At.getTime (h : env.At n) : env.getTime = (n, env) := by
  unfold Env.getTime
  rw [h.clock]
  exact congrArg (·, env) h.now

theorem getTime_at {b : MqttBroker} (h : b.env.At n) : getTime b = (n, b) := by
  show (b.env.getTime.1, {b with env := b.env.getTime.2}) = (n, b)
  rw [h.getTime]

/-- What follows a look at the clock. -/
theorem getTime_bind_at {β : Type} {R : MqttBroker → MqttBroker → Prop} {f : Nat → BrokerM β} {b₀ b : MqttBroker}
    (h : b.env.At n) (hf : R b₀ (f n b).2) : R b₀ ((getTime >>= f) b).2 := by
  rw [run_bind, getTime_at h]
  exact hf

end clock

/-! ### Ages -/

/-- What the expiry of an orphan is reckoned from. -/
structure Term where
  clientId : Bytes
  since : Nat
  expirySec : Nat
deriving DecidableEq

def OrphanSession.term (o : OrphanSession) : Term := ⟨o.clientId, o.orphanSince, o.sessionExpirySec⟩

def MqttBroker.terms (b : MqttBroker) : List Term := b.orphanSessions.map OrphanSession.term

section ages
variable (n : Nat) (W : List PendingWill → List PendingWill → Prop)

/-- What happens to orphans and delayed Wills at one reading of the clock. -/
structure Ages (b b' : MqttBroker) : Prop where
  standing : b'.env.At n
  orphans : ∀ t ∈ b'.terms, t ∈ b.terms ∨ t.since = n ∧ t.expirySec ≠ 0
  wills : W b.pendingWills b'.pendingWills
  checked : b'.orphanLastExpireCheck = b.orphanLastExpireCheck

/-- What happens if the clock stands at `n`. -/
def Aging (b b' : MqttBroker) : Prop := b.env.At n → Ages n W b b'

variable [IsPreorder (List PendingWill) W]

instance : IsPreorder MqttBroker (Aging n W) where
  refl b h := ⟨h, fun _ ht => .inl ht, refl b.pendingWills, rfl⟩
  trans b b' b'' h h' hat := by
    have h₁ := h hat
    have h₂ := h' h₁.standing
    refine ⟨h₂.standing, fun t ht => ?_, trans_of W h₁.wills h₂.wills, h₂.checked.trans h₁.checked⟩
    rcases h₂.orphans t ht with ht | ht
    · exact h₁.orphans t ht
    · exact .inr ht

end ages

/-- A Will whose delay begins at `n`. -/
def PendingWill.Delayed (L : Limits) (n : Nat) (w : PendingWill) : Prop :=
  ∃ delaySec expirySec, w.publishTime = willPublishTime L n delaySec expirySec

/-- The Wills that are added have a delay that begins at `n`, and only those in `K` go. -/
structure Turnover (L : Limits) (n : Nat) (K : PendingWill → Prop) (ws ws' : List PendingWill) : Prop where
  added : ∀ w ∈ ws', w ∈ ws ∨ w.Delayed L n
  kept : ∀ w ∈ ws, w ∈ ws' ∨ K w

instance (L : Limits) (n : Nat) (K : PendingWill → Prop) : IsPreorder (List PendingWill) (Turnover L n K) where
  refl _ := ⟨fun _ hw => .inl hw, fun _ hw => .inl hw⟩
  trans ws ws' ws'' h h' := by
    refine ⟨fun w hw => ?_, fun w hw => ?_⟩
    · rcases h'.added w hw with hw | hw
      · exact h.added w hw
      · exact .inr hw
    · rcases h.kept w hw with hw | hw
      · exact h'.kept w hw
      · exact .inr hw

section aging
variable {n : Nat} {W : List PendingWill → List PendingWill → Prop} [IsPreorder (List PendingWill) W] {L : Limits} {a : Nat}
  {b b' : MqttBroker}

/-- Delayed Wills are left alone, and no orphan is new. -/
theorem Aging.of_subset (hs : b.env.Spends b'.env) (ho : ∀ t ∈ b'.terms, t ∈ b.terms)
    (hw : b'.pendingWills = b.pendingWills) (hc : b'.orphanLastExpireCheck = b.orphanLastExpireCheck) : Aging n W b b' :=
  fun hat => ⟨hat.spends hs, fun t ht => .inl (ho t ht), hw ▸ refl b'.pendingWills, hc⟩

/-- A write to anything else. -/
theorem Aging.of_eq (hs : b.env.Spends b'.env) (ho : b'.orphanSessions = b.orphanSessions)
    (hw : b'.pendingWills = b.pendingWills) (hc : b'.orphanLastExpireCheck = b.orphanLastExpireCheck) : Aging n W b b' := by
  refine .of_subset hs (fun t ht => ?_) hw hc
  rw [MqttBroker.terms, ho] at ht
  exact ht

omit [IsPreorder (List PendingWill) W] in
/-- What follows a look at the clock knows what it says. -/
theorem getTime_ages {β : Type} {f : Nat → BrokerM β} (hf : Aging n W b (f n b).2) : Aging n W b ((getTime >>= f) b).2 :=
  fun hat => getTime_bind_at (R := Ages n W) hat (hf hat)

theorem alloc_ages : Moves (Aging n W) alloc := fun b => .of_eq (.alloc b.env) rfl rfl rfl

theorem modify_ages {f : MqttBroker → MqttBroker} (h : ∀ b, (f b).env = b.env ∧ (f b).orphanSessions = b.orphanSessions ∧
    (f b).pendingWills = b.pendingWills ∧ (f b).orphanLastExpireCheck = b.orphanLastExpireCheck) :
    Moves (Aging n W) (modify f : BrokerM Unit) := by
  intro b
  obtain ⟨henv, ho, hw, hc⟩ := h b
  refine .of_eq ?_ ho hw hc
  show b.env.Spends (f b).env
  rw [henv]
  exact refl b.env

theorem updateClient_ages (a : Nat) (f : BrokerClient → BrokerClient) :
    Moves (Aging n W) (modify (·.updateClient a f) : BrokerM Unit) :=
  modify_ages fun _ => ⟨rfl, rfl, rfl, rfl⟩

/-- The clock of an environment is not what the hooks are called with. -/
theorem persistOps_ages (ops : List PersistOp) : Moves (Aging n W) (persistOps ops) := fun _ hat =>
  ⟨⟨hat.clock, hat.now⟩, fun _ ht => .inl ht, refl _, rfl⟩

theorem noteBroker_ages (obs : List Obs) : Moves (Aging n W) (noteBroker obs) := fun _ hat =>
  ⟨⟨hat.clock, hat.now⟩, fun _ ht => .inl ht, refl _, rfl⟩

/-- A function of one connection. -/
theorem onClient_ages {α : Type} (default : α) {m : ClientM α} (hm : ∀ s : Conn, s.env.Spends (m s).2.env) :
    Moves (Aging n W) (onClient a default m) := by
  intro b
  cases hc : b.client? a with
  | none =>
    rw [onClient_none hc]
    exact refl b
  | some c =>
    rw [onClient_some hc]
    exact .of_eq (hm ⟨c, b.env⟩) rfl rfl rfl

theorem onClient_writes_ages {α : Type} (default : α) {m : ClientM α} (hm : Moves Writes m) :
    Moves (Aging n W) (onClient a default m) :=
  onClient_ages default fun s => Serves.spends (L := {}) (P := fun _ => True) (hm s).serves

theorem drainOutQueue_ages : Moves (Aging n W) (onClient a 0 (drainOutQueue L)) :=
  onClient_ages 0 fun s => (drainOutQueue_serves (P := fun _ => True) trivial s).spends

theorem quotaDisconnect_ages : Moves (Aging n W) (onClient a () (quotaDisconnect L)) :=
  onClient_ages () fun s => (quotaDisconnect_serves L (P := fun _ => True) s).spends

/-! ### Queues -/

theorem nextPacketIdForQueue_ages (outQ : List OutPub) : Moves (Aging n W) (nextPacketIdForQueue outQ) := by
  intro b
  unfold nextPacketIdForQueue
  dsimp only
  split
  · exact refl b
  · exact .of_eq (refl b.env) rfl rfl rfl

theorem enqueueFor_ages (topic payload : Bytes) (props : List MqttProp) (qos : QoS) (retain : Bool) :
    Moves (Aging n W) (enqueueFor a topic payload props qos retain) := by
  refine .bind alloc_ages fun slot => ?_
  cases slot with
  | none => exact .pure _
  | some slot =>
    refine .get_bind fun b => ?_
    cases b.client? a with
    | none => exact refl b
    | some c =>
      refine Moves.ite (fun _ => ?_) (fun _ => ?_) b
      · exact .bind (onClient_ages () fun s => .of_eq rfl rfl) fun _ => .pure _
      · refine .bind (nextPacketIdForQueue_ages _) fun id => .ite (fun _ => .pure _) fun _ => ?_
        exact .bind (onClient_ages () fun s => .of_eq rfl rfl) fun _ => .pure _

theorem fanoutAdd_ages (fl : FanoutList) (t : FanoutTarget) : Moves (Aging n W) (fanoutAdd fl t) := by
  refine .ite (fun _ => .pure _) (fun _ => .ite (fun _ => ?_) (fun _ => .pure _))
  refine .bind alloc_ages fun slot => ?_
  cases slot with
  | none => exact .pure _
  | some _ => exact .pure _

/-! ### Retained messages -/

theorem allocAll_ages (k : Nat) : Moves (Aging n W) (allocAll k) := by
  induction k with
  | zero => exact .pure _
  | succ k ih =>
    refine .bind alloc_ages fun slot => ?_
    cases slot with
    | none => exact .pure _
    | some _ => exact ih

theorem retainedReapExpired_ages (now : Nat) : Moves (Aging n W) (retainedReapExpired now) :=
  .get_bind fun b => Moves.bind_at (persistOps_ages _ b) (.of_eq (.of_eq rfl rfl) rfl rfl rfl)

theorem retainedInsert_ages (topic payload : Bytes) (qos : QoS) (expirySec : Nat) :
    Moves (Aging n W) (retainedInsert L topic payload qos expirySec) := by
  refine .get_bind fun b => Moves.ite (fun _ => .pure _) (fun _ => .bind (allocAll_ages _) fun ok => ?_) b
  refine .ite (fun _ => .pure _) fun _ => fun b => getTime_ages ?_
  exact Moves.bind_at (.of_eq (.of_eq rfl rfl) rfl rfl rfl) (Moves.bind_at (persistOps_ages _ _) (refl _))

theorem retainedStore_ages (topic payload : Bytes) (qos : QoS) (expirySec : Nat) :
    Moves (Aging n W) (retainedStore L topic payload qos expirySec) := fun b =>
  getTime_ages (Moves.bind (retainedReapExpired_ages n) (fun _ => retainedInsert_ages topic payload qos expirySec) b)

theorem retainedDelete_ages (topic : Bytes) : Moves (Aging n W) (retainedDelete topic) :=
  .get_bind fun _ => Moves.when_at fun _ =>
    Moves.bind_at (.of_eq (.of_eq rfl rfl) rfl rfl rfl) (persistOps_ages _ _)

theorem retainedDeliverOne_ages (m : RetainedMsg) (subQos : QoS) : Moves (Aging n W) (retainedDeliverOne L a m subQos) := by
  refine .get_bind fun b => ?_
  cases b.client? a with
  | none => exact refl b
  | some c =>
    refine Moves.ite (fun _ => ?_) (fun _ => enqueueFor_ages _ _ _ _ _) b
    exact .bind quotaDisconnect_ages fun _ => .pure _

theorem retainedDeliverLoop_ages (filter : Bytes) (subQos : QoS) (now : Nat) (ms : List RetainedMsg) :
    Moves (Aging n W) (retainedDeliverLoop L a filter subQos now ms) := by
  induction ms with
  | nil => exact .pure _
  | cons m rest ih =>
    refine .ite (fun _ => ?_) fun _ => .ite (fun _ => ?_) fun _ => ih
    · exact .bind (persistOps_ages _) fun _ => .bind (modify_ages fun _ => ⟨rfl, rfl, rfl, rfl⟩) fun _ => ih
    · exact .bind (retainedDeliverOne_ages m subQos) fun rc => .ite (fun _ => .pure _) fun _ => ih

theorem retainedDeliverToClient_ages (filter : Bytes) (subQos : QoS) :
    Moves (Aging n W) (retainedDeliverToClient L a filter subQos) := fun b =>
  getTime_ages (Moves.get_at (retainedDeliverLoop_ages filter subQos n b.retained b))

/-! ### Wills -/

theorem willTargets_ages (topic : Bytes) (qos : QoS) (subs : List BrokerSub) (fl : FanoutList) :
    Moves (Aging n W) (willTargets topic qos subs fl) := by
  induction subs generalizing fl with
  | nil => exact .pure _
  | cons s rest ih =>
    unfold willTargets
    cases s.client with
    | none => exact ih fl
    | some a =>
      refine .get_bind fun b => ?_
      cases b.client? a with
      | none => exact ih fl b
      | some c =>
        refine Moves.ite (fun _ => ?_) (fun _ => ih fl) b
        exact .bind (fanoutAdd_ages fl _) fun fl => ih fl

theorem deliverWill_ages (topic payload : Bytes) (t : FanoutTarget) :
    Moves (Aging n W) (deliverWill L topic payload t) := by
  refine .get_bind fun b => ?_
  cases b.client? t.client with
  | none => exact refl b
  | some c =>
    dsimp only
    split
    · split
      · exact Moves.when_at fun _ => quotaDisconnect_ages b
      · refine Moves.bind_at (enqueueFor_ages _ _ _ _ _ b) (Moves.when_at fun _ => ?_)
        exact Moves.bind_at (drainOutQueue_ages _) (refl _)
    · exact onClient_writes_ages () (writeWill_writes L topic payload _) b

theorem deliverWills_ages (topic payload : Bytes) (ts : List FanoutTarget) :
    Moves (Aging n W) (deliverWills L topic payload ts) := by
  induction ts with
  | nil => exact .pure _
  | cons t rest ih => exact .bind (deliverWill_ages topic payload t) fun _ => ih

theorem retainWill_ages (topic payload : Bytes) (qos : QoS) : Moves (Aging n W) (retainWill L topic payload qos) :=
  .ite (fun _ => retainedDelete_ages topic) fun _ => .bind (retainedStore_ages topic payload qos 0) fun _ => .pure _

theorem publishWillImmediate_ages (topic payload : Bytes) (qos : QoS) (retain : Bool) :
    Moves (Aging n W) (publishWillImmediate L topic payload qos retain) := fun b =>
  Moves.bind_at (Moves.when_at fun _ => retainWill_ages topic payload qos b)
    (Moves.get_at (Moves.bind_at (willTargets_ages _ _ _ _ _) (deliverWills_ages _ _ _ _)))

/-- A Will with a delay joins the list. -/
theorem pendingWillAdd_ages (hW : ∀ w ws, w.Delayed L n → W ws (w :: ws)) (c : BrokerClient) (clientId topic : Bytes) :
    Moves (Aging n W) (pendingWillAdd L c clientId topic) := by
  refine fun b => getTime_ages ?_
  refine Moves.get_at (Moves.ite (fun _ => .pure _) (fun _ => .bind alloc_ages fun slot => ?_) b)
  cases slot with
  | none => exact .pure _
  | some _ =>
    exact .bind (.modify fun b hat => ⟨hat, fun _ h => .inl h, hW _ _ ⟨_, _, rfl⟩, rfl⟩) fun _ => .pure _

theorem delayWill_ages (hW : ∀ w ws, w.Delayed L n → W ws (w :: ws)) (c : BrokerClient) (topic : Bytes) :
    Moves (Aging n W) (delayWill L c topic) :=
  .ite (fun _ => pendingWillAdd_ages hW c _ topic) fun _ => .pure _

theorem publishWill_ages (hW : ∀ w ws, w.Delayed L n → W ws (w :: ws)) :
    Moves (Aging n W) (publishWill L a) := by
  refine .get_bind fun b => ?_
  cases b.client? a with
  | none => exact refl b
  | some c =>
    dsimp only
    cases c.willTopic with
    | none => exact refl b
    | some topic =>
      refine Moves.ite (fun _ => .pure _) (fun _ => .bind (delayWill_ages hW c topic) fun rc => ?_) b
      exact .bind (fun _ => Moves.when_at fun _ => publishWillImmediate_ages _ _ _ _ _) fun _ => updateClient_ages a _

omit [IsPreorder (List PendingWill) W] in
/-- A CONNECT takes a Will off the list. -/
theorem pendingWillCancel_ages {clientId : Bytes} (hW : ∀ ws, W ws (ws.eraseP (fun w => w.clientId = clientId))) :
    Moves (Aging n W) (pendingWillCancel clientId) := fun _ hat => ⟨hat, fun _ h => .inl h, hW _, rfl⟩

/-! ### Orphans -/

theorem terms_removeAt (x : Nat) (os : List OrphanSession) :
    ∀ t ∈ (Chain.removeAt x os).map OrphanSession.term, t ∈ os.map OrphanSession.term := by
  intro t ht
  obtain ⟨o, ho, rfl⟩ := List.mem_map.mp ht
  exact List.mem_map_of_mem (Chain.mem_of_mem_removeAt ho)

/-- What is written to an orphan is its queue. -/
theorem terms_updateOrphan (x : Nat) {f : OrphanSession → OrphanSession} (hf : ∀ o, (f o).term = o.term) (b : MqttBroker) :
    (b.updateOrphan x f).terms = b.terms := Chain.map_writeAt OrphanSession.term (fun o _ => hf o)

theorem updateOrphan_ages (x : Nat) {f : OrphanSession → OrphanSession} (hf : ∀ o, (f o).term = o.term) :
    Moves (Aging n W) (modify (·.updateOrphan x f) : BrokerM Unit) := fun b => by
  refine .of_subset (refl b.env) (fun t ht => ?_) rfl rfl
  rw [← terms_updateOrphan x hf b]
  exact ht

theorem orphanRemove_ages (o : OrphanSession) : Moves (Aging n W) (orphanRemove o) :=
  .bind (noteBroker_ages _) fun _ b => .of_subset (refl b.env) (terms_removeAt o.addr _) rfl rfl

theorem orphanDropFull_ages (o : OrphanSession) : Moves (Aging n W) (orphanDropFull o) :=
  .bind (persistOps_ages _) fun _ => .bind (modify_ages fun _ => ⟨rfl, rfl, rfl, rfl⟩) fun _ => orphanRemove_ages o

theorem evictOldest_ages (fuel : Nat) : Moves (Aging n W) (evictOldest L fuel) := by
  induction fuel with
  | zero => exact .pure _
  | succ fuel ih =>
    refine .get_bind fun b => Moves.ite (fun _ => ?_) (fun _ => .pure _) b
    cases oldestOrphan b.orphanSessions with
    | none => exact .pure _
    | some o => exact .bind (orphanDropFull_ages o) fun _ => ih

theorem expireLoop_ages (now fuel : Nat) : Moves (Aging n W) (expireLoop now fuel) := by
  induction fuel with
  | zero => exact .pure _
  | succ fuel ih =>
    refine .get_bind fun b => ?_
    cases b.orphanSessions.find? (orphanExpired now) with
    | none => exact refl b
    | some o => exact Moves.bind (orphanDropFull_ages o) (fun _ => ih) b

theorem orphanReplace_ages (clientId : Bytes) : Moves (Aging n W) (orphanReplace clientId) := by
  refine .get_bind fun b => ?_
  cases orphanFind b clientId with
  | none => exact refl b
  | some o => exact Moves.bind (orphanRemove_ages o) (fun _ => persistOps_ages _) b

/-! ### A session that outlives its connection -/

theorem readySlot_ages (clientId : Bytes) (b : MqttBroker) : Aging n W b (readySlot L clientId b) :=
  trans_of (Aging n W) (orphanReplace_ages clientId b) (evictOldest_ages _ _)

theorem readySlot_clients (clientId : Bytes) (b : MqttBroker) : (readySlot L clientId b).clients = b.clients := by
  have hreplace : (orphanReplace clientId b).2.clients = b.clients := by
    simp only [orphanReplace, run_bind, run_get]
    cases orphanFind b clientId <;> rfl
  exact (evictOldest_prunes (L := L) (R := orderly) _ _).clients.trans hreplace

theorem orphanLink_ages {o : OrphanSession} (hsince : o.orphanSince = n) (hexpiry : o.sessionExpirySec ≠ 0) :
    Moves (Aging n W) (orphanLink o) := by
  refine .bind (.modify fun b hat => ⟨hat, fun t ht => ?_, refl _, rfl⟩) fun _ =>
    persistOps_ages _
  rcases List.mem_cons.mp ht with rfl | ht
  · exact .inr ⟨hsince, hexpiry⟩
  · exact .inl ht

/-- The session that becomes an orphan begins its wait now, and has a time to wait. -/
theorem orphanTake_ages (hexpiry : ∀ c, b.client? a = some c → c.sessionExpirySec ≠ 0) :
    Aging n W b (orphanTake L a b).2 := by
  cases hid : (b.client? a).bind (·.clientId) with
  | none =>
    simp only [orphanTake, run_bind, run_get, hid]
    exact refl b
  | some clientId =>
    obtain ⟨c, hc, -⟩ := Option.bind_eq_some_iff.mp hid
    have hc' : (readySlot L clientId b).client? a = some c := by
      rw [MqttBroker.client?, readySlot_clients]
      exact hc
    rw [orphanTake_some hc' hid]
    have hspends := Env.Spends.alloc (readySlot L clientId b).env
    have hready : Aging n W b (readySlot L clientId b) := readySlot_ages clientId b
    generalize readySlot L clientId b = b₁ at hspends hready ⊢
    generalize b₁.env.alloc = r at hspends ⊢
    obtain ⟨slot, env⟩ := r
    cases slot with
    | none =>
      have hfailed : Aging n W b₁ {b₁ with env := env} := .of_eq hspends rfl rfl rfl
      exact trans_of (Aging n W) hready hfailed
    | some slot =>
      refine trans_of (Aging n W) hready fun hat => ?_
      have henv := hat.spends hspends
      dsimp only
      rw [henv.getTime]
      obtain ⟨q, pos, hcut⟩ := cutQos0_eq c
      have hnew : (newOrphan slot clientId n (cutQos0 c).1).sessionExpirySec ≠ 0 := by
        rw [hcut]
        exact hexpiry c hc
      have hnote : (env.note (cutQos0 c).2).At n := ⟨henv.clock, henv.now⟩
      have hlink := orphanLink_ages (W := W) (o := newOrphan slot clientId n (cutQos0 c).1) rfl hnew {b₁ with
        clients := Chain.writeAt a (fun _ => (cutQos0 c).1.handOver) b₁.clients
        env := env.note (cutQos0 c).2} hnote
      exact ⟨hlink.standing, hlink.orphans, hlink.wills, hlink.checked⟩

theorem orphanReclaim_ages : Moves (Aging n W) (orphanReclaim a) := by
  refine .get_bind fun b => ?_
  cases (b.client? a).bind (·.clientId) with
  | none => exact refl b
  | some clientId =>
    refine Moves.get_at ?_
    cases orphanFind b clientId with
    | none => exact refl b
    | some o => exact Moves.bind (updateClient_ages a _) (fun _ => .bind (orphanRemove_ages _) fun _ => .pure _) b

/-! ### Queueing for an orphan -/

theorem orphanEvictHead_ages (x : Nat) (clientId : Bytes) (head : OutPub) :
    Moves (Aging n W) (orphanEvictHead x clientId head) :=
  .bind (updateOrphan_ages x fun _ => rfl) fun _ => .bind (noteBroker_ages _) fun _ _ =>
    Moves.when_at fun _ => persistOps_ages _ _

theorem orphanEvict_ages (x fuel : Nat) : Moves (Aging n W) (orphanEvict L x fuel) := by
  induction fuel with
  | zero => exact .pure _
  | succ fuel ih =>
    refine .get_bind fun b => ?_
    cases b.orphan? x with
    | none => exact refl b
    | some o =>
      refine Moves.ite (fun _ => ?_) (fun _ => .pure _) b
      cases o.outQ.chain with
      | nil => exact .pure _
      | cons head _ => exact .bind (orphanEvictHead_ages x _ _) fun _ => ih

theorem orphanEnqueue_ages (x : Nat) (topic payload : Bytes) (qos : QoS) (retain : Bool) (props : List MqttProp) :
    Moves (Aging n W) (orphanEnqueue L x topic payload qos retain props) := by
  refine .get_bind fun b => ?_
  cases b.orphan? x with
  | none => exact refl b
  | some before =>
    refine Moves.ite (fun _ => .pure _) (fun _ => .bind (orphanEvict_ages x _) fun _ => .bind alloc_ages fun slot => ?_) b
    refine .get_bind fun b₁ => ?_
    cases slot with
    | none => exact refl b₁
    | some slot =>
      cases b₁.orphan? x with
      | none => exact refl b₁
      | some o =>
        refine Moves.bind (nextPacketIdForQueue_ages _) (fun packetId => .ite (fun _ => .pure _) fun _ => ?_) b₁
        refine fun b₂ => getTime_ages (Moves.ite (fun _ => .pure _) (fun _ => ?_) b₂)
        exact .bind (updateOrphan_ages x fun _ => rfl) fun _ => .bind (noteBroker_ages _) fun _ => persistOps_ages _

/-! ### Publishing -/

theorem publishTargets_ages (p : InPublish) (subs : List BrokerSub) (fl : FanoutList) :
    Moves (Aging n W) (publishTargets L p subs fl) := by
  induction subs generalizing fl with
  | nil => exact .pure _
  | cons s rest ih =>
    refine .ite (fun _ => ih fl) fun _ => ?_
    cases s.client with
    | some x =>
      refine .get_bind fun b => ?_
      cases b.client? x with
      | none => exact ih fl b
      | some c => exact Moves.ite (fun _ => .bind (fanoutAdd_ages fl _) fun fl => ih fl) (fun _ => ih fl) b
    | none =>
      refine .get_bind fun b => ?_
      cases s.clientId.bind (orphanFind b) with
      | none => exact ih fl b
      | some o => exact Moves.bind (fun _ => Moves.when_at fun _ => orphanEnqueue_ages _ _ _ _ _ _ _) (fun _ => ih fl) b

theorem deliverPublish_ages (from_ : Nat) (p : InPublish) (t : FanoutTarget) :
    Moves (Aging n W) (deliverPublish L from_ p t) := by
  refine .get_bind fun b => ?_
  cases b.client? t.client with
  | none => exact refl b
  | some c =>
    refine Moves.ite (fun _ => .pure _) (fun _ => .ite (fun _ => quotaDisconnect_ages) fun _ => ?_) b
    exact .bind (enqueueFor_ages _ _ _ _ _) fun rc _ => Moves.when_at fun _ =>
      Moves.bind_at (drainOutQueue_ages _) (refl _)

theorem deliverPublishes_ages (from_ : Nat) (p : InPublish) (ts : List FanoutTarget) :
    Moves (Aging n W) (deliverPublishes L from_ p ts) := by
  induction ts with
  | nil => exact .pure _
  | cons t rest ih => exact .bind (deliverPublish_ages from_ p t) fun _ => ih

theorem fanOut_ages (from_ : Nat) (p : InPublish) : Moves (Aging n W) (fanOut L from_ p) :=
  .get_bind fun _ => Moves.bind_at (publishTargets_ages _ _ _ _) (deliverPublishes_ages _ _ _ _)

theorem retainPublish_ages (p : InPublish) : Moves (Aging n W) (retainPublish L p) :=
  .ite (fun _ => retainedDelete_ages _) fun _ => .bind (retainedStore_ages _ _ _ _) fun _ => .pure _

theorem copyTopic_ages (topic : Bytes) : Moves (Aging n W) (copyTopic topic) :=
  .ite (fun _ => .pure _) fun _ => .bind alloc_ages fun _ => .pure _

theorem acceptPublish_ages (p : InPublish) (duplicate : Bool) : Moves (Aging n W) (acceptPublish L a p duplicate) := by
  refine .bind (copyTopic_ages _) fun _ => .ite (fun _ => .pure _) fun _ => ?_
  refine .bind (fun _ => Moves.when_at fun _ => retainPublish_ages p _) fun _ => ?_
  exact .bind (fun _ => Moves.when_at fun _ => fanOut_ages a p _) fun _ =>
    onClient_writes_ages _ (ackPublish_writes (L := L) p)

theorem handlePublish_ages (decoded : Except DecodeError InPublish) : Moves (Aging n W) (handlePublish L a decoded) := by
  refine .get_bind fun b => ?_
  cases decoded with
  | error e => exact refl b
  | ok p =>
    cases b.client? a with
    | none => exact refl b
    | some c =>
      have hdisconnect : ∀ reason, Moves (Aging n W) (onClient a 0 (sendDisconnect L reason)) := fun reason =>
        onClient_writes_ages 0 (sendDisconnect_writes L reason)
      refine Moves.ite (fun _ => .bind (hdisconnect _) fun _ => .pure _) (fun _ => ?_) b
      refine .ite (fun _ => .bind (hdisconnect _) fun _ => .pure _) fun _ => .ite (fun _ => .pure _) fun _ => ?_
      have hadmit : Moves (Aging n W) (onClient a (.refused Code.badArg) (qos2Admit L p)) :=
        onClient_ages _ fun s => (qos2Admit_minds (P := fun _ => True) trivial p s).spends
      refine .bind hadmit fun verdict => ?_
      cases verdict with
      | refused rc => exact .pure _
      | fresh => exact acceptPublish_ages p false
      | duplicate => exact acceptPublish_ages p true

/-! ### Subscribing -/

theorem subsAdd_ages (filter : Bytes) (qos : QoS) : Moves (Aging n W) (subsAdd L a filter qos) := by
  refine .get_bind fun b => Moves.ite (fun _ => ?_) (fun _ => ?_) b
  · exact .bind (modify_ages fun _ => ⟨rfl, rfl, rfl, rfl⟩) fun _ => .pure _
  · cases b.client? a with
    | none => exact .pure _
    | some c =>
      refine .ite (fun _ => .pure _) fun _ => .bind alloc_ages fun slot => ?_
      cases slot with
      | none => exact .pure _
      | some _ => exact .bind (modify_ages fun _ => ⟨rfl, rfl, rfl, rfl⟩) fun _ => .pure _

theorem storeSubs_ages (rc : Int) : Moves (Aging n W) (storeSubs a rc) := by
  refine .get_bind fun b => ?_
  cases b.client? a with
  | none => exact refl b
  | some c =>
    dsimp only
    cases c.clientId with
    | none => exact refl b
    | some id => exact Moves.when_at fun _ => Moves.get_at (persistOps_ages _ b)

theorem subscribeRetained_ages (t : SubTopic) : Moves (Aging n W) (subscribeRetained L a t) := by
  refine .ite (fun _ => .bind alloc_ages fun slot => ?_) fun _ => retainedDeliverToClient_ages _ _
  cases slot with
  | none => exact .pure _
  | some _ => exact retainedDeliverToClient_ages _ _

theorem subscribeTopic_ages (level : Nat) (t : SubTopic) : Moves (Aging n W) (subscribeTopic L a level t) := by
  refine .bind (subsAdd_ages _ _) fun rc => .ite (fun _ => .pure _) fun _ => .ite (fun _ => ?_) fun _ => .pure _
  exact .bind (subscribeRetained_ages t) fun rc => .ite (fun _ => .pure _) fun _ => .pure _

theorem subscribeTopics_ages (level : Nat) (ts : List SubTopic) (codes : List UInt8) :
    Moves (Aging n W) (subscribeTopics L a level ts codes) := by
  induction ts generalizing codes with
  | nil => exact .pure _
  | cons t rest ih =>
    refine .bind (subscribeTopic_ages level t) fun r => ?_
    cases r with
    | error rc => exact .pure _
    | ok code => exact ih _

theorem handleSubscribe_ages (decoded : Except DecodeError InSubscribe) :
    Moves (Aging n W) (handleSubscribe L a decoded) := by
  refine .get_bind fun b => ?_
  cases decoded with
  | error e => exact refl b
  | ok sub =>
    cases b.client? a with
    | none => exact refl b
    | some c =>
      refine Moves.bind (subscribeTopics_ages _ _ _) (fun r => ?_) b
      cases r with
      | error rc => exact .pure _
      | ok codes =>
        exact .bind (onClient_writes_ages _ (sendSubAck_writes L _ _)) fun rc => .bind (storeSubs_ages rc) fun _ => .pure _

theorem unsubscribeTopics_ages (filters : List Bytes) : Moves (Aging n W) (unsubscribeTopics a filters) := by
  induction filters with
  | nil => exact .pure _
  | cons f rest ih =>
    refine .bind (modify_ages fun b => ?_) fun _ => ih
    split <;> exact ⟨rfl, rfl, rfl, rfl⟩

theorem handleUnsubscribe_ages (decoded : Except DecodeError InUnsubscribe) :
    Moves (Aging n W) (handleUnsubscribe L a decoded) := by
  cases decoded with
  | error e => exact .pure _
  | ok unsub =>
    refine .bind (unsubscribeTopics_ages _) fun _ => .bind (onClient_writes_ages _ (sendUnsubAck_writes (L := L) unsub)) fun rc => ?_
    exact .bind (storeSubs_ages rc) fun _ => .pure _

/-! ### Connections that go -/

theorem clientRemove_ages (cause : Cause) : Moves (Aging n W) (clientRemove a cause) :=
  .bind (onClient_ages () fun _ => .of_eq rfl rfl) fun _ => modify_ages fun _ => ⟨rfl, rfl, rfl, rfl⟩

theorem subsRemoveClient_ages : Moves (Aging n W) (subsRemoveClient a) := by
  refine .bind (modify_ages fun _ => ⟨rfl, rfl, rfl, rfl⟩) fun _ => .get_bind fun b => ?_
  cases b.client? a with
  | none => exact refl b
  | some c =>
    dsimp only
    cases c.clientId with
    | none => exact refl b
    | some id => exact Moves.when_at fun _ => persistOps_ages _ b

theorem subsEndClientSession_ages : Moves (Aging n W) (subsEndClientSession a) := by
  refine .bind subsRemoveClient_ages fun _ => .get_bind fun b => ?_
  cases (b.client? a).bind (·.clientId) with
  | none => exact refl b
  | some clientId =>
    refine Moves.get_at ?_
    cases orphanFind b clientId with
    | none => exact refl b
    | some o => exact orphanDropFull_ages o b

theorem subsOrphanClient_ages (hexpiry : ∀ c, b.client? a = some c → c.sessionExpirySec ≠ 0) :
    Aging n W b (subsOrphanClient L a b).2 := by
  refine Moves.bind_at (orphanTake_ages hexpiry) (Moves.ite (fun _ => ?_) (fun _ => subsRemoveClient_ages) _)
  exact modify_ages fun _ => ⟨rfl, rfl, rfl, rfl⟩

theorem leaveSession_ages : Moves (Aging n W) (leaveSession L a) := by
  refine .get_bind fun b => ?_
  cases hc : b.client? a with
  | none => exact refl b
  | some c =>
    dsimp only
    split
    · exact subsEndClientSession_ages b
    · rename_i hexpiry
      refine subsOrphanClient_ages fun c' hc' => ?_
      obtain rfl : c = c' := Option.some.inj (hc.symm.trans hc')
      exact hexpiry

theorem dropClient_ages : Moves (Aging n W) (dropClient a) :=
  .bind subsRemoveClient_ages fun _ => clientRemove_ages _

theorem endConnect_ages : Moves (Aging n W) (endConnect L a) := by
  refine .bind (.get_bind fun b => ?_) fun _ => clientRemove_ages _
  cases b.client? a with
  | none => exact refl b
  | some c => exact Moves.ite (fun _ => leaveSession_ages) (fun _ => subsRemoveClient_ages) b

theorem followDisconnect_ages : Moves (Aging n W) (followDisconnect L a) :=
  .bind leaveSession_ages fun _ => clientRemove_ages _

/-! ### Timeouts and left-over writes -/

section closing
variable (hW : ∀ w ws, w.Delayed L n → W ws (w :: ws))
include hW

theorem abnormalClose_ages : Moves (Aging n W) (abnormalClose L a) :=
  .bind (publishWill_ages hW) fun _ => .bind leaveSession_ages fun _ => clientRemove_ages _

theorem closeConnAck_ages (refused : Bool) : Moves (Aging n W) (closeConnAck L a refused) :=
  .bind (updateClient_ages a _) fun _ => .ite (fun _ => endConnect_ages) fun _ => abnormalClose_ages hW

theorem keepAliveTimeout_ages (c : BrokerClient) : Moves (Aging n W) (keepAliveTimeout L a c) := by
  refine .bind (fun b => Moves.when_at fun _ => ?_) fun _ => abnormalClose_ages hW
  exact Moves.bind_at (onClient_writes_ages 0 (sendDisconnect_writes L _) b) (refl _)

theorem checkTimeouts_ages : Moves (Aging n W) (checkTimeouts L a) := by
  refine .get_bind fun b => ?_
  cases b.client? a with
  | none => exact refl b
  | some c =>
    refine Moves.ite (fun _ => ?_) (fun _ => .ite (fun _ => ?_) fun _ => .ite (fun _ => ?_) fun _ => .pure _) b
    · exact fun b => getTime_ages (Moves.when_at fun _ => closeConnAck_ages hW _ b)
    · exact fun b => getTime_ages (Moves.when_at fun _ => keepAliveTimeout_ages hW c b)
    · exact fun b => getTime_ages (Moves.when_at fun _ => dropClient_ages b)

theorem resumeConnAck_ages : Moves (Aging n W) (resumeConnAck L a) := by
  refine .get_bind fun b => ?_
  cases b.client? a with
  | none => exact refl b
  | some c =>
    refine Moves.bind (onClient_writes_ages _ (packetWrite_writes L _)) (fun rc => .ite (fun _ => .pure _) fun _ => ?_) b
    refine .ite (fun _ => .bind (closeConnAck_ages hW _) fun _ => .pure _) fun _ => ?_
    refine .ite (fun _ => .bind (closeConnAck_ages hW _) fun _ => .pure _) fun _ b => getTime_ages ?_
    refine Moves.bind_at (updateClient_ages a _ b) (Moves.bind_at (onClient_ages () (fun s => ?_) _) (refl _))
    exact (drainResumed_serves (P := fun _ => True) trivial s).spends

theorem resumeDirect_ages : Moves (Aging n W) (resumeDirect L a) := by
  refine .get_bind fun b => ?_
  cases b.client? a with
  | none => exact refl b
  | some c =>
    refine Moves.bind (onClient_writes_ages _ (writeDirect_writes L _)) (fun rc => .ite (fun _ => .pure _) fun _ => ?_) b
    refine .bind (onClient_writes_ages () (zeroTxBuf_writes _)) fun _ => .ite (fun _ => ?_) fun _ => .pure _
    exact .bind (abnormalClose_ages hW) fun _ => .pure _

/-- A handler's result, and the end of the connection if it is fatal. -/
theorem closeIfFatal_ages {m : BrokerM Int} (hm : Moves (Aging n W) m) :
    Moves (Aging n W) (m >>= closeIfFatal L a) :=
  .bind hm fun _ => .ite (fun _ => .bind (abnormalClose_ages hW) fun _ => .pure _) fun _ => .pure _

theorem onAck_ages (decoded : Except DecodeError Nat) {handler : Nat → ClientM Unit}
    (hm : ∀ id (s : Conn), s.env.Spends (handler id s).2.env) : Moves (Aging n W) (onAck L a decoded handler) := by
  cases decoded with
  | error e => exact closeIfFatal_ages hW (m := pure e.val) (.pure _)
  | ok id => exact .bind (onClient_ages () (hm id)) fun _ => .pure _

theorem finishDirect_ages : Moves (Aging n W) (finishDirect L a) := by
  refine .get_bind fun b => ?_
  cases b.client? a with
  | none => exact refl b
  | some c =>
    refine Moves.ite (fun _ => .bind (resumeDirect_ages hW) fun rc => ?_) (fun _ => .pure _) b
    exact .bind (fun b => Moves.when_at fun _ => checkTimeouts_ages hW b) fun _ => .pure _

theorem finishQueued_ages : Moves (Aging n W) (finishQueued L a) := by
  refine .get_bind fun b => ?_
  cases b.client? a with
  | none => exact refl b
  | some c =>
    refine Moves.ite (fun _ => .bind (resumeConnAck_ages hW) fun rc => ?_) (fun _ => .ite (fun _ => ?_) fun _ => .pure _) b
    · exact .bind (fun b => Moves.when_at fun _ => checkTimeouts_ages hW b) fun _ => .pure _
    · refine .bind drainOutQueue_ages fun rc => .ite (fun _ => ?_) fun _ => .ite (fun _ => ?_) fun _ => .pure _
      · exact .bind (checkTimeouts_ages hW) fun _ => .pure _
      · exact .bind (abnormalClose_ages hW) fun _ => .pure _

theorem finishWrites_ages : Moves (Aging n W) (finishWrites L a) :=
  .bind (finishDirect_ages hW) fun _ => .ite (fun _ => finishQueued_ages hW) fun _ => .pure _

theorem disconnectWill_ages (reason : UInt8) : Moves (Aging n W) (disconnectWill L a reason) :=
  .ite (fun _ => publishWill_ages hW) fun _ => updateClient_ages a _

theorem handleDisconnect_ages (remainLen : Nat) (decoded : Except DecodeError InDisconnect) :
    Moves (Aging n W) (handleDisconnect L a remainLen decoded) := by
  refine .get_bind fun b => ?_
  cases b.client? a with
  | none => exact refl b
  | some c =>
    have hleave : Moves (Aging n W) (do
        modify (·.updateClient a BrokerClient.clearWill)
        followDisconnect L a) := .bind (updateClient_ages a _) fun _ => followDisconnect_ages
    refine Moves.ite (fun _ => abnormalClose_ages hW) (fun _ => .ite (fun _ => ?_) fun _ => hleave) b
    cases decoded with
    | error e => exact hleave
    | ok d =>
      refine .bind (.ite (fun _ => .pure _) fun _ => .bind (updateClient_ages a _) fun _ => ?_) fun ok =>
        .ite (fun _ => followDisconnect_ages) fun _ => abnormalClose_ages hW
      exact .bind (disconnectWill_ages hW _) fun _ => .pure _

end closing

end aging

end WolfMqtt.Broker
