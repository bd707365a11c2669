import WolfMqtt.Broker.Ages
import WolfMqtt.Broker.Forward
import WolfMqtt.Broker.Retention

/-! Whom a Will reaches.

`BrokerClient_PublishWillImmediate` brings a Will to the retained messages, if it asks for
that, and then to every matching subscription of a connection that has sent a CONNECT.
What a connection gets is told delivery by delivery (`WillFed`): an entry at the end of
its queue, which is then drained, or the packet itself when the Will is QoS 0 and nothing
else is on its way. -/
namespace WolfMqtt.Broker

/-! ### What a Will owes -/

/-- The PUBLISH of a Will that skips the queue. -/
def willPacket (L : Limits) (p : InPublish) (level : Nat) : Encoded :=
  encodePublish L.txBufSz
    {topicName := p.topicName, qos := .qos0, packetId := 0, retain := false, duplicate := false,
     buffer := if p.payload.isEmpty then none else some p.payload, totalLen := p.payload.length,
     bufferLen := 0, protocolLevel := level, props := []}

/-- No packet is on its way. -/
def BrokerClient.Clear (c : BrokerClient) : Prop :=
  c.connackPendingLen = 0 ∧ c.outQPendingLen = 0 ∧ c.directPendingLen = 0

instance (c : BrokerClient) : Decidable c.Clear := inferInstanceAs (Decidable (_ ∧ _ ∧ _))

/-- A connection after one delivery of a Will after another. A full queue closes it, and a Will that
skips the queue is on the wire at once if the transport takes all there is. -/
inductive WillFed (L : Limits) (p : InPublish) : List QoS → BrokerClient → BrokerClient → Prop
  | done (c : BrokerClient) : WillFed L p [] c c
  | written {qs : List QoS} {c c₁ c' : BrokerClient} (hidle : c.Clear) (env : Env)
    (hrun : c₁ = (writeWill L p.topicName p.payload .qos0 ⟨c, env⟩).2.c)
    (hwire : c.sockOpen = true → c.writePos = 0 → env.writes = [] → 0 < (willPacket L p c.protocolLevel).rc →
      c₁.wire = c.wire ++ (overlay (willPacket L p c.protocolLevel).out c.txBuf).take (willPacket L p c.protocolLevel).rc.toNat)
    (h : WillFed L p qs c₁ c') : WillFed L p (.qos0 :: qs) c c'
  | full {qos : QoS} {qs : List QoS} {c c₁ c' : BrokerClient} (hqueued : qos ≠ .qos0 ∨ ¬c.Clear)
    (hfull : (L.maxQueuedMsgsPerSub : Int) ≤ c.outQ.count) (hgone : c₁.connected = false) (hsame : c₁.outQ = c.outQ)
    (h : WillFed L p qs c₁ c') : WillFed L p (qos :: qs) c c'
  | queued {qos : QoS} {qs : List QoS} {c c' : BrokerClient} (hqueued : qos ≠ .qos0 ∨ ¬c.Clear)
    (hroom : c.outQ.count < (L.maxQueuedMsgsPerSub : Int)) (e : OutPub) (he : Conveys p qos e)
    (hnew : ∀ x ∈ c.outQ.chain, x.addr ≠ e.addr) (hadd : (c.outQ.enqueue e).chain = c.outQ.chain ++ [e]) (env : Env)
    (h : WillFed L p qs (drainOutQueue L ⟨{c with outQ := c.outQ.enqueue e}, env⟩).2.c c') : WillFed L p (qos :: qs) c c'

/-- The message of a delayed Will. -/
def PendingWill.message (w : PendingWill) : InPublish := willPublish w.topic w.payload w.qos

/-- What the store holds after a Will. -/
def PendingWill.retainedAfter (L : Limits) (n : Nat) (w : PendingWill) (b : MqttBroker) : List RetainedMsg :=
  let left := (retainedReapExpired n b).2
  if !w.retain then b.retained
  else if w.payload.isEmpty then b.retained.eraseP (fun m => m.topic = w.topic)
  else if left.retained.any (fun m => m.topic = w.topic) ∨ left.retainedCount < L.maxRetained then
    retainedPut {topic := w.topic, payload := w.payload, storeTime := n, expirySec := 0, qos := w.qos} left.retained
  else left.retained

/-- From `b` to `b'` the Will goes out. -/
structure Published (L : Limits) (n : Nat) (w : PendingWill) (b b' : MqttBroker) : Prop where
  fed : ∀ x c, b.client? x = some c → c.protocolLevel ≠ 0 →
    ∃ c', b'.client? x = some c' ∧ WillFed L w.message (b.subs.filterMap (grant w.message x)) c c'
  unfed : ∀ x c, b.client? x = some c → c.protocolLevel = 0 → b'.client? x = some c
  retained : b'.retained = w.retainedAfter L n b

/-! ### The targets -/

/-- Where a matching subscription leads a Will. -/
def willDestination (b : MqttBroker) (p : InPublish) (s : BrokerSub) : Option FanoutTarget :=
  s.client.bind (fun a => (b.client? a).bind (fun c =>
    if c.protocolLevel ≠ 0 ∧ topicMatch s.filter p.topicName then some ⟨a, p.qos.min s.qos⟩ else none))

section targets
variable {L : Limits} {b b' : MqttBroker} {p : InPublish}

theorem willDestination_congr (h : Untouched b b') : willDestination b' p = willDestination b p := by
  funext s
  simp only [willDestination, h.client?]

theorem willDestination_some {s : BrokerSub} {t : FanoutTarget} (h : willDestination b p s = some t) :
    s.client = some t.client ∧ topicMatch s.filter p.topicName ∧ ∃ c, b.client? t.client = some c ∧ c.protocolLevel ≠ 0 := by
  obtain ⟨a, ha, h⟩ := Option.bind_eq_some_iff.mp h
  obtain ⟨c, hc, h⟩ := Option.bind_eq_some_iff.mp h
  split at h
  · rename_i hhere
    cases h
    exact ⟨ha, hhere.2, c, hc, hhere.1⟩
  · cases h

theorem willTargets_spec (subs : List BrokerSub) (fl : FanoutList) (hfl : fl.truncated = false) (hplenty : b.env.Plenty) :
    (willTargets p.topicName p.qos subs fl b).1.items = fl.items ++ subs.filterMap (willDestination b p) ∧
      Untouched b (willTargets p.topicName p.qos subs fl b).2 := by
  induction subs generalizing fl b with
  | nil => exact ⟨(List.append_nil _).symm, refl b⟩
  | cons s rest ih =>
    have hskip : willDestination b p s = none →
        (willTargets p.topicName p.qos rest fl b).1.items = fl.items ++ (s :: rest).filterMap (willDestination b p) ∧
          Untouched b (willTargets p.topicName p.qos rest fl b).2 := by
      intro hnone
      rw [List.filterMap_cons_none hnone]
      exact ih fl hfl hplenty
    unfold willTargets
    cases hclient : s.client with
    | none => exact hskip (by rw [willDestination, hclient, Option.bind_none])
    | some a =>
      simp only [run_bind, run_get]
      cases hc : b.client? a with
      | none => exact hskip (by rw [willDestination, hclient, Option.bind_some, hc, Option.bind_none])
      | some c =>
        dsimp only
        split
        · rename_i hhere
          obtain ⟨fl₁, b₁, hadd, hitems, hfl₁, huntouched⟩ := fanoutAdd_plenty hfl ⟨a, p.qos.min s.qos⟩ hplenty
          rw [run_bind, hadd]
          obtain ⟨hrest, hrest'⟩ := ih fl₁ hfl₁ (huntouched.plenty hplenty)
          have hdest : willDestination b p s = some ⟨a, p.qos.min s.qos⟩ := by
            rw [willDestination, hclient, Option.bind_some, hc, Option.bind_some, if_pos hhere]
          refine ⟨?_, trans_of Untouched huntouched hrest'⟩
          rw [hrest, hitems, willDestination_congr huntouched, List.filterMap_cons_some hdest, List.append_assoc]
          rfl
        · rename_i haway
          exact hskip (by rw [willDestination, hclient, Option.bind_some, hc, Option.bind_some, if_neg haway])

/-- Those that lead to one connection. -/
theorem willGrants_eq {x : Nat} {c : BrokerClient} (hc : b.client? x = some c) (hlevel : c.protocolLevel ≠ 0)
    (subs : List BrokerSub) :
    ((subs.filterMap (willDestination b p)).filter (fun t => t.client = x)).map (·.qos) = subs.filterMap (grant p x) := by
  induction subs with
  | nil => rfl
  | cons s rest ih =>
    by_cases hs : s.client = some x ∧ topicMatch s.filter p.topicName = true
    · have hdest : willDestination b p s = some ⟨x, p.qos.min s.qos⟩ := by
        rw [willDestination, hs.1, Option.bind_some, hc, Option.bind_some, if_pos ⟨hlevel, hs.2⟩]
      have hgrant : grant p x s = some (p.qos.min s.qos) := by rw [grant, if_pos hs]
      rw [List.filterMap_cons_some hdest, List.filterMap_cons_some hgrant, List.filter_cons_of_pos (by simp), List.map_cons, ih]
    · have hgrant : grant p x s = none := by rw [grant, if_neg hs]
      rw [List.filterMap_cons_none hgrant]
      cases hdest : willDestination b p s with
      | none => rw [List.filterMap_cons_none hdest, ih]
      | some t =>
        have hne : t.client ≠ x := by
          rintro rfl
          obtain ⟨ha, hmatch, -⟩ := willDestination_some hdest
          exact hs ⟨ha, hmatch⟩
        rw [List.filterMap_cons_some hdest, List.filter_cons_of_neg (by simpa using hne), ih]

/-- None leads to a connection that has sent no CONNECT. -/
theorem willGrants_none {x : Nat} {c : BrokerClient} (hc : b.client? x = some c) (hlevel : c.protocolLevel = 0)
    (subs : List BrokerSub) : (subs.filterMap (willDestination b p)).filter (fun t => t.client = x) = [] := by
  refine List.filter_eq_nil_iff.mpr fun t ht hx => ?_
  obtain ⟨s, -, hs⟩ := List.mem_filterMap.mp ht
  obtain ⟨-, -, d, hd, hne⟩ := willDestination_some hs
  obtain rfl : t.client = x := by simpa using hx
  obtain rfl := Option.some.inj (hc.symm.trans hd)
  exact hne hlevel

end targets

/-! ### The deliveries -/

section deliver
variable {L : Limits} {b b' : MqttBroker} {p : InPublish}

/-- A transport that takes all there is takes the Will. -/
theorem writeWill_wire {c : BrokerClient} {env : Env} (hidle : c.Clear) (hopen : c.sockOpen = true) (hpos : c.writePos = 0)
    (hnet : env.writes = []) (hsome : 0 < (willPacket L p c.protocolLevel).rc) :
    (writeWill L p.topicName p.payload .qos0 ⟨c, env⟩).2.c.wire =
      c.wire ++ (overlay (willPacket L p c.protocolLevel).out c.txBuf).take (willPacket L p c.protocolLevel).rc.toNat := by
  have hrun : (writeWill L p.topicName p.payload .qos0 ⟨c, env⟩).2 =
      (whenDo ((willPacket L p c.protocolLevel).rc > 0) (do
        let wrRc ← writeDirect L (willPacket L p c.protocolLevel).rc
        whenDo (wrRc ≠ Code.continue) (zeroTxBuf (willPacket L p c.protocolLevel).rc.toNat))
        ⟨c.holding (willPacket L p c.protocolLevel).out, env⟩).2 := rfl
  rw [hrun]
  generalize willPacket L p c.protocolLevel = enc at hsome ⊢
  let s : Conn := ⟨c.holding enc.out, env⟩
  have hlen : 0 < enc.rc.toNat := by omega
  have hall : (packetWrite L enc.rc.toNat s).1 = enc.rc.toNat := packetWrite_open L hopen hpos hnet hlen
  have hwire : (packetWrite L enc.rc.toNat s).2.c.wire = c.wire ++ (overlay enc.out c.txBuf).take enc.rc.toNat := by
    obtain ⟨c₁, hwrote, -, ⟨-, hend, hsame, -⟩ | ⟨hshort, -⟩⟩ := @packetWrite_wrote L enc.rc.toNat s
    · rw [hsame, hwrote.wire, hend]
      show c.wire ++ ((overlay enc.out c.txBuf).drop c.writePos).take (enc.rc.toNat - c.writePos) = _
      rw [hpos, List.drop_zero, Nat.sub_zero]
    · exact absurd hall hshort
  have hdirect : (writeDirect L enc.rc s).2.c.wire = (packetWrite L enc.rc.toNat s).2.c.wire := by
    unfold writeDirect
    rw [run_ite, if_neg (by omega), run_bind, run_ite]
    have hnone : (readClient (·.directPendingLen) s).1 = 0 := hidle.2.2
    rw [if_neg (fun h => h.1 hnone)]
    rfl
  rw [whenDo, if_pos hsome, run_bind]
  have hzero : Moves SameLine (whenDo ((writeDirect L enc.rc s).1 ≠ Code.continue) (zeroTxBuf enc.rc.toNat)) :=
    .ite (fun _ _ => ⟨rfl, rfl⟩) fun _ => .pure _
  exact (hzero _).1.trans (hdirect.trans hwire)

/-- One delivery. -/
theorem deliverWill_spec (hprops : p.props = []) (t : FanoutTarget) {c : BrokerClient} (hq : QInv b.view) (hplenty : b.env.Plenty)
    (hc : b.client? t.client = some c) :
    let b' := (deliverWill L p.topicName p.payload t b).2
    Beside t.client b b' ∧ ∃ c', b'.client? t.client = some c' ∧
      ∀ qs c'', WillFed L p qs c' c'' → WillFed L p (t.qos :: qs) c c'' := by
  unfold deliverWill
  simp only [run_bind, run_get, hc]
  split
  · rename_i hbusy
    have hqueued : t.qos ≠ .qos0 ∨ ¬c.Clear := by
      unfold BrokerClient.Clear
      tauto
    split
    · rename_i hfull
      unfold whenDo
      by_cases hup : c.connected = true
      · rw [if_pos hup]
        obtain ⟨c', hbeside, hc', hgone, hsame⟩ := quotaDisconnect_beside (L := L) hc
        exact ⟨hbeside, c', hc', fun qs c'' hfed => .full hqueued hfull hgone.1 hsame hfed⟩
      · rw [if_neg hup]
        have hdown : c.connected = false := by simpa using hup
        exact ⟨(refl b : Untouched b b).beside _, c, hc, fun qs c'' hfed => .full hqueued hfull hdown rfl hfed⟩
    · rename_i hroom
      obtain ⟨e, b₁, henq, hbeside, hconveys, hnew, hadd, hc₁⟩ := enqueueFor_spec (p := p) t.qos hq hplenty hc (Int.not_le.mp hroom)
      rw [hprops] at henq
      rw [run_bind, henq]
      have hserves := drainOutQueue_serves (L := L) (P := fun _ => True) trivial ⟨{c with outQ := c.outQ.enqueue e}, b₁.env⟩
      have hdrain := onClient_beside (m := drainOutQueue L) hc₁ (0 : Int) hserves.served.addr (drainOutQueue_sameAllocs _)
      refine ⟨hbeside.trans hdrain.1, _, hdrain.2, fun qs c'' hfed => ?_⟩
      exact .queued hqueued (Int.not_le.mp hroom) e hconveys hnew hadd b₁.env hfed
  · rename_i hidle
    have hq0 : t.qos = .qos0 := by tauto
    have hclear : c.Clear := by
      unfold BrokerClient.Clear
      tauto
    have hwrites := writeWill_writes L p.topicName p.payload t.qos ⟨c, b.env⟩
    have hwritten := onClient_beside (m := writeWill L p.topicName p.payload t.qos) hc ()
      (congrArg (fun s : Conn => s.c.addr) hwrites).symm hwrites.sameAllocs
    refine ⟨hwritten.1, _, hwritten.2, fun qs c'' hfed => ?_⟩
    rw [hq0] at hfed ⊢
    exact .written hclear b.env rfl (fun hopen hpos hnet hsome => writeWill_wire hclear hopen hpos hnet hsome) hfed

theorem deliverWills_spec (hprops : p.props = []) (ts : List FanoutTarget) (hq : QInv b.view) (hplenty : b.env.Plenty) :
    let b' := (deliverWills L p.topicName p.payload ts b).2
    b'.env.Plenty ∧ ∀ x c, b.client? x = some c → ∃ c', b'.client? x = some c' ∧
      WillFed L p ((ts.filter (fun t => t.client = x)).map (·.qos)) c c' := by
  refine (deliverAll_spec (deliverWill L p.topicName p.payload) (deliverWills L p.topicName p.payload) (fun _ => rfl)
    (fun _ _ _ => rfl) (fun _ c => .done c) (fun t b hq => ?_) (fun t b hc => ?_)
    (fun t _ _ hq => deliverWill_spec hprops t hq) ts hq hplenty).2
  · exact (deliverWill_fans (L := L) (T := fun _ => True) (O := True) ordinary_all p.topicName p.payload t trivial b).inv hq
  · unfold deliverWill
    simp only [run_bind, run_get, hc]
    rfl

end deliver

/-! ### The store -/

section store
variable {n : Nat} {L : Limits} {b : MqttBroker}

theorem alloc_sameRetained : Moves SameRetained alloc := fun _ => rfl

theorem fanoutAdd_sameRetained (fl : FanoutList) (t : FanoutTarget) : Moves SameRetained (fanoutAdd fl t) := by
  refine .ite (fun _ => .pure _) fun _ => .ite (fun _ => .bind alloc_sameRetained fun slot => ?_) fun _ => .pure _
  cases slot <;> exact .pure _

theorem willTargets_sameRetained (topic : Bytes) (qos : QoS) (subs : List BrokerSub) (fl : FanoutList) :
    Moves SameRetained (willTargets topic qos subs fl) := by
  induction subs generalizing fl with
  | nil => exact .pure _
  | cons s rest ih =>
    unfold willTargets
    cases s.client with
    | none => exact ih fl
    | some a =>
      refine .get_bind fun b => ?_
      cases b.client? a with
      | none => exact ih fl b
      | some c => exact Moves.ite (fun _ => .bind (fanoutAdd_sameRetained fl _) fun fl => ih fl) (fun _ => ih fl) b

theorem deliverWill_sameRetained (topic payload : Bytes) (t : FanoutTarget) : Moves SameRetained (deliverWill L topic payload t) := by
  refine .get_bind fun b => ?_
  cases b.client? t.client with
  | none => exact refl b
  | some c =>
    refine Moves.ite (fun _ => .ite (fun _ => .ite (fun _ => ?_) fun _ => .pure _) fun _ => ?_) (fun _ => ?_) b
    · exact onClient_sameRetained _ _ _
    · refine .bind (enqueueFor_sameRetained _ _ _ _ _ _) fun _ => .ite (fun _ => ?_) fun _ => .pure _
      exact .bind (onClient_sameRetained _ _ _) fun _ => .pure _
    · exact onClient_sameRetained _ _ _

theorem deliverWills_sameRetained (topic payload : Bytes) (ts : List FanoutTarget) :
    Moves SameRetained (deliverWills L topic payload ts) := by
  induction ts with
  | nil => exact .pure _
  | cons t rest ih => exact .bind (deliverWill_sameRetained topic payload t) fun _ => ih

theorem retainWill_untouched (topic payload : Bytes) (qos : QoS) : Moves Untouched (retainWill L topic payload qos) :=
  .ite (fun _ => retainedDelete_untouched topic) fun _ => .bind (retainedStore_untouched _ _ _ _) fun _ => .pure _

theorem retainedDelete_retained (topic : Bytes) :
    (retainedDelete topic b).2.retained = b.retained.eraseP (fun m => m.topic = topic) := by
  show (whenDo (b.retained.any (fun m => m.topic = topic)) _ b).2.retained = _
  unfold whenDo
  by_cases hany : (b.retained.any (fun m => m.topic = topic)) = true
  · rw [if_pos hany]
    rfl
  · rw [if_neg hany, List.eraseP_of_forall_not]
    · rfl
    · intro m hm hm'
      exact hany (List.any_eq_true.mpr ⟨m, hm, hm'⟩)

theorem whenRetained_eq (w : PendingWill) (hat : b.env.At n) (hplenty : b.env.Plenty) :
    (whenDo w.retain (retainWill L w.topic w.payload w.qos) b).2.retained = w.retainedAfter L n b := by
  unfold whenDo PendingWill.retainedAfter
  by_cases hretain : w.retain = true
  · rw [if_pos hretain]
    simp only [hretain, Bool.not_true, Bool.false_eq_true, if_false]
    unfold retainWill
    rw [run_ite]
    split
    · exact retainedDelete_retained w.topic
    rw [run_bind]
    show (retainedStore L w.topic w.payload w.qos 0 b).2.retained = _
    unfold retainedStore
    rw [run_bind, getTime_at hat, run_bind, retainedInsert_eq]
    have hplenty₁ : (retainedReapExpired n b).2.env.Plenty := hplenty
    have hat₁ : (retainedReapExpired n b).2.env.At n := ⟨hat.clock, hat.now⟩
    generalize (retainedReapExpired n b).2 = b₁ at hplenty₁ hat₁ ⊢
    dsimp only
    have hfull : (!b₁.retained.any (fun m => m.topic = w.topic)) = true ∧ b₁.retainedCount ≥ L.maxRetained ↔
        ¬(b₁.retained.any (fun m => m.topic = w.topic) = true ∨ b₁.retainedCount < L.maxRetained) := by
      rw [not_or, Bool.not_eq_true', Bool.not_eq_true, Int.not_lt]
    by_cases hroom : b₁.retained.any (fun m => m.topic = w.topic) = true ∨ b₁.retainedCount < L.maxRetained
    · rw [if_pos hroom, if_neg fun h => hfull.mp h hroom]
      obtain ⟨env, hstate, hclock, hok⟩ := allocAll_spec (retainedAllocs (b₁.retained.any (fun m => m.topic = w.topic)) w.payload) b₁
      generalize allocAll (retainedAllocs (b₁.retained.any (fun m => m.topic = w.topic)) w.payload) b₁ = r at hstate hok ⊢
      obtain ⟨ok, b₂⟩ := r
      dsimp only at hstate hok ⊢
      subst hstate
      rw [hok hplenty₁]
      have htime : env.getTime.1 = n := by rw [hclock, hat₁.getTime]
      show retainedPut {topic := w.topic, payload := w.payload, storeTime := env.getTime.1, expirySec := 0, qos := w.qos} b₁.retained = _
      rw [htime]
    · rw [if_neg hroom, if_pos (hfull.mpr hroom)]
  · rw [if_neg hretain]
    simp only [hretain, Bool.not_false, if_true]
    rfl

end store

/-! ### The whole of a Will -/

/-- What a look at the delayed Wills starts from: the clock stands, the queues are in order, and no
allocation to come fails. -/
structure Poised (n : Nat) (b : MqttBroker) : Prop where
  clock : b.env.At n
  queues : QInv b.view
  plenty : b.env.Plenty

section whole
variable {n : Nat} {L : Limits} {b : MqttBroker}

theorem PendingWill.message_payload (w : PendingWill) : w.message.payload = w.payload := List.take_length

/-- A Will that is published goes out. -/
theorem publishWillImmediate_published (h : Poised n b) (w : PendingWill) :
    let b' := (publishWillImmediate L w.topic w.payload w.qos w.retain b).2
    Published L n w b b' ∧ Poised n b' := by
  have hages : Ages n Eq b (publishWillImmediate L w.topic w.payload w.qos w.retain b).2 :=
    publishWillImmediate_ages _ _ _ _ b h.clock
  have hqueues : QInv (publishWillImmediate L w.topic w.payload w.qos w.retain b).2.view :=
    (publishWillImmediate_fans (L := L) (T := fun _ => True) (O := True) ordinary_all _ _ _ _ fun _ _ => trivial).inv h.queues
  -- the retained message
  have hretain : Untouched b (whenDo w.retain (retainWill L w.topic w.payload w.qos) b).2 :=
    Moves.when_at fun _ => retainWill_untouched _ _ _ b
  have hstore := whenRetained_eq (L := L) w h.clock h.plenty
  have hfans : Fans L (fun _ => True) (fun _ => True) True b (whenDo w.retain (retainWill L w.topic w.payload w.qos) b).2 :=
    Moves.when_at fun _ => retainWill_fans ordinary_all _ _ _ b
  have hrun : (publishWillImmediate L w.topic w.payload w.qos w.retain b).2 =
      let b₁ := (whenDo w.retain (retainWill L w.topic w.payload w.qos) b).2
      let r := willTargets w.topic w.qos b₁.subs {} b₁
      (deliverWills L w.topic w.payload r.1.items r.2).2 := rfl
  generalize (publishWillImmediate L w.topic w.payload w.qos w.retain b).2 = b' at hages hqueues hrun ⊢
  generalize (whenDo w.retain (retainWill L w.topic w.payload w.qos) b).2 = b₁ at hretain hstore hfans hrun
  have hq₁ : QInv b₁.view := hfans.inv h.queues
  -- the targets
  obtain ⟨hitems, htargets⟩ := willTargets_spec (p := w.message) b₁.subs {} rfl (hretain.plenty h.plenty)
  have hq₂ : QInv (willTargets w.topic w.qos b₁.subs {} b₁).2.view :=
    (willTargets_fans (L := L) (T := fun _ => True) (O := True) ordinary_all w.topic w.qos b₁.subs {} b₁).inv hq₁
  have hsame₂ : SameRetained b₁ (willTargets w.topic w.qos b₁.subs {} b₁).2 := willTargets_sameRetained _ _ _ _ b₁
  change (willTargets w.topic w.qos b₁.subs {} b₁).1.items = _ at hitems
  change Untouched b₁ (willTargets w.topic w.qos b₁.subs {} b₁).2 at htargets
  dsimp only at hrun
  generalize willTargets w.topic w.qos b₁.subs {} b₁ = r at hrun hitems htargets hq₂ hsame₂
  -- the deliveries
  obtain ⟨hplenty, hfed⟩ := deliverWills_spec (L := L) (p := w.message) rfl r.1.items hq₂
    (htargets.plenty (hretain.plenty h.plenty))
  have hsame₃ : SameRetained r.2 (deliverWills L w.topic w.payload r.1.items r.2).2 := deliverWills_sameRetained _ _ _ r.2
  rw [w.message_payload] at hplenty hfed
  change (deliverWills L w.topic w.payload r.1.items r.2).2.env.Plenty at hplenty
  subst hrun
  have huntouched : Untouched b r.2 := trans_of Untouched hretain htargets
  refine ⟨⟨fun x c hc hlevel => ?_, fun x c hc hlevel => ?_, ?_⟩, hages.standing, hqueues, hplenty⟩
  · obtain ⟨c', hc', hfed⟩ := hfed x c ((huntouched.client? x).trans hc)
    rw [hitems, List.nil_append, willGrants_eq ((hretain.client? x).trans hc) hlevel, hretain.subs] at hfed
    exact ⟨c', hc', hfed⟩
  · obtain ⟨c', hc', hfed⟩ := hfed x c ((huntouched.client? x).trans hc)
    rw [hitems, List.nil_append, willGrants_none ((hretain.client? x).trans hc) hlevel] at hfed
    cases hfed
    exact hc'
  · have hsame := trans_of SameRetained hsame₂ hsame₃
    exact (congrArg Prod.fst hsame).symm.trans hstore

/-! ### A look at the delayed Wills -/

/-- A turn of the loop. -/
theorem pendingWillLoop_cons (w : PendingWill) (rest : List PendingWill) (b : MqttBroker) :
    (pendingWillLoop L n (w :: rest) b).2 =
      if n ≥ w.publishTime then
        let b' := (publishWillImmediate L w.topic w.payload w.qos w.retain b).2
        (pendingWillLoop L n rest {b' with pendingWills := b'.pendingWills.erase w}).2
      else (pendingWillLoop L n rest b).2 := by
  rw [pendingWillLoop, run_bind, whenDo, run_ite]
  split <;> rfl

/-- A look at the delayed Wills comes by every one of them, and a Will that is due goes out. -/
theorem pendingWillLoop_published (front : List PendingWill) {w : PendingWill} (back : List PendingWill) (h : Poised n b)
    (hdue : w.publishTime ≤ n) :
    ∃ b', Published L n w (pendingWillLoop L n front b).2 b' ∧
      (pendingWillLoop L n (front ++ w :: back) b).2 = (pendingWillLoop L n back b').2 := by
  induction front generalizing b with
  | nil =>
    obtain ⟨hpublished, -⟩ := publishWillImmediate_published (L := L) h w
    rw [List.nil_append, pendingWillLoop_cons, if_pos hdue]
    let b' := (publishWillImmediate L w.topic w.payload w.qos w.retain b).2
    exact ⟨{b' with pendingWills := b'.pendingWills.erase w}, ⟨hpublished.fed, hpublished.unfed, hpublished.retained⟩, rfl⟩
  | cons x front ih =>
    rw [List.cons_append, pendingWillLoop_cons, pendingWillLoop_cons]
    split
    · obtain ⟨-, hpoised⟩ := publishWillImmediate_published (L := L) h x
      exact ih ⟨hpoised.clock, hpoised.queues, hpoised.plenty⟩
    · exact ih h

/-- In the look at the delayed Wills with these answers, the Will goes out. -/
def GoesOut (L : Limits) (w : PendingWill) (b : MqttBroker) (script : Script) : Prop :=
  ∃ front back b', b.pendingWills = front ++ w :: back ∧
    Published L script.now w (pendingWillLoop L script.now front {b with env := b.env.arm script}).2 b' ∧
    step L b (.pendingWills, script) = (pendingWillLoop L script.now back b').2

theorem goesOut_of_due {w : PendingWill} {script : Script} (hb : QInv b.view) (hw : w ∈ b.pendingWills)
    (hclock : script.clock = []) (hallocs : ∀ ok ∈ script.allocs, ok = true) (hdue : w.publishTime ≤ script.now) :
    GoesOut L w b script := by
  let b₀ : MqttBroker := {b with env := b.env.arm script}
  have hpoised : Poised script.now b₀ := ⟨⟨hclock, rfl⟩, hb, hallocs⟩
  obtain ⟨front, back, hlist⟩ := List.append_of_mem hw
  obtain ⟨b', hpublished, hrest⟩ := pendingWillLoop_published (L := L) front back hpoised hdue
  refine ⟨front, back, b', hlist, hpublished, ?_⟩
  rw [← hrest, ← hlist]
  show (pendingWillProcess L b₀).2 = (pendingWillLoop L script.now b₀.pendingWills b₀).2
  rw [pendingWillProcess, run_bind, getTime_at hpoised.clock]
  rfl

end whole

end WolfMqtt.Broker
