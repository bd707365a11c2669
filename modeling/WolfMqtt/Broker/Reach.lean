import WolfMqtt.Broker.Turn

/-! What holds in every state the broker reaches.

Between two events no connection is between two phases, and the queues are in order. A
run whose packets only need some of the delivery system's steps is a run of the delivery
system with those steps alone. -/
namespace WolfMqtt.Broker

section reach
variable {L : Limits} {P : Label → Prop} {b : MqttBroker}

theorem initial_phase (L : Limits) (authUser authPass : Option Bytes) : Phase L Nowhere (initial authUser authPass) where
  queues := by
    refine ⟨List.nodup_nil, List.nodup_nil, ?_, ?_, ?_, ?_, ?_, ?_⟩
    · intro c hc
      cases hc
    · intro o ho
      cases ho
    · intro c hc
      cases hc
    · intro c hc
      cases hc
    · intro o ho
      cases ho
    · intro e n w h
      cases h
  owned a h := by
    obtain ⟨s, hs, -⟩ := h
    cases hs
  sound c hc := by cases hc
  settled c hc := by cases hc

/-- If an event has the broker handle a packet, `Q` holds of the state and the packet. -/
def OnPacket (L : Limits) (Q : MqttBroker → Nat → InPacket → Prop) (b : MqttBroker) (e : Event × Script) : Prop :=
  ∀ x ∈ dispatched L b e, Q x.2.2 x.1 x.2.1

instance (L : Limits) (Q : MqttBroker → Nat → InPacket → Prop) [∀ b a p, Decidable (Q b a p)] (b : MqttBroker)
    (e : Event × Script) : Decidable (OnPacket L Q b e) :=
  inferInstanceAs (Decidable (∀ x ∈ dispatched L b e, Q x.2.2 x.1 x.2.1))

theorem OnPacket.imp {Q Q' : MqttBroker → Nat → InPacket → Prop} (h : ∀ b a p, Q b a p → Q' b a p) {b : MqttBroker}
    {e : Event × Script} (hQ : OnPacket L Q b e) : OnPacket L Q' b e := fun x hx => h _ _ _ (hQ x hx)

theorem Permits.all (b : MqttBroker) (a : Nat) (p : InPacket) : Permits L (fun _ => True) b a p := by
  unfold Permits
  split
  · exact fun _ _ _ => ⟨fun _ _ _ => .inl trivial, fun _ _ _ => .inr (.inr trivial)⟩
  · exact fun _ _ _ _ _ => trivial
  · trivial

theorem step_phase (hb : Phase L Nowhere b) (e : Event × Script) : Phase L Nowhere (step L b e) := by
  have h : Advances L (fun _ => True) (fun _ => True) Nowhere b (step L b e) :=
    step_advances ⟨trivial, trivial⟩ trivial trivial hb e fun a p b' _ => ⟨.all b' a p, fun _ => trivial⟩
  exact h.phase

theorem Reachable.phase (h : Reachable L b) : Phase L Nowhere b := by
  obtain ⟨authUser, authPass, es, rfl⟩ := h
  exact Along.invariant (I := Phase L Nowhere) (fun s e hs _ => step_phase hs e) es _ (.trivial es _)
    (initial_phase L authUser authPass)

theorem Reachable.step (h : Reachable L b) (e : Event × Script) : Reachable L (step L b e) := by
  obtain ⟨authUser, authPass, es, rfl⟩ := h
  exact ⟨authUser, authPass, es ++ [e], by rw [run, run, List.foldl_append]; rfl⟩

/-- A run whose packets need no more than `P` allows, in the delivery system. -/
theorem run_qrun (hP : Ordinary P) (hT : P .take) (hA : P .answer) (authUser authPass : Option Bytes) {es : List (Event × Script)}
    (h : Along (Broker.step L) (OnPacket L (Permits L P)) (initial authUser authPass) es) :
    QRun L P (initial authUser authPass).view (run L (initial authUser authPass) es).view := by
  refine (Along.invariant (I := fun b => Phase L Nowhere b ∧ QRun L P (initial authUser authPass).view b.view)
    (fun b e hb hneeds => ?_) es _ h ⟨initial_phase L authUser authPass, .refl⟩).2
  have hstep : Advances L P (fun _ => True) Nowhere b (Broker.step L b e) :=
    step_advances hP hT hA hb.1 e fun a p b' hd => ⟨hneeds (a, p, b') hd, fun _ => trivial⟩
  exact ⟨hstep.phase, Relation.ReflTransGen.trans hb.2 hstep.run⟩

/-! ### While a packet is handled -/

/-- The broker handles the packet `p` of the connection at `a` in state `b`, in some run. -/
def Handling (L : Limits) (b : MqttBroker) (a : Nat) (p : InPacket) : Prop :=
  ∃ b₀ e, Reachable L b₀ ∧ dispatched L b₀ e = some (a, p, b)

theorem dispatched_some {e : Event × Script} {b' : MqttBroker} {a : Nat} {p : InPacket}
    (h : dispatched L b e = some (a, p, b')) :
    (finishWrites L a {b with env := b.env.arm e.2}).1 = true ∧
      (∃ c, (finishWrites L a {b with env := b.env.arm e.2}).2.client? a = some c ∧ c.hears p = true) ∧
      b' = (stampRx a (finishWrites L a {b with env := b.env.arm e.2}).2).2 := by
  unfold dispatched at h
  split at h
  · dsimp only at h
    split at h
    · rename_i hgo
      cases h
      obtain ⟨hgo, hhears⟩ := Bool.and_eq_true_iff.mp hgo
      obtain ⟨c, hc, hp⟩ := (Option.any_eq_true _ _).mp hhears
      exact ⟨hgo, ⟨c, hc, hp⟩, rfl⟩
    · cases h
  · cases h

theorem dispatched_advances {Z : Nat → Prop} (hP : Ordinary P) (hT : P .take) (hb : Phase L Nowhere b)
    {e : Event × Script} {b' : MqttBroker} {a : Nat} {p : InPacket} (h : dispatched L b e = some (a, p, b')) :
    Advances L P Z Nowhere b b' := by
  obtain ⟨-, -, rfl⟩ := dispatched_some h
  have harm : Advances L P Z Nowhere b {b with env := b.env.arm e.2} := .of_same hb rfl rfl rfl
  exact harm.trans fun hb₁ => (finishWrites_advances hP hT hb₁).trans fun hb₂ => stampRx_advances hb₂ a

theorem Handling.phase {a : Nat} {p : InPacket} (h : Handling L b a p) : Phase L Nowhere b := by
  obtain ⟨b₀, e, hreach, hdisp⟩ := h
  exact (dispatched_advances (P := fun _ => True) (Z := fun _ => True) ⟨trivial, trivial⟩ trivial hreach.phase hdisp).phase

/-- A CONNECT is handled on an open connection that has no session, and nothing to send. -/
theorem Handling.connect {a : Nat} {decoded : Except DecodeError InConnect} (h : Handling L b a (.connect decoded)) :
    ∃ c, b.client? a = some c ∧ c.sockOpen = true ∧ c.connected = false ∧ c.connackPendingLen = 0 ∧
      c.sessionEstablished = false := by
  have hb := h.phase
  obtain ⟨b₀, e, hreach, hdisp⟩ := h
  obtain ⟨hgo, ⟨c, hc, hhears⟩, rfl⟩ := dispatched_some hdisp
  have hc₁ := stampRx_client? hc
  obtain ⟨hopen, hconn⟩ := Bool.and_eq_true_iff.mp hhears
  have hconn : c.connected = false := by simpa [InPacket.isConnect] using hconn
  have hpend : c.connackPendingLen = 0 := finishWrites_true hgo hc
  refine ⟨_, hc₁, hopen, hconn, hpend, ?_⟩
  by_contra hne
  exact (hb.settled _ (Chain.at?_mem hc₁) id hopen hconn (by simpa using hne)).1 hpend

/-- No step is silent about the PUBREL of an entry it releases. -/
theorem Permits.not_mute (b : MqttBroker) (a : Nat) (p : InPacket) : Permits L (· ≠ .mute) b a p := by
  unfold Permits
  split
  · exact fun _ _ _ => ⟨fun _ _ _ => .inl (by decide), fun _ _ _ => .inr (.inr (by decide))⟩
  · exact fun _ _ _ _ _ => by decide
  · trivial

/-- What the delivery system keeps holds whenever a packet is handled. -/
theorem Handling.invariant {I : QState → Prop} (hstart : ∀ authUser authPass, I (initial authUser authPass).view)
    (hstep : ∀ s t ℓ, ℓ ≠ .mute → QStep L ℓ s t → QInv s → I s → I t) {a : Nat} {p : InPacket} (h : Handling L b a p) :
    I b.view := by
  have hP : Ordinary (· ≠ Label.mute) := ⟨by decide, by decide⟩
  obtain ⟨b₀, e, hreach, hdisp⟩ := h
  have hlast : QRun L (· ≠ .mute) b₀.view b.view :=
    (dispatched_advances (Z := fun _ => True) hP (by decide) hreach.phase hdisp).run
  obtain ⟨authUser, authPass, es, rfl⟩ := hreach
  have hrun : QRun L (· ≠ .mute) (initial authUser authPass).view (run L (initial authUser authPass) es).view :=
    run_qrun hP (by decide) (by decide) authUser authPass
      ((Along.trivial es _).imp fun _ _ _ (x : Nat × InPacket × MqttBroker) _ => Permits.not_mute x.2.2 x.1 x.2.1)
  exact (QRun.invariant (I := fun s => QInv s ∧ I s) (fun s t ℓ hℓ hst hs => ⟨hst.inv hs.1, hstep s t ℓ hℓ hst hs.1 hs.2⟩)
    (Relation.ReflTransGen.trans hrun hlast)
    ⟨(initial_phase L authUser authPass).queues, hstart authUser authPass⟩).2

/-! ### The queues -/

/-- Every outbound queue the broker has. -/
def MqttBroker.outQueues (b : MqttBroker) : List (TailQueue OutPub) :=
  b.clients.map (·.outQ) ++ b.orphanSessions.map (·.outQ)

theorem QueueOk.of_mem (hb : Phase L Nowhere b) {q : TailQueue OutPub} (hq : q ∈ b.outQueues) :
    QueueOk b.env.nextAddr q := by
  rcases List.mem_append.mp hq with h | h
  · obtain ⟨c, hc, rfl⟩ := List.mem_map.mp h
    exact hb.queues.queue c.view (List.mem_map_of_mem hc)
  · obtain ⟨o, ho, rfl⟩ := List.mem_map.mp h
    exact hb.queues.orphan o.view (List.mem_map_of_mem ho)

/-- The outbound queues in every state the broker reaches: the count and the tail pointer are
those of the list, identifiers above QoS 0 are usable and distinct, QoS 0 entries wait, a
connection's in-flight count is right, and every PUBLISH above QoS 0 was written inside the
window. -/
theorem reachable_outQueues (h : Reachable L b) :
    (∀ q ∈ b.outQueues,
      q.count = q.chain.length ∧ q.tail = q.chain.getLast?.map (·.addr) ∧ (q.tail = none ↔ q.chain = []) ∧
      (∀ e ∈ q.chain, e.qos ≠ .qos0 → e.packetId ≠ 0) ∧
      q.chain.Pairwise (fun x y => x.qos ≠ .qos0 → y.qos ≠ .qos0 → x.packetId ≠ y.packetId) ∧
      ∀ e ∈ q.chain, e.qos = .qos0 → e.state = .queued) ∧
    (∀ c ∈ b.clients, c.outQInflight = c.outQ.chain.countP (fun e => e.state = .publishSent ∨ e.state = .pubrelSent)) ∧
    ∀ e inflight window, Obs.writing e inflight window ∈ b.env.trace → inflight < window := by
  have hb := h.phase
  refine ⟨fun q hq => ?_, fun c hc => ?_, hb.queues.writes⟩
  · have hok := QueueOk.of_mem hb hq
    refine ⟨hok.wf.count, hok.wf.tail, ?_, hok.id_ne, hok.ids, hok.qos0⟩
    rw [hok.wf.tail, Option.map_eq_none_iff, List.getLast?_eq_none_iff]
  · have hinflight := hb.queues.inflight c.view (List.mem_map_of_mem hc)
    refine hinflight.trans (congrArg Nat.cast (List.countP_congr fun e _ => ?_))
    cases e.state <;> simp

end reach

/-- A packet from the connection at `a`, in a turn in which nothing else goes on. -/
def packetFrom (a : Nat) (p : InPacket) : Event × Script := (.process a (.packet true p), {})

/-- The state in which such a packet is handled. -/
def readied (L : Limits) (b : MqttBroker) (a : Nat) : MqttBroker :=
  (stampRx a (finishWrites L a {b with env := b.env.arm {}}).2).2

theorem dispatched_packetFrom {L : Limits} {b : MqttBroker} {a : Nat} {p : InPacket}
    (h : (dispatched L b (packetFrom a p)).isSome) : dispatched L b (packetFrom a p) = some (a, p, readied L b a) := by
  unfold readied
  dsimp only [dispatched, packetFrom] at h ⊢
  generalize finishWrites L a {b with env := b.env.arm {}} = r at h ⊢
  cases hgo : r.1 && (r.2.client? a).any (·.hears p) with
  | true => rfl
  | false =>
    rw [hgo] at h
    cases h

theorem Handling.of_packetFrom {L : Limits} {b : MqttBroker} {a : Nat} {p : InPacket} (hb : Reachable L b)
    (h : (dispatched L b (packetFrom a p)).isSome) : Handling L (readied L b a) a p :=
  ⟨b, packetFrom a p, hb, dispatched_packetFrom h⟩

/-- A subscriber with a persistent session at address 1, and a publisher at address 4. -/
def subscriberAndPublisher : List (Event × Script) :=
  [(.accept, {}), packetFrom 1 (.connect (.ok {protocolLevel := 4, cleanSession := false, clientId := [0x73]})),
   packetFrom 1 (.subscribe (.ok {packetId := 1, topics := [{filter := [0x74], qos := .qos2}]})),
   (.accept, {}), packetFrom 4 (.connect (.ok {protocolLevel := 4, cleanSession := true, clientId := [0x70]}))]

/-- A message to the topic they share. -/
def messageFrom (a : Nat) (qos : QoS) (packetId : Nat) : Event × Script :=
  packetFrom a (.publish (.ok {len := 8, topicName := [0x74], qos := qos, packetId := packetId, retain := false,
                               duplicate := false, buffer := [0x6D], totalLen := 1, props := []}))

/-- Two messages are on their way to the subscriber, the second written while the first is in
flight. -/
theorem reachable_outQueues_messages :
    Obs.writing 10 1 16 ∈ (run {} (initial none none)
      (subscriberAndPublisher ++ [messageFrom 4 .qos2 7, messageFrom 4 .qos1 8])).env.trace ∧
    ∀ e inflight window, Obs.writing e inflight window ∈ (run {} (initial none none)
      (subscriberAndPublisher ++ [messageFrom 4 .qos2 7, messageFrom 4 .qos1 8])).env.trace → inflight < window :=
  ⟨by decide +kernel, (reachable_outQueues ⟨none, none, _, rfl⟩).2.2⟩

end WolfMqtt.Broker
