import WolfMqtt.Broker.Entries
import WolfMqtt.Broker.Reach

/-! What every run does to the messages it queues.

The level of an entry is its queue's, until a session is resumed at another level. An
entry above QoS 0 leaves its session's queue as its handshake allows, except where a
PUBACK completes a QoS 2 delivery and where a connection is taken over with messages
in its queue. -/
namespace WolfMqtt.Broker

/-! ### Levels -/

/-- Queues hold entries of their own level, and the drain encodes at the connection's. -/
structure LevelInv (s : QState) : Prop where
  queues : ∀ p level e, s.Holds p level e → e.protocolLevel = level
  encoded : ∀ level connLevel, Obs.encoded level connLevel ∈ s.trace → level = connLevel

theorem QStep.levelInv {L : Limits} {ℓ : Label} {s t : QState} (h : QStep L ℓ s t) (hs : QInv s) (hmute : ℓ ≠ .mute)
    (hℓ : ℓ ≠ .mismatch) (hinv : LevelInv s) : LevelInv t := by
  obtain ⟨source, born, hsource⟩ := h.sourced hs hmute
  obtain ⟨obs, htrace, hnoted⟩ := h.notes hs
  refine ⟨fun p level e he => ?_, fun level connLevel hmem => ?_⟩
  · rcases hsource.comes p level e he with ⟨level₀, e₀, he₀, hturned, hlevel⟩ | ⟨-, hfresh⟩
    · rw [hturned.level, hinv.queues _ _ _ he₀]
      exact (hlevel.resolve_right hℓ).symm
    · exact hfresh.level
  · rw [htrace] at hmem
    rcases List.mem_append.mp hmem with hmem | hmem
    · exact hinv.encoded level connLevel hmem
    · obtain ⟨p, e, he, rfl⟩ := hnoted.encoded level connLevel hmem
      exact hinv.queues p connLevel e he

/-- A CONNECT that resumes a session with messages in its queue has the level that the session
had. -/
def ResumesAtItsLevel (L : Limits) (b : MqttBroker) (a : Nat) : InPacket → Prop
  | .connect (.ok mc) => Accepts L b a mc → mc.cleanSession = false → ∀ c ∈ b.client? a,
      ∀ o ∈ orphanFind b (connectId c b.nextAutoId mc), o.outQ.chain = [] ∨ o.protocolLevel = mc.protocolLevel
  | _ => True

instance (L : Limits) (b : MqttBroker) (a : Nat) (p : InPacket) : Decidable (ResumesAtItsLevel L b a p) :=
  match p with
  | .connect (.ok mc) => inferInstanceAs (Decidable (Accepts L b a mc → mc.cleanSession = false → ∀ c ∈ b.client? a,
      ∀ o ∈ orphanFind b (connectId c b.nextAutoId mc), o.outQ.chain = [] ∨ o.protocolLevel = mc.protocolLevel))
  | .connect (.error _) | .publish _ | .publishAck _ | .publishRec _ | .publishRel _ | .publishComp _ | .subscribe _
  | .unsubscribe _ | .pingReq _ | .disconnect _ _ | .unhandled => .isTrue trivial

theorem ResumesAtItsLevel.permits {L : Limits} {b : MqttBroker} {a : Nat} {p : InPacket} (h : ResumesAtItsLevel L b a p) :
    Permits L (fun ℓ => ℓ ≠ .mute ∧ ℓ ≠ .mismatch) b a p := by
  unfold Permits
  split
  · intro haccepts c hc
    refine ⟨fun _ _ _ => .inl ⟨by decide, by decide⟩, fun hclean o ho => ?_⟩
    rcases h haccepts hclean c hc o ho with h | h
    · exact .inl h
    · exact .inr (.inl h)
  · exact fun _ _ _ _ _ => ⟨by decide, by decide⟩
  · trivial

/-- As long as sessions are resumed at their level, the drain encodes every packet at the level
of the connection it is for. -/
theorem run_encoded {L : Limits} {authUser authPass : Option Bytes} {es : List (Event × Script)}
    (h : Along (step L) (OnPacket L (ResumesAtItsLevel L)) (initial authUser authPass) es) (level connLevel : Nat)
    (hmem : Obs.encoded level connLevel ∈ (run L (initial authUser authPass) es).env.trace) : level = connLevel := by
  have hrun : QRun L (fun ℓ => ℓ ≠ .mute ∧ ℓ ≠ .mismatch) (initial authUser authPass).view
      (run L (initial authUser authPass) es).view :=
    run_qrun ⟨⟨by decide, by decide⟩, by decide, by decide⟩ ⟨by decide, by decide⟩ ⟨by decide, by decide⟩ authUser authPass
      (h.imp fun b e hb => hb.imp fun _ _ _ => ResumesAtItsLevel.permits)
  have hstart : QInv (initial authUser authPass).view ∧ LevelInv (initial authUser authPass).view := by
    refine ⟨(initial_phase L authUser authPass).queues, fun p level e he => ?_, by rintro _ _ ⟨⟩⟩
    cases he with
    | conn hc => cases hc
    | orphan ho => cases ho
  have hend := hrun.invariant (I := fun s => QInv s ∧ LevelInv s)
    (fun s t ℓ hℓ hstep hs => ⟨hstep.inv hs.1, hstep.levelInv hs.1 hℓ.1 hℓ.2 hs.2⟩) hstart
  exact hend.2.encoded level connLevel hmem

/-- A message is queued while the subscriber is away; it comes back at this level, on address 9. -/
def resumption (level : Nat) : List (Event × Script) :=
  subscriberAndPublisher ++ [packetFrom 1 (.disconnect 0 (.ok {reasonCode := 0})), messageFrom 4 .qos1 7, (.accept, {}),
    packetFrom 9 (.connect (.ok {protocolLevel := level, cleanSession := false, clientId := [0x73]}))]

theorem run_encoded_resumption :
    Obs.encoded 4 4 ∈ (run {} (initial none none) (resumption 4)).env.trace ∧
    ∀ level connLevel, Obs.encoded level connLevel ∈ (run {} (initial none none) (resumption 4)).env.trace →
      level = connLevel :=
  ⟨by decide +kernel, run_encoded (by decide +kernel)⟩

/-- A session made at level 4 and resumed at level 5 gets its messages at level 4. -/
theorem not_reachable_encoded : ¬∀ (L : Limits) (b : MqttBroker), Reachable L b → ∀ level connLevel,
    Obs.encoded level connLevel ∈ b.env.trace → level = connLevel := by
  intro h
  have hmem : Obs.encoded 4 5 ∈ (run {} (initial none none) (resumption 5)).env.trace := by decide +kernel
  exact absurd (h {} _ ⟨none, none, resumption 5, rfl⟩ 4 5 hmem) (by decide)

/-! ### Handshakes -/

/-- May an entry leave its queue for this cause, after what has been noted? -/
def LawfulAfter (before : List Obs) (e : OutPub) (cause : Cause) : Prop :=
  (e.qos = .qos2 → (cause = .pubcomp ∧ Obs.pubrelIssued e.addr ∈ before) ∨ cause = .pubrecError ∨
    cause = .encodeFailure ∨ cause = .evicted ∨ cause = .sessionEnd) ∧
  (e.qos = .qos1 → (cause = .puback ∧ Obs.publishSent e.addr ∈ before) ∨
    cause = .encodeFailure ∨ cause = .evicted ∨ cause = .sessionEnd)

/-- Every entry that left did so lawfully. -/
def Handshakes (trace : List Obs) : Prop :=
  ∀ before e cause after, trace = before ++ Obs.left e cause :: after → LawfulAfter before e cause

theorem LawfulAfter.mono {before more : List Obs} {e : OutPub} {cause : Cause} (h : LawfulAfter before e cause) :
    LawfulAfter (before ++ more) e cause :=
  ⟨fun hq => (h.1 hq).imp (fun h => ⟨h.1, List.mem_append_left _ h.2⟩) id,
    fun hq => (h.2 hq).imp (fun h => ⟨h.1, List.mem_append_left _ h.2⟩) id⟩

theorem Handshakes.append {trace obs : List Obs} (h : Handshakes trace)
    (hobs : ∀ e cause, Obs.left e cause ∈ obs → LawfulAfter trace e cause) : Handshakes (trace ++ obs) := by
  intro before e cause after heq
  rcases List.append_eq_append_iff.mp heq with ⟨rest, rfl, hobs'⟩ | ⟨rest, htrace, hrest⟩
  · refine (hobs e cause ?_).mono
    rw [hobs']
    exact List.mem_append_right _ List.mem_cons_self
  · cases rest with
    | nil =>
      rw [List.append_nil] at htrace
      subst htrace
      refine hobs e cause ?_
      rw [← show Obs.left e cause :: after = obs from hrest]
      exact List.mem_cons_self
    | cons x xs =>
      obtain ⟨rfl, hxs⟩ := List.cons.inj hrest
      exact h before e cause xs htrace

/-- What a queue's entries say about the trace, and what has become of every entry. -/
structure HandshakeInv (s : QState) : Prop where
  sent : ∀ p level e, s.Holds p level e → e.state = .publishSent → Obs.publishSent e.addr ∈ s.trace
  released : ∀ p level e, s.Holds p level e → e.state = .pubrelSent → e.qos = .qos2 ∧ Obs.pubrelIssued e.addr ∈ s.trace
  lawful : Handshakes s.trace
  kept : ∀ a, Obs.enqueued a ∈ s.trace → s.Has a ∨ ∃ e cause, e.addr = a ∧ Obs.left e cause ∈ s.trace

/-- The steps that break no handshake. -/
def KeepsHandshakes (ℓ : Label) : Prop := ℓ ≠ .mute ∧ ℓ ≠ .pubackQos2 ∧ ℓ ≠ .takeover

theorem Leaves.lawful {ℓ : Label} {e : OutPub} {cause : Cause} {trace : List Obs} (h : Leaves ℓ e cause)
    (hℓ : KeepsHandshakes ℓ) (hsent : e.state = .publishSent → Obs.publishSent e.addr ∈ trace)
    (hreleased : e.state = .pubrelSent → e.qos = .qos2 ∧ Obs.pubrelIssued e.addr ∈ trace) :
    LawfulAfter trace e cause := by
  cases h with
  | acked h =>
    cases h with
    | puback hs hq => exact ⟨fun h2 => absurd h2 hq, fun _ => .inl ⟨rfl, hsent hs⟩⟩
    | pubackQos2 => exact absurd rfl hℓ.2.1
    | pubrecError hs hq => exact ⟨fun _ => .inr (.inl rfl), fun h1 => absurd (hq.symm.trans h1) (by decide)⟩
    | pubcomp hs =>
      obtain ⟨hq, hmem⟩ := hreleased hs
      exact ⟨fun _ => .inl ⟨rfl, hmem⟩, fun h1 => absurd (hq.symm.trans h1) (by decide)⟩
  | unsent h =>
    cases h with
    | encodeFailure => exact ⟨fun _ => .inr (.inr (.inl rfl)), fun _ => .inr (.inl rfl)⟩
    | qos0Cut hq => exact ⟨fun h => absurd (hq.symm.trans h) (by decide), fun h => absurd (hq.symm.trans h) (by decide)⟩
  | qos0Sent hq => exact ⟨fun h => absurd (hq.symm.trans h) (by decide), fun h => absurd (hq.symm.trans h) (by decide)⟩
  | evicted => exact ⟨fun _ => .inr (.inr (.inr (.inl rfl))), fun _ => .inr (.inr (.inl rfl))⟩
  | sessionEnd => exact ⟨fun _ => .inr (.inr (.inr (.inr rfl))), fun _ => .inr (.inr (.inr rfl))⟩
  | takenOver h =>
    have hq : e.qos = .qos0 := not_not.mp fun hne => hℓ.2.2 (h hne)
    exact ⟨fun h => absurd (hq.symm.trans h) (by decide), fun h => absurd (hq.symm.trans h) (by decide)⟩

theorem QStep.handshakeInv {L : Limits} {ℓ : Label} {s t : QState} (h : QStep L ℓ s t) (hs : QInv s)
    (hℓ : KeepsHandshakes ℓ) (hinv : HandshakeInv s) : HandshakeInv t := by
  obtain ⟨source, born, hsource⟩ := h.sourced hs hℓ.1
  obtain ⟨obs, htrace, hnoted⟩ := h.notes hs
  have hgrows : ∀ {o : Obs}, o ∈ s.trace → o ∈ t.trace := fun hmem => htrace ▸ List.mem_append_left _ hmem
  refine ⟨fun p level e he hstate => ?_, fun p level e he hstate => ?_, ?_, fun a hmem => ?_⟩
  · rcases hsource.comes p level e he with ⟨level₀, e₀, he₀, hturned, -⟩ | ⟨-, hfresh⟩
    · rw [hturned.addr]
      rcases hturned.state with h | h | ⟨-, hmem⟩ | ⟨h, -⟩
      · exact hgrows (hinv.sent _ _ _ he₀ (h.symm.trans hstate))
      · exact absurd (h.symm.trans hstate) (by decide)
      · exact hmem
      · exact absurd (h.symm.trans hstate) (by decide)
    · exact absurd (hfresh.state.symm.trans hstate) (by decide)
  · rcases hsource.comes p level e he with ⟨level₀, e₀, he₀, hturned, -⟩ | ⟨-, hfresh⟩
    · have hqos : e.qos = e₀.qos := congrArg (fun k : Nat × QoS × Nat => k.2.1) hturned.key
      rw [hturned.addr, hqos]
      rcases hturned.state with h | h | ⟨h, -⟩ | ⟨-, hq, hmem⟩
      · obtain ⟨hq, hmem⟩ := hinv.released _ _ _ he₀ (h.symm.trans hstate)
        exact ⟨hq, hgrows hmem⟩
      · exact absurd (h.symm.trans hstate) (by decide)
      · exact absurd (h.symm.trans hstate) (by decide)
      · exact ⟨hq, hmem⟩
    · exact absurd (hfresh.state.symm.trans hstate) (by decide)
  · rw [htrace]
    refine hinv.lawful.append fun e cause hmem => ?_
    obtain ⟨⟨p, level, he⟩, hleaves⟩ := hnoted.left e cause hmem
    exact hleaves.lawful hℓ (hinv.sent p level e he) (hinv.released p level e he)
  · rw [htrace] at hmem
    rcases List.mem_append.mp hmem with hmem | hmem
    · rcases hinv.kept a hmem with ⟨p, level, e, he, rfl⟩ | ⟨e, cause, ha, hleft⟩
      · exact (h.goes hs he).imp id fun ⟨cause, hleft⟩ => ⟨e, cause, rfl, hleft⟩
      · exact .inr ⟨e, cause, ha, hgrows hleft⟩
    · exact .inl (hnoted.enqueued a hmem)

instance (c : BrokerClient) : Decidable c.Spent :=
  inferInstanceAs (Decidable ((∀ e ∈ c.outQ.chain, e.qos = .qos0) ∧ (c.protocolLevel < level5 → c.hasWill = false)))

/-- No PUBACK names a QoS 2 message, and no connection whose session lives on is taken over
while it has, or still gets, messages above QoS 0. -/
def RespectsHandshakes (L : Limits) (b : MqttBroker) (a : Nat) : InPacket → Prop
  | .connect (.ok mc) => Accepts L b a mc → ∀ c ∈ b.client? a,
      ∀ old ∈ findByClientId b (connectId c b.nextAutoId mc) a, survivesTakeover mc old = true → old.Spent
  | .publishAck (.ok packetId) => ∀ c ∈ b.client? a, ∀ e ∈ findOutPub c packetId .publishSent, e.qos ≠ .qos2
  | _ => True

instance (L : Limits) (b : MqttBroker) (a : Nat) (p : InPacket) : Decidable (RespectsHandshakes L b a p) :=
  match p with
  | .connect (.ok mc) => inferInstanceAs (Decidable (Accepts L b a mc → ∀ c ∈ b.client? a,
      ∀ old ∈ findByClientId b (connectId c b.nextAutoId mc) a, survivesTakeover mc old = true → old.Spent))
  | .publishAck (.ok packetId) => inferInstanceAs (Decidable (∀ c ∈ b.client? a,
      ∀ e ∈ findOutPub c packetId .publishSent, e.qos ≠ .qos2))
  | .publishAck (.error _) | .connect (.error _) | .publish _ | .publishRec _ | .publishRel _ | .publishComp _
  | .subscribe _ | .unsubscribe _ | .pingReq _ | .disconnect _ _ | .unhandled => .isTrue trivial

theorem RespectsHandshakes.permits {L : Limits} {b : MqttBroker} {a : Nat} {p : InPacket} (h : RespectsHandshakes L b a p) :
    Permits L KeepsHandshakes b a p := by
  unfold Permits
  split
  · intro haccepts c hc
    refine ⟨fun old hold hs => .inr (h haccepts c hc old hold hs), fun _ _ _ => .inr (.inr ?_)⟩
    exact ⟨by decide, by decide, by decide⟩
  · exact fun c e hc he hq => absurd hq (h c hc e he)
  · trivial

theorem outQueues_of_holds {b : MqttBroker} {p : Place} {level : Nat} {e : OutPub} (h : b.view.Holds p level e) :
    ∃ q ∈ b.outQueues, e ∈ q.chain := by
  cases h with
  | conn hc he =>
    obtain ⟨x, hx, rfl⟩ := List.mem_map.mp (Chain.at?_mem hc)
    exact ⟨x.outQ, List.mem_append_left _ (List.mem_map_of_mem hx), he⟩
  | orphan ho he =>
    obtain ⟨x, hx, rfl⟩ := List.mem_map.mp (Chain.at?_mem ho)
    exact ⟨x.outQ, List.mem_append_right _ (List.mem_map_of_mem hx), he⟩

/-- As long as nobody breaks a handshake from outside, every message above QoS 0 that was queued
is still in a queue, or has left as its handshake allows. -/
theorem run_handshakes {L : Limits} {authUser authPass : Option Bytes} {es : List (Event × Script)}
    (h : Along (step L) (OnPacket L (RespectsHandshakes L)) (initial authUser authPass) es) :
    Handshakes (run L (initial authUser authPass) es).env.trace ∧
    ∀ a, Obs.enqueued a ∈ (run L (initial authUser authPass) es).env.trace →
      (∃ q ∈ (run L (initial authUser authPass) es).outQueues, ∃ e ∈ q.chain, e.addr = a) ∨
      ∃ e cause, e.addr = a ∧ Obs.left e cause ∈ (run L (initial authUser authPass) es).env.trace := by
  have hrun : QRun L KeepsHandshakes (initial authUser authPass).view (run L (initial authUser authPass) es).view :=
    run_qrun ⟨⟨by decide, by decide, by decide⟩, by decide, by decide, by decide⟩ ⟨by decide, by decide, by decide⟩
      ⟨by decide, by decide, by decide⟩
      authUser authPass (h.imp fun b e hb => hb.imp fun _ _ _ => RespectsHandshakes.permits)
  have hnone : ∀ p level e, ¬(initial authUser authPass).view.Holds p level e := by
    intro p level e he
    cases he with
    | conn hc => cases hc
    | orphan ho => cases ho
  have hstart : QInv (initial authUser authPass).view ∧ HandshakeInv (initial authUser authPass).view := by
    refine ⟨(initial_phase L authUser authPass).queues, fun p level e he => absurd he (hnone p level e),
      fun p level e he => absurd he (hnone p level e), fun before e cause after heq => ?_, fun a ha => by cases ha⟩
    exact absurd heq (by simp [MqttBroker.view, initial])
  have hend := hrun.invariant (I := fun s => QInv s ∧ HandshakeInv s)
    (fun s t ℓ hℓ hstep hs => ⟨hstep.inv hs.1, hstep.handshakeInv hs.1 hℓ hs.2⟩) hstart
  refine ⟨hend.2.lawful, fun a ha => ?_⟩
  refine (hend.2.kept a ha).imp ?_ id
  rintro ⟨p, level, e, he, haddr⟩
  obtain ⟨q, hq, he⟩ := outQueues_of_holds he
  exact ⟨q, hq, e, he, haddr⟩

/-- A QoS 1 message goes through its handshake. -/
theorem run_handshakes_puback :
    (Obs.enqueued 7 ∈ (run {} (initial none none) (subscriberAndPublisher ++
      [messageFrom 4 .qos1 7, packetFrom 1 (.publishAck (.ok 1))])).env.trace) ∧
    Handshakes (run {} (initial none none) (subscriberAndPublisher ++
      [messageFrom 4 .qos1 7, packetFrom 1 (.publishAck (.ok 1))])).env.trace :=
  ⟨by decide +kernel, (run_handshakes (by decide +kernel)).1⟩

/-- A PUBACK completes a QoS 2 delivery. -/
theorem not_reachable_handshakes : ¬∀ (L : Limits) (b : MqttBroker), Reachable L b → Handshakes b.env.trace := by
  intro h
  let b := run {} (initial none none) (subscriberAndPublisher ++ [messageFrom 4 .qos2 7, packetFrom 1 (.publishAck (.ok 1))])
  have hany : b.env.trace.any (fun o => match o with | .left e .puback => e.qos = .qos2 | _ => false) = true := by
    decide +kernel
  obtain ⟨o, hmem, ho⟩ := List.any_eq_true.mp hany
  split at ho
  · rename_i e
    obtain ⟨before, after, heq⟩ := List.append_of_mem hmem
    have hlawful := (h {} b ⟨none, none, _, rfl⟩ before e .puback after heq).1 (by simpa using ho)
    simp at hlawful
  · cases ho

end WolfMqtt.Broker
