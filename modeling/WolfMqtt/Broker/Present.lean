import WolfMqtt.Broker.Session
import WolfMqtt.Broker.Takeover

/-! Accepted CONNECTs: what the CONNACK says about the session, and the Session Expiry.

A CONNECT counts as accepted when a CONNACK with return code 0 goes to its connection
while it is handled. -/
namespace WolfMqtt.Broker

section accepted
variable {L : Limits} {b : MqttBroker} {a : Nat} {mc : InConnect}

/-- While the CONNECT is handled, a CONNACK that accepts it goes out with these flags. -/
def Accepted (L : Limits) (b : MqttBroker) (a : Nat) (mc : InConnect) (flags : UInt8) : Prop :=
  ∃ obs, (handleConnect L a (.ok mc) b).2.env.trace = b.env.trace ++ obs ∧ .connack a flags ackCodeAccepted ∈ obs

instance (L : Limits) (b : MqttBroker) (a : Nat) (mc : InConnect) (flags : UInt8) : Decidable (Accepted L b a mc flags) :=
  decidable_of_iff (b.env.trace <+: (handleConnect L a (.ok mc) b).2.env.trace ∧
      .connack a flags ackCodeAccepted ∈ (handleConnect L a (.ok mc) b).2.env.trace.drop b.env.trace.length) (by
    constructor
    · rintro ⟨⟨obs, htrace⟩, hmem⟩
      rw [← htrace, List.drop_left] at hmem
      exact ⟨obs, htrace.symm, hmem⟩
    · rintro ⟨obs, htrace, hmem⟩
      rw [htrace, List.drop_left]
      exact ⟨List.prefix_append _ _, hmem⟩)

/-- The orphan session a CONNECT resumes. -/
def resumable (b : MqttBroker) (mc : InConnect) (clientId : Bytes) : Option OrphanSession :=
  if mc.cleanSession then none else orphanFind b clientId

theorem Connacks.of_accepted {Q : Nat → UInt8 → UInt8 → Prop} {flags : UInt8} (h : Accepted L b a mc flags)
    (hQ : Connacks Q b (handleConnect L a (.ok mc) b).2) : Q a flags ackCodeAccepted := by
  obtain ⟨obs, htrace, hmem⟩ := h
  obtain ⟨obs', htrace', hall⟩ := hQ
  obtain rfl : obs = obs' := List.append_cancel_left (htrace.symm.trans htrace')
  exact hall _ _ _ hmem

/-- A CONNECT that fails a check gets no other return code than a refusal. -/
theorem refused_connacks (h : Handling L b a (.connect (.ok mc))) (hrefuses : ¬Accepts L b a mc) :
    Connacks (fun _ _ code => code ≠ ackCodeAccepted) b (handleConnect L a (.ok mc) b).2 := by
  obtain ⟨c, hc, -⟩ := h.connect
  obtain ⟨code, t, n, hcode, hchecks, heq⟩ := handleConnect_refused hrefuses hc
  have haddr : t.c.addr = a := hchecks.addr.trans (Chain.at?_addr hc)
  have hc₁ : (b.withClient a t n).client? a = some t.c := withClient_client? hc haddr
  have hchecked : Connacks (fun _ _ code => code ≠ ackCodeAccepted) b (b.withClient a t n) := .of_eq hchecks.trace
  rw [heq]
  refine hchecked.trans ?_
  obtain ⟨obs, htrace, hall⟩ := sendConnAck_connacks (L := L) hc₁ 0 (refusal mc code)
  refine ⟨obs, ?_, fun conn flags code' hmem => ?_⟩
  · rw [onClient_some hc₁] at htrace ⊢
    exact htrace
  · obtain ⟨-, -, hcode'⟩ := hall conn flags code' hmem
    rw [hcode']
    exact hcode

/-- What an accepted CONNECT says about its session, and what becomes of its Session Expiry. -/
theorem Accepted.spec {flags : UInt8} (h : Handling L b a (.connect (.ok mc))) (haccepted : Accepted L b a mc flags)
    {c : BrokerClient} (hc : b.client? a = some c) :
    flags = (if (resumable b mc (connectId c b.nextAutoId mc)).isSome || carried b a mc (connectId c b.nextAutoId mc)
      then 1 else 0) ∧
    ∃ c₁ c', Passed mc (connectId c b.nextAutoId mc) c₁ ∧ (handleConnect L a (.ok mc) b).2.client? a = some c' ∧
      c'.sessionExpirySec = (c₁.resumeFrom (resumable b mc (connectId c b.nextAutoId mc))).sessionExpirySec := by
  have haccepts : Accepts L b a mc := by
    by_contra hrefuses
    exact Connacks.of_accepted haccepted (refused_connacks h hrefuses) rfl
  obtain ⟨auto, b₁, hopens⟩ := handleConnect_opens h haccepts hc
  generalize connectId c b.nextAutoId mc = clientId at hopens ⊢
  obtain ⟨c₁, hc₁, hpassed, he, hidle, hpend, hrefused⟩ := hopens.client
  have horphan : orphanFind b₁ clientId = orphanFind b clientId := by rw [orphanFind, hopens.orphans]; rfl
  obtain ⟨orphan, horphan', hpresent, c₂, hc₂, hmine⟩ :=
    adoptSession_spec (L := L) hopens.phase hc₁ he hopens.free mc hpassed.clientId
  rw [horphan] at horphan'
  rw [claimSession_result hopens h.phase h.unsubscribed, horphan'] at hpresent
  have hadopt : Advances L (· ≠ .answer) (fun _ => True) (· = a) b₁ (adoptSession L a mc clientId b₁).2 :=
    hopens.adopt_advances ⟨by decide, by decide⟩ (by decide) (by decide)
  have hwill := storeWill_advances (L := L) (P := (· ≠ .answer)) (Z := fun _ => True) (by decide) hadopt.phase hopens.awaits mc
  obtain ⟨c₃, hc₃, hkept₃⟩ := onClient_kept hc₂ () (storeWill_keeps (L := L) mc)
  obtain ⟨c', hc', hkept'⟩ := acceptConnect_kept (L := L) hc₃ mc auto (adoptSession L a mc clientId b₁).1
  have hconnacks := (Connacks.of_eq hopens.trace).trans <| (hadopt.connacks hopens.phase).trans <|
    (hwill.1.connacks hadopt.phase).trans <|
      acceptConnect_connacks hwill.1.phase rfl hwill.2 mc auto (adoptSession L a mc clientId b₁).1
  rw [← hopens.rest] at hconnacks hc'
  obtain ⟨hflags, hsome⟩ := (Connacks.of_accepted haccepted hconnacks).2 rfl
  rw [hpresent] at hflags
  refine ⟨hflags, c₁, c', hpassed, hc', ?_⟩
  rw [hsome] at hkept'
  have hexpiry : c'.sessionExpirySec = c₂.sessionExpirySec :=
    congrArg (·.sessionExpirySec) (hkept'.trans hkept₃)
  have hadopted : c₂.sessionExpirySec = (c₁.resumeFrom orphan).sessionExpirySec := congrArg (·.sessionExpirySec) hmine
  rw [hexpiry, hadopted, horphan']
  rfl

/-! ### Session Present -/

/-- A connection other than the one at `a` has a session under the client id that outlives it. -/
def LiveSession (b : MqttBroker) (a : Nat) (clientId : Bytes) : Prop :=
  ∃ c ∈ b.clients, c.addr ≠ a ∧ c.sessionEstablished = true ∧ c.clientId = some clientId ∧ c.sessionExpirySec ≠ 0

instance (b : MqttBroker) (a : Nat) (clientId : Bytes) : Decidable (LiveSession b a clientId) :=
  inferInstanceAs (Decidable (∃ c ∈ b.clients, _))

/-- The broker holds a session under the client id that has not expired at time `t`. -/
def HoldsSession (b : MqttBroker) (a : Nat) (clientId : Bytes) (t : Nat) : Prop :=
  LiveSession b a clientId ∨ ∃ o, orphanFind b clientId = some o ∧ orphanExpired t o = false

/-- Is there anything of a session for a CONNECT to carry over: a subscription under the client
id, or a QoS 2 identifier of the connection it takes over? -/
def Telltale (b : MqttBroker) (a : Nat) (clientId : Bytes) : Prop :=
  (∃ old, findByClientId b clientId a = some old ∧ old.sessionExpirySec ≠ 0 ∧
      (0 < ownedSubs b clientId ∨ oldPersists old = true ∧ qos2HasPending old = true)) ∨
    findByClientId b clientId a = none ∧ 0 < ownedSubs b clientId

/-- What a CONNECT finds under its client id says whether a session is there: an orphan in its
time, or without an orphan a telltale exactly when a connection has the session. -/
def Telling (b : MqttBroker) (a : Nat) (clientId : Bytes) (t : Nat) : Prop :=
  (∀ o, orphanFind b clientId = some o → orphanExpired t o = false ∨ LiveSession b a clientId) ∧
    (orphanFind b clientId = none → (LiveSession b a clientId ↔ Telltale b a clientId))

theorem carried_iff (hclean : mc.cleanSession = false) (clientId : Bytes) :
    carried b a mc clientId = true ↔ Telltale b a clientId := by
  unfold carried Telltale
  cases findByClientId b clientId a with
  | some old => simp [survivesTakeover, hclean]
  | none => simp [hclean]

/-- The CONNACK says whether the broker held a session, if and only if the CONNECT starts clean
or what it finds is telling. -/
theorem sessionPresent_iff {flags : UInt8} (h : Handling L b a (.connect (.ok mc))) (haccepted : Accepted L b a mc flags)
    {c : BrokerClient} (hc : b.client? a = some c) (t : Nat) :
    (flags = 1 ↔ mc.cleanSession = false ∧ HoldsSession b a (connectId c b.nextAutoId mc) t) ↔
      (mc.cleanSession = true ∨ Telling b a (connectId c b.nextAutoId mc) t) := by
  obtain ⟨hflags, -⟩ := haccepted.spec h hc
  generalize connectId c b.nextAutoId mc = clientId at hflags ⊢
  have hone : flags = 1 ↔ (resumable b mc clientId).isSome = true ∨ carried b a mc clientId = true := by
    rw [hflags, ← Bool.or_eq_true]
    cases (resumable b mc clientId).isSome || carried b a mc clientId <;> decide
  rw [hone]
  cases hclean : mc.cleanSession with
  | true =>
    have hcarried : carried b a mc clientId = false := by
      unfold carried
      cases findByClientId b clientId a <;> simp [survivesTakeover, hclean]
    simp [resumable, hclean, hcarried]
  | false =>
    rw [carried_iff hclean, resumable, hclean]
    unfold Telling HoldsSession
    cases orphanFind b clientId with
    | none =>
      simp
      exact Iff.comm
    | some o =>
      simp
      exact or_comm

end accepted

/-- A subscriber comes back while its first connection is still there, and a message is on its
way to it: it is told of its session. -/
theorem sessionPresent_secondConnection :
    Accepted {} (secondConnection .qos1) 8 subscriberReturns 1 ∧
      ∃ c, (secondConnection .qos1).client? 8 = some c ∧
        HoldsSession (secondConnection .qos1) 8 (connectId c (secondConnection .qos1).nextAutoId subscriberReturns) 0 := by
  have hsome : (dispatched {} (run {} (initial none none) (subscriberAndPublisher ++ [messageFrom 4 .qos1 7, (.accept, {})]))
      (packetFrom 8 (.connect (.ok subscriberReturns)))).isSome = true := by decide +kernel
  have haccepted : Accepted {} (secondConnection .qos1) 8 subscriberReturns 1 := by decide +kernel
  have hclient : ((secondConnection .qos1).client? 8).isSome = true := by decide +kernel
  have hfound : ∀ c ∈ (secondConnection .qos1).client? 8,
      LiveSession (secondConnection .qos1) 8 (connectId c (secondConnection .qos1).nextAutoId subscriberReturns) ∧
      (findByClientId (secondConnection .qos1) (connectId c (secondConnection .qos1).nextAutoId subscriberReturns) 8).any
        (fun old => old.sessionExpirySec ≠ 0) = true ∧
      0 < ownedSubs (secondConnection .qos1) (connectId c (secondConnection .qos1).nextAutoId subscriberReturns) := by
    decide +kernel
  obtain ⟨c, hc⟩ := Option.isSome_iff_exists.mp hclient
  have hhandling : Handling {} (secondConnection .qos1) 8 (.connect (.ok subscriberReturns)) :=
    .of_packetFrom ⟨none, none, _, rfl⟩ hsome
  have hiff := sessionPresent_iff hhandling haccepted hc 0
  obtain ⟨hlive, hold, hsubs⟩ := hfound c hc
  obtain ⟨old, hold, hexpiry⟩ := (Option.any_eq_true _ _).mp hold
  have htelltale : Telltale _ _ _ := .inl ⟨old, hold, of_decide_eq_true hexpiry, .inl hsubs⟩
  have htold := hiff.mpr (.inr ⟨fun _ _ => .inr hlive, fun _ => iff_of_true hlive htelltale⟩)
  exact ⟨haccepted, c, hc, (htold.mp rfl).2⟩

/-- A client that subscribed to nothing comes back on another connection, at address 3. -/
def bareReturn : MqttBroker :=
  readied {} (run {} (initial none none) [(.accept, {}), packetFrom 1 (.connect (.ok subscriberReturns)), (.accept, {})]) 3

/-- It is told that it has no session. -/
theorem not_sessionPresent : ∃ L b a mc flags c t, Handling L b a (.connect (.ok mc)) ∧ Accepted L b a mc flags ∧
    b.client? a = some c ∧
    ¬(flags = 1 ↔ mc.cleanSession = false ∧ HoldsSession b a (connectId c b.nextAutoId mc) t) := by
  have hsome : (dispatched {} (run {} (initial none none)
      [(.accept, {}), packetFrom 1 (.connect (.ok subscriberReturns)), (.accept, {})])
      (packetFrom 3 (.connect (.ok subscriberReturns)))).isSome = true := by decide +kernel
  have hclient : (bareReturn.client? 3).isSome = true := by decide +kernel
  have hlive : ∀ c ∈ bareReturn.client? 3, LiveSession bareReturn 3 (connectId c bareReturn.nextAutoId subscriberReturns) := by
    decide +kernel
  obtain ⟨c, hc⟩ := Option.isSome_iff_exists.mp hclient
  refine ⟨{}, bareReturn, 3, subscriberReturns, 0, c, 0, .of_packetFrom ⟨none, none, _, rfl⟩ hsome, by decide +kernel, hc, ?_⟩
  intro hiff
  exact absurd (hiff.mpr ⟨rfl, .inl (hlive c hc)⟩) (by decide)

/-! ### Session Expiry -/

section expiry
variable {L : Limits} {b : MqttBroker} {a : Nat} {mc : InConnect}

/-- The Session Expiry of an accepted CONNECT is what it asked for. A level 4 session that is
resumed keeps the one it was left with. -/
theorem accepted_sessionExpiry {flags : UInt8} (h : Handling L b a (.connect (.ok mc)))
    (haccepted : Accepted L b a mc flags) {c : BrokerClient} (hc : b.client? a = some c) :
    ∃ c', (handleConnect L a (.ok mc) b).2.client? a = some c' ∧
      (mc.protocolLevel = level5 →
        (expiryProp mc = some neverExpires → resumable b mc (connectId c b.nextAutoId mc) = none) →
        c'.sessionExpirySec = (expiryProp mc).getD 0) ∧
      (mc.protocolLevel = level4 → c'.sessionExpirySec =
        if mc.cleanSession then 0
        else ((orphanFind b (connectId c b.nextAutoId mc)).map (·.sessionExpirySec)).getD neverExpires) := by
  obtain ⟨-, c₁, c', hpassed, hc', hexpiry⟩ := haccepted.spec h hc
  generalize connectId c b.nextAutoId mc = clientId at hpassed hexpiry ⊢
  have hasked := hpassed.expiry
  refine ⟨c', hc', fun hlevel hnever => ?_, fun hlevel => ?_⟩
  · have hdefault : defaultExpiry mc = 0 := by simp [defaultExpiry, hlevel]
    rw [hdefault] at hasked
    rw [hexpiry]
    cases hres : resumable b mc clientId with
    | none => exact hasked
    | some o =>
      have hne : (expiryProp mc).getD 0 ≠ neverExpires := by
        cases hprop : expiryProp mc with
        | none => decide
        | some n =>
          rintro rfl
          rw [hnever hprop] at hres
          cases hres
      show (if c₁.sessionExpirySec = neverExpires then _ else c₁.sessionExpirySec) = _
      rw [hasked, if_neg hne]
  · have hprop : expiryProp mc = none := by
      simp only [expiryProp, hlevel]
      rfl
    rw [hprop, Option.getD_none] at hasked
    rw [hexpiry, resumable]
    cases hclean : mc.cleanSession with
    | true =>
      have hdefault : defaultExpiry mc = 0 := by simp [defaultExpiry, hclean]
      exact hasked.trans hdefault
    | false =>
      have hdefault : defaultExpiry mc = neverExpires := by
        simp only [defaultExpiry, hlevel, hclean]
        rfl
      rw [hdefault] at hasked
      cases hfind : orphanFind b clientId with
      | none => exact hasked
      | some o =>
        show (if c₁.sessionExpirySec = neverExpires then o.sessionExpirySec else c₁.sessionExpirySec) = _
        rw [if_pos hasked]
        rfl

end expiry

/-- A client that left a level 5 session with an expiry of 100 seconds comes back at level 4, on
the connection at address 7. -/
def levelReturn : MqttBroker :=
  readied {} (run {} (initial none none)
    [(.accept, {}),
     packetFrom 1 (.connect (.ok {protocolLevel := 5, cleanSession := false, clientId := [0x73],
                                  props := [{type := .sessionExpiryInterval, dataInt := 100}]})),
     packetFrom 1 (.disconnect 0 (.ok {reasonCode := 0})), (.accept, {})]) 7

theorem levelReturn_handling : Handling {} levelReturn 7 (.connect (.ok subscriberReturns)) := by
  refine .of_packetFrom ⟨none, none, _, rfl⟩ ?_
  decide +kernel

/-- It finds the expiry of the session it left. -/
theorem accepted_sessionExpiry_levelReturn : ∃ c', (handleConnect {} 7 (.ok subscriberReturns) levelReturn).2.client? 7 = some c' ∧
    c'.sessionExpirySec = 100 := by
  have haccepted : Accepted {} levelReturn 7 subscriberReturns 1 := by decide +kernel
  have hclient : (levelReturn.client? 7).isSome = true := by decide +kernel
  have hfound : ∀ c ∈ levelReturn.client? 7, (orphanFind levelReturn (connectId c levelReturn.nextAutoId subscriberReturns)).map
      (·.sessionExpirySec) = some 100 := by decide +kernel
  obtain ⟨c, hc⟩ := Option.isSome_iff_exists.mp hclient
  obtain ⟨c', hc', -, hlevel4⟩ := accepted_sessionExpiry levelReturn_handling haccepted hc
  refine ⟨c', hc', (hlevel4 rfl).trans ?_⟩
  rw [hfound c hc]
  rfl

/-- A level 4 session that does not start clean may expire. -/
theorem not_accepted_neverExpires : ∃ L b a mc flags c', Handling L b a (.connect (.ok mc)) ∧ Accepted L b a mc flags ∧
    mc.protocolLevel = level4 ∧ mc.cleanSession = false ∧
    (handleConnect L a (.ok mc) b).2.client? a = some c' ∧ c'.sessionExpirySec ≠ neverExpires := by
  have hexpiry : ((handleConnect {} 7 (.ok subscriberReturns) levelReturn).2.client? 7).map (·.sessionExpirySec) = some 100 := by
    decide +kernel
  obtain ⟨c', hc', h100⟩ := Option.map_eq_some_iff.mp hexpiry
  refine ⟨{}, levelReturn, 7, subscriberReturns, 1, c', levelReturn_handling, by decide +kernel, rfl, rfl, hc', ?_⟩
  rw [h100]
  decide

end WolfMqtt.Broker
