import WolfMqtt.Broker.Session
import WolfMqtt.Broker.Takeover

/-! Who has the session under a client id.

An accepted CONNECT removes the connection it finds under its client id before it goes
on. As long as that is the one with the session, no two connections ever have a session
under the same id. -/
namespace WolfMqtt.Broker

/-- No two connections have a session under the same client id. -/
def OneOwner (b : MqttBroker) : Prop :=
  ∀ c ∈ b.clients, ∀ c' ∈ b.clients, c.sessionEstablished = true → c'.sessionEstablished = true →
    c.clientId = c'.clientId → c.addr = c'.addr

/-- An accepted CONNECT finds the connection that has the session under its client id, if there
is one: none that was refused stands before it in the list. -/
def FindsOwner (L : Limits) (b : MqttBroker) (a : Nat) : InPacket → Prop
  | .connect (.ok mc) => Accepts L b a mc → ∀ c ∈ b.client? a, ∀ owner ∈ b.clients, owner.addr ≠ a →
      owner.sessionEstablished = true → owner.clientId = some (connectId c b.nextAutoId mc) →
      findByClientId b (connectId c b.nextAutoId mc) a = some owner
  | _ => True

instance (L : Limits) (b : MqttBroker) (a : Nat) : (p : InPacket) → Decidable (FindsOwner L b a p)
  | .connect (.ok mc) => inferInstanceAs (Decidable (Accepts L b a mc → ∀ c ∈ b.client? a, ∀ owner ∈ b.clients, _))
  | .connect (.error _) | .publish _ | .publishAck _ | .publishRec _ | .publishRel _ | .publishComp _ | .subscribe _
  | .unsubscribe _ | .pingReq _ | .disconnect _ _ | .unhandled => isTrue trivial

section owner
variable {L : Limits} {b b' : MqttBroker} {a : Nat}

theorem Roster.oneOwner (h : Roster Nowhere b b') (hone : OneOwner b) : OneOwner b' := by
  intro c hc c' hc' he he' hid
  obtain ⟨x, hx, haddr, hxid, hxe⟩ := h c hc he id
  obtain ⟨x', hx', haddr', hxid', hxe'⟩ := h c' hc' he' id
  rw [← haddr, ← haddr']
  exact hone x hx x' hx' hxe hxe' (hxid.trans (hid.trans hxid'.symm))

theorem clientRemove_gone {X : Nat → Prop} (hb : Phase L X b) (x : Nat) (cause : Cause) :
    (clientRemove x cause b).2.client? x = none := by
  cases hc : b.client? x with
  | none =>
    rw [clientRemove_none hc]
    exact hc
  | some c =>
    rw [clientRemove_some hc]
    by_contra hne
    obtain ⟨c', hc'⟩ := Option.ne_none_iff_exists'.mp hne
    exact ((Chain.mem_removeAt hb.nodup).mp (Chain.at?_mem hc')).2 (Chain.at?_addr hc')

/-- The connection that is taken over is gone. -/
theorem takeover_gone {X : Nat → Prop} (hb : Phase L X b) (ha : b.Established a) (hna : ¬b.Subscribed a) (mc : InConnect)
    (clientId : Bytes) {old : BrokerClient} (hne : a ≠ old.addr) :
    (takeover L a mc clientId old b).2.client? old.addr = none := by
  have hP : Ordinary (fun _ => True) := ⟨trivial, trivial⟩
  have hclose := closeTakenOver_claims (L := L) (Z := fun _ => True) hP hb hne hna
  have hcarry := carryOver_claims (L := L) (P := fun _ => True) (Z := fun _ => True) hclose.phase (hclose.established ha) hne
    (survivesTakeover mc old) clientId
  have hremove := subsRemoveClient_claims (L := L) (P := fun _ => True) (Z := fun _ => True) hcarry.phase hne
  exact clientRemove_gone hremove.phase old.addr _

theorem orphanReclaim_client?_ne {x : Nat} (hx : x ≠ a) : (orphanReclaim a b).2.client? x = b.client? x := by
  simp only [orphanReclaim, run_bind, run_get]
  cases hid : (b.client? a).bind (·.clientId) with
  | none => rfl
  | some clientId =>
    simp only [run_bind, run_get]
    cases orphanFind b clientId with
    | none => rfl
    | some o => exact updateClient_client?_ne (f := (BrokerClient.resume · o)) (fun _ h => h) hx

/-- A CONNECT that passed its checks removes the connection it finds. -/
theorem adoptSession_gone {mc : InConnect} {clientId : Bytes} {auto : Bool} {b₁ : MqttBroker}
    (h : Opens L b a mc clientId auto b₁) {old : BrokerClient} (hold : findByClientId b clientId a = some old) :
    (adoptSession L a mc clientId b₁).2.client? old.addr = none := by
  obtain ⟨c, hc, -, he, -⟩ := h.client
  have hcancel : Advances L (fun _ => True) (fun _ => True) (· = a) b₁ (pendingWillCancel clientId b₁).2 :=
    .of_same h.phase rfl rfl rfl
  obtain ⟨-, hne, -⟩ := findByClientId_some hold
  have hfound : findByClientId (pendingWillCancel clientId b₁).2 clientId a = some old := h.found.trans hold
  have hgone : (claimSession L a mc clientId (pendingWillCancel clientId b₁).2).2.client? old.addr = none := by
    simp only [claimSession, run_bind, run_get]
    rw [hfound]
    exact takeover_gone hcancel.phase ⟨c, hc, he⟩ h.free mc clientId hne.symm
  simp only [adoptSession, run_bind]
  generalize claimSession L a mc clientId (pendingWillCancel clientId b₁).2 = r at hgone ⊢
  obtain ⟨present, b₂⟩ := r
  cases mc.cleanSession with
  | true =>
    show Chain.at? (discardSession clientId b₂).2.clients old.addr = none
    rw [discardSession_client?]
    exact hgone
  | false => exact (orphanReclaim_client?_ne hne).trans hgone

/-- If the connection it finds is the owner, there is one owner again once it has its session. -/
theorem Opens.oneOwner {mc : InConnect} {clientId : Bytes} {auto : Bool} {b₁ : MqttBroker}
    (h : Opens L b a mc clientId auto b₁) (hone : OneOwner b)
    (hfinds : ∀ owner ∈ b.clients, owner.addr ≠ a → owner.sessionEstablished = true → owner.clientId = some clientId →
      findByClientId b clientId a = some owner) : OneOwner (adoptSession L a mc clientId b₁).2 := by
  have hadopt : Advances L (fun _ => True) Nowhere (· = a) b₁ (adoptSession L a mc clientId b₁).2 :=
    h.adopt_advances ⟨trivial, trivial⟩ trivial trivial
  obtain ⟨new, hnew, hpassed, -⟩ := h.client
  -- the connection at `a` is the only one left with its id
  have hother : ∀ c ∈ (adoptSession L a mc clientId b₁).2.clients, c.sessionEstablished = true →
      c.clientId = some clientId → c.addr = a := by
    intro c hc he hid
    obtain ⟨x, hx, haddr, hxid, hxe⟩ := hadopt.roster c hc he fun h => h
    by_contra hne
    rw [← haddr] at hne
    have hgone := adoptSession_gone h (hfinds x (h.mem_of_ne hx hne) hne hxe (hxid.trans hid))
    rw [haddr, hadopt.phase.client?_of_mem hc] at hgone
    cases hgone
  intro c hc c' hc' he he' hid
  obtain ⟨x, hx, haddr, hxid, hxe⟩ := hadopt.roster c hc he fun h => h
  obtain ⟨x', hx', haddr', hxid', hxe'⟩ := hadopt.roster c' hc' he' fun h => h
  have hown : ∀ y ∈ b₁.clients, y.addr = a → y.clientId = some clientId := by
    intro y hy hya
    have hat := h.phase.client?_of_mem hy
    rw [hya, hnew] at hat
    cases hat
    exact hpassed.clientId
  by_cases hxa : x.addr = a
  · have hcid : c.clientId = some clientId := hxid.symm.trans (hown x hx hxa)
    rw [hother c hc he hcid, hother c' hc' he' (hid.symm.trans hcid)]
  by_cases hxa' : x'.addr = a
  · have hcid' : c'.clientId = some clientId := hxid'.symm.trans (hown x' hx' hxa')
    rw [hother c hc he (hid.trans hcid'), hother c' hc' he' hcid']
  rw [← haddr, ← haddr']
  exact hone x (h.mem_of_ne hx hxa) x' (h.mem_of_ne hx' hxa') hxe hxe' (hxid.trans (hid.trans hxid'.symm))

/-- A CONNECT that finds the owner of the session leaves one owner. -/
theorem connect_oneOwner {decoded : Except DecodeError InConnect} (h : Handling L b a (.connect decoded))
    (hfinds : FindsOwner L b a (.connect decoded)) (hone : OneOwner b) : OneOwner (handleConnect L a decoded b).2 := by
  have hP : Ordinary (fun _ => True) := ⟨trivial, trivial⟩
  cases decoded with
  | error e => exact hone
  | ok mc =>
    obtain ⟨c, hc, -, -, hpend, hnew⟩ := h.connect
    by_cases haccepts : Accepts L b a mc
    · obtain ⟨auto, b₁, hopens⟩ := handleConnect_opens h haccepts hc
      have hadopted := hopens.oneOwner hone (hfinds haccepts c hc)
      have hadopt : Advances L (fun _ => True) Nowhere (· = a) b₁ _ := hopens.adopt_advances hP trivial trivial
      have hwill := storeWill_advances (L := L) (P := fun _ => True) (Z := Nowhere) trivial hadopt.phase hopens.awaits mc
      rw [hopens.rest]
      refine Roster.oneOwner ?_ hadopted
      exact (hwill.1.trans fun hb => acceptConnect_advances (P := fun _ => True) trivial trivial hb rfl hwill.2 mc auto _).roster
    · obtain ⟨code, t, n, -, hchecks, heq⟩ := handleConnect_refused haccepts hc
      have hchecked : Advances L (fun _ => True) Nowhere (· = a) b (b.withClient a t n) :=
        hchecks.advances hP (h.phase.mono fun _ h => h.elim) hc hnew n
      rw [heq]
      have hrest := hchecked.trans fun hb => refuseConnect_advances (P := fun _ => True) (Z := Nowhere) trivial hb rfl mc code
      exact hrest.roster.oneOwner hone

/-- An event in which a packet is handled: the packet, then the clock. -/
theorem step_of_dispatched {e : Event × Script} {p : InPacket} (h : dispatched L b e = some (a, p, b')) :
    step L b e = if (dispatch L a p b').1 = true then (checkTimeouts L a (dispatch L a p b').2).2 else (dispatch L a p b').2 := by
  obtain ⟨hgo, ⟨c, hc, hhears⟩, rfl⟩ := dispatched_some h
  obtain ⟨ev, script⟩ := e
  have hev : ev = .process a (.packet true p) := by
    unfold dispatched at h
    split at h
    · rename_i hev
      dsimp only at h hev
      split at h
      · cases h
        exact hev
      · cases h
    · cases h
  subst hev
  obtain ⟨hopen, hconn⟩ := Bool.and_eq_true_iff.mp hhears
  have hconn : c.connected ≠ p.isConnect := by simpa using hconn
  show (process L a (.packet true p) {b with env := b.env.arm script}).2 = _
  simp only [process, run_bind, hgo, if_true]
  generalize (finishWrites L a {b with env := b.env.arm script}).2 = b₂ at hc ⊢
  have hc₁ := stampRx_client? hc
  simp only [receive, run_bind, run_get, hc, hopen, Bool.not_true, Bool.false_eq_true, if_false, receivePacket, hc₁]
  generalize (stampRx a b₂).2 = b₃
  cases hp : p.isConnect <;> cases hcc : c.connected
  · exact absurd (hcc.trans hp.symm) hconn
  · simp only [Bool.not_false, Bool.not_true, Bool.false_eq_true, and_false, false_and, if_false, run_bind]
    split <;> rfl
  · simp only [Bool.not_false, Bool.not_true, Bool.false_eq_true, and_false, false_and, if_false, run_bind]
    split <;> rfl
  · exact absurd (hcc.trans hp.symm) hconn

theorem step_oneOwner (hreach : Reachable L b) {e : Event × Script} (hfinds : OnPacket L (FindsOwner L) b e)
    (hone : OneOwner b) : OneOwner (step L b e) := by
  have hP : Ordinary (fun _ => True) := ⟨trivial, trivial⟩
  have hb := hreach.phase
  by_cases hconnect : ∃ a decoded b', dispatched L b e = some (a, .connect decoded, b')
  · obtain ⟨a, decoded, b', hdisp⟩ := hconnect
    have hhandling : Handling L b' a (.connect decoded) := ⟨b, e, hreach, hdisp⟩
    have hbefore : Advances L (fun _ => True) Nowhere Nowhere b b' := dispatched_advances hP trivial hb hdisp
    have hhandled := connect_oneOwner hhandling (hfinds _ hdisp) (hbefore.roster.oneOwner hone)
    obtain ⟨c, hc, hopen, hconn, hpend, hnew⟩ := hhandling.connect
    obtain ⟨hadvances, hadm⟩ := handleConnect_advances (L := L) (P := fun _ => True) (X := (· = a)) (Z := fun _ => True) hP trivial
      (hbefore.phase.mono fun _ h => h.elim) rfl trivial hc hnew hpend decoded fun mc _ _ =>
        ⟨fun _ _ _ => .inl trivial, fun _ _ _ => .inr (.inr trivial)⟩
    have hafter : Advances L (fun _ => True) Nowhere Nowhere _ (dispatch L a (.connect decoded) b').2 :=
      afterConnect_advances hP trivial hadvances.phase hadm
    have hdispatch := hafter.roster.oneOwner hhandled
    rw [step_of_dispatched hdisp]
    split
    · exact (checkTimeouts_advances (L := L) (P := fun _ => True) (Z := Nowhere) hP trivial hafter.phase).roster.oneOwner hdispatch
    · exact hdispatch
  · refine Roster.oneOwner (Advances.roster (L := L) (P := fun _ => True) (X := Nowhere) ?_) hone
    refine step_advances hP trivial trivial hb e fun a p b' hdisp => ⟨.all b' a p, fun hp => ?_⟩
    cases p with
    | connect decoded => exact absurd ⟨a, decoded, b', hdisp⟩ hconnect
    | _ => cases hp

/-- In a run whose accepted CONNECTs find the owner of the session under their client id, no two
connections have a session under the same id, and every subscription of a connection points
at one that is there. -/
theorem run_oneOwner (authUser authPass : Option Bytes) (es : List (Event × Script))
    (h : Along (step L) (OnPacket L (FindsOwner L)) (initial authUser authPass) es) :
    (∀ c ∈ (run L (initial authUser authPass) es).clients, ∀ c' ∈ (run L (initial authUser authPass) es).clients,
      c.sessionEstablished = true → c'.sessionEstablished = true → c.clientId = c'.clientId → c = c') ∧
    ∀ s ∈ (run L (initial authUser authPass) es).subs, ∀ a, s.client = some a →
      ∃ c ∈ (run L (initial authUser authPass) es).clients, c.addr = a := by
  have hreach : Reachable L (run L (initial authUser authPass) es) := ⟨authUser, authPass, es, rfl⟩
  have hb := hreach.phase
  have hone : Reachable L (run L (initial authUser authPass) es) ∧ OneOwner (run L (initial authUser authPass) es) := by
    refine Along.invariant (I := fun b => Reachable L b ∧ OneOwner b) (fun s e hs hQ => ?_) es _ h ⟨⟨authUser, authPass, [], rfl⟩, ?_⟩
    · exact ⟨hs.1.step e, step_oneOwner hs.1 hQ hs.2⟩
    · intro c hc
      cases hc
  refine ⟨fun c hc c' hc' he he' hid => ?_, fun s hs a ha => ?_⟩
  · have hat := hb.client?_of_mem hc
    rw [hone.2 c hc c' hc' he he' hid, hb.client?_of_mem hc'] at hat
    exact (Option.some.inj hat).symm
  · obtain ⟨c, hc, -⟩ := hb.owned a ⟨s, hs, ha⟩
    exact ⟨c, Chain.at?_mem hc, Chain.at?_addr hc⟩

end owner

/-- The subscriber's second connection takes the first one over. -/
theorem run_oneOwner_takeover :
    ((run {} (initial none none) (subscriberAndPublisher ++
        [(.accept, {}), packetFrom 6 (.connect (.ok subscriberReturns))])).clients.all fun c =>
      !(c.sessionEstablished && c.clientId == some [0x73]) || c.addr == 6) = true := by
  have hrun : Along (step {}) (OnPacket {} (FindsOwner {})) (initial none none) (subscriberAndPublisher ++
      [(.accept, {}), packetFrom 6 (.connect (.ok subscriberReturns))]) := by decide +kernel
  have hnew : ∃ c' ∈ (run {} (initial none none) (subscriberAndPublisher ++
      [(.accept, {}), packetFrom 6 (.connect (.ok subscriberReturns))])).clients,
      c'.sessionEstablished = true ∧ c'.clientId = some [0x73] ∧ c'.addr = 6 := by decide +kernel
  obtain ⟨c', hc', he', hid', haddr'⟩ := hnew
  rw [List.all_eq_true]
  intro c hc
  by_cases h : c.sessionEstablished = true ∧ c.clientId = some [0x73]
  · rw [(run_oneOwner none none _ hrun).1 c hc c' hc' h.1 he' (h.2.trans hid'.symm), haddr']
    exact Bool.or_true _
  · have hnot : (c.sessionEstablished && c.clientId == some [0x73]) = false := by
      rw [Bool.eq_false_iff]
      intro hand
      rw [Bool.and_eq_true, beq_iff_eq] at hand
      exact h hand
    rw [hnot]
    rfl

/-- A connection that was refused, and whose CONNACK the transport has yet to take, stands before
the subscriber's when a third one comes. -/
def lingeringRefusal : List (Event × Script) :=
  [(.accept, {}), packetFrom 1 (.connect (.ok subscriberReturns)), (.accept, {}),
   (.process 3 (.packet true (.connect (.ok {protocolLevel := 5, cleanSession := false, clientId := [0x73],
                                             props := [{type := .receiveMax, dataShort := 0}]}))),
     {writes := [Code.continue]}),
   (.accept, {}), packetFrom 5 (.connect (.ok subscriberReturns))]

/-- The subscriber's first connection keeps its session. -/
theorem not_reachable_oneOwner : ∃ L b, Reachable L b ∧ ∃ c ∈ b.clients, ∃ c' ∈ b.clients,
    c.sessionEstablished = true ∧ c'.sessionEstablished = true ∧ c.clientId = c'.clientId ∧ c ≠ c' :=
  ⟨{}, run {} (initial none none) lingeringRefusal, ⟨none, none, _, rfl⟩, by decide +kernel⟩

end WolfMqtt.Broker
