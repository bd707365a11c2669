import WolfMqtt.Broker.Delivery

/-! The queue of a connection that is taken over.

An entry is in one queue at a time, and a connection's queue goes nowhere unless it
becomes an orphan's. A CONNECT makes no orphans, so what is in the queue of a connection
it takes over does not come to the new one. -/
namespace WolfMqtt.Broker

section places
variable {L : Limits} {ℓ : Label} {s t : QState}

/-- The addresses of entries were handed out. -/
theorem QState.Holds.lt (hs : QInv s) {p : Place} {level : Nat} {e : OutPub} (h : s.Holds p level e) :
    e.addr < s.nextAddr := by
  cases h with
  | conn hc he => exact (hs.queue _ (Chain.at?_mem hc)).fresh e he
  | orphan ho he => exact (hs.orphan _ (Chain.at?_mem ho)).fresh e he

/-- An entry is in one place. -/
def Placed (s : QState) : Prop :=
  ∀ p p' level level' e e', s.Holds p level e → s.Holds p' level' e' → e.addr = e'.addr → p = p'

theorem QStep.placed (h : QStep L ℓ s t) (hs : QInv s) (hmute : ℓ ≠ .mute) (hplaced : Placed s) : Placed t := by
  obtain ⟨source, born, hsource⟩ := h.sourced hs hmute
  intro p p' level level' e e' he he' haddr
  rcases hsource.comes p level e he with ⟨l, x, hx, hturned, -⟩ | ⟨hp, hfresh⟩ <;>
    rcases hsource.comes p' level' e' he' with ⟨l', x', hx', hturned', -⟩ | ⟨hp', hfresh'⟩
  · refine hsource.injective p p' level level' e e' he he' (hplaced _ _ l l' x x' hx hx' ?_)
    rw [← hturned.addr, ← hturned'.addr, haddr]
  · have hlt := hx.lt hs
    rw [← hturned.addr, haddr, hfresh'.addr] at hlt
    exact absurd hlt (Nat.lt_irrefl _)
  · have hlt := hx'.lt hs
    rw [← hturned'.addr, ← haddr, hfresh.addr] at hlt
    exact absurd hlt (Nat.lt_irrefl _)
  · exact hp.trans hp'.symm

theorem Handling.placed {b : MqttBroker} {a : Nat} {p : InPacket} (h : Handling L b a p) : Placed b.view := by
  refine h.invariant (fun authUser authPass p p' level level' e e' he => ?_) fun s t ℓ hℓ hstep hs => hstep.placed hs hℓ
  cases he with
  | conn hc => cases hc
  | orphan ho => cases ho

/-- An entry of a connection's queue is nowhere else for as long as no queue becomes an orphan's. -/
theorem QRun.stays {old n : Nat} (hrun : QRun L (fun ℓ => ℓ ≠ .mute ∧ ℓ ≠ .take) s t) (hs : QInv s) (hn : n < s.nextAddr)
    (h : ∀ p level e, s.Holds p level e → e.addr = n → p = .conn old) :
    ∀ p level e, t.Holds p level e → e.addr = n → p = .conn old := by
  refine (hrun.invariant (I := fun s => (QInv s ∧ n < s.nextAddr) ∧
    ∀ p level e, s.Holds p level e → e.addr = n → p = .conn old) (fun s t ℓ hℓ hstep hs => ?_) ⟨⟨hs, hn⟩, h⟩).2
  obtain ⟨⟨hs, hn⟩, h⟩ := hs
  obtain ⟨source, born, hsource⟩ := hstep.sourced hs hℓ.1
  refine ⟨⟨hstep.inv hs, Nat.lt_of_lt_of_le hn hstep.nextAddr_le⟩, fun p level e he haddr => ?_⟩
  rcases hsource.comes p level e he with ⟨l, x, hx, hturned, -⟩ | ⟨-, hfresh⟩
  · exact hsource.own hℓ.2 p old (h _ l x hx (hturned.addr.symm.trans haddr))
  · rw [hfresh.addr] at haddr
    exact absurd hn (haddr ▸ Nat.lt_irrefl _)

end places

/-- Every message above QoS 0 in the queue of `old` is in the queue of the connection at `a`. -/
def Carries (b : MqttBroker) (a : Nat) (old : BrokerClient) : Prop :=
  ∀ e ∈ old.outQ.chain, e.qos ≠ .qos0 → ∃ c, b.client? a = some c ∧ ∃ e' ∈ c.outQ.chain, e'.key = e.key

instance (b : MqttBroker) (a : Nat) (old : BrokerClient) : Decidable (Carries b a old) :=
  decidable_of_iff (∀ e ∈ old.outQ.chain, e.qos ≠ .qos0 →
      (b.client? a).any (fun c => c.outQ.chain.any (fun e' => e'.key = e.key)) = true) (by
    simp only [Carries, Option.any_eq_true, List.any_eq_true, decide_eq_true_eq])

/-- Whatever a CONNECT does, the entries of another connection's queue do not come to its own. -/
theorem handleConnect_elsewhere {L : Limits} {b : MqttBroker} {a : Nat} {decoded : Except DecodeError InConnect}
    (h : Handling L b a (.connect decoded)) {old : BrokerClient} (hold : old ∈ b.clients) (hne : old.addr ≠ a) {e : OutPub}
    (he : e ∈ old.outQ.chain) {c' : BrokerClient} (hc' : (handleConnect L a decoded b).2.client? a = some c') {e' : OutPub}
    (he' : e' ∈ c'.outQ.chain) : e'.addr ≠ e.addr := by
  intro haddr
  have hb := h.phase
  obtain ⟨c, hc, -, -, hpend, hnew⟩ := h.connect
  have hrun : QRun L (fun ℓ => ℓ ≠ .mute ∧ ℓ ≠ .take) b.view (handleConnect L a decoded b).2.view := by
    refine (handleConnect_advances (X := (· = a)) (Z := fun _ => True) ⟨⟨by decide, by decide⟩, by decide, by decide⟩
      ⟨by decide, by decide⟩ (hb.mono fun _ h => h.elim) rfl trivial hc hnew hpend decoded fun mc _ _ => ?_).1.run
    exact ⟨fun _ _ _ => .inl ⟨by decide, by decide⟩, fun _ _ _ => .inr (.inr ⟨by decide, by decide⟩)⟩
  have hat : b.view.Holds (.conn old.addr) old.protocolLevel e := by
    have hconn : b.view.conn? old.addr = some old.view := by
      rw [view_conn?, hb.client?_of_mem hold]
      rfl
    exact .conn hconn he
  have hat' : (handleConnect L a decoded b).2.view.Holds (.conn a) c'.protocolLevel e' := by
    have hconn : (handleConnect L a decoded b).2.view.conn? a = some c'.view := by
      rw [view_conn?, hc']
      rfl
    exact .conn hconn he'
  have hstays := hrun.stays hb.queues (hat.lt hb.queues)
    (fun p level x hx hxe => h.placed _ _ _ _ _ _ hx hat hxe) _ _ _ hat' haddr
  cases hstays
  exact hne rfl

/-- The broker handles an accepted CONNECT that resumes the session of the live connection `old`. -/
structure TakesOver (L : Limits) (b : MqttBroker) (a : Nat) (mc : InConnect) (old : BrokerClient) : Prop where
  handling : Handling L b a (.connect (.ok mc))
  accepts : Accepts L b a mc
  resumes : mc.cleanSession = false
  mem : old ∈ b.clients
  other : old.addr ≠ a
  live : old.connected = true
  clientId : ∀ c, b.client? a = some c → old.clientId = some (connectId c b.nextAutoId mc)
  expiry : old.sessionExpirySec ≠ 0

/-- It gets the messages in that connection's queue if and only if none is above QoS 0. -/
theorem takeover_carries_iff {L : Limits} {b : MqttBroker} {a : Nat} {mc : InConnect} {old : BrokerClient}
    (h : TakesOver L b a mc old) :
    Carries (handleConnect L a (.ok mc) b).2 a old ↔ ∀ e ∈ old.outQ.chain, e.qos = .qos0 := by
  constructor
  · intro hcarries e he
    by_contra hqos
    obtain ⟨c', hc', e', he', hkey⟩ := hcarries e he hqos
    exact handleConnect_elsewhere h.handling h.mem h.other he hc' he' (congrArg Prod.fst hkey)
  · intro hspent e he hqos
    exact absurd (hspent e he) hqos

/-- The subscriber comes back on another connection, at address 8, while a message is on its
way to it on the first. -/
def secondConnection (qos : QoS) : MqttBroker :=
  readied {} (run {} (initial none none) (subscriberAndPublisher ++ [messageFrom 4 qos 7, (.accept, {})])) 8

/-- The CONNECT with which it does. -/
def subscriberReturns : InConnect := {protocolLevel := 4, cleanSession := false, clientId := [0x73]}

theorem secondConnection_takesOver {old : BrokerClient} (hold : (secondConnection .qos1).client? 1 = some old) :
    TakesOver {} (secondConnection .qos1) 8 subscriberReturns old := by
  have hsome : (dispatched {} (run {} (initial none none) (subscriberAndPublisher ++ [messageFrom 4 .qos1 7, (.accept, {})]))
      (packetFrom 8 (.connect (.ok subscriberReturns)))).isSome = true := by decide +kernel
  have hstate : ∀ old ∈ (secondConnection .qos1).client? 1, old.connected = true ∧ old.sessionExpirySec ≠ 0 ∧
      ∀ c ∈ (secondConnection .qos1).client? 8,
        old.clientId = some (connectId c (secondConnection .qos1).nextAutoId subscriberReturns) := by decide +kernel
  obtain ⟨hlive, hexpiry, hid⟩ := hstate old hold
  refine ⟨.of_packetFrom ⟨none, none, _, rfl⟩ hsome, by decide +kernel, rfl, Chain.at?_mem hold, ?_, hlive, hid, hexpiry⟩
  rw [show old.addr = 1 from Chain.at?_addr hold]
  decide

/-- The message on its way is above QoS 0, and is not carried over. -/
theorem takeover_carries_secondConnection : ∃ old, TakesOver {} (secondConnection .qos1) 8 subscriberReturns old ∧
    ¬Carries (handleConnect {} 8 (.ok subscriberReturns) (secondConnection .qos1)).2 8 old := by
  have hsome : ((secondConnection .qos1).client? 1).isSome = true := by decide +kernel
  have hqos : ∀ old ∈ (secondConnection .qos1).client? 1, ¬∀ e ∈ old.outQ.chain, e.qos = .qos0 := by decide +kernel
  obtain ⟨old, hold⟩ := Option.isSome_iff_exists.mp hsome
  have htakes := secondConnection_takesOver hold
  exact ⟨old, htakes, fun hcarries => hqos old hold ((takeover_carries_iff htakes).mp hcarries)⟩

/-- A message is lost that would have been carried over had the first connection been closed
before. -/
theorem not_takeover_carries : ∃ L b a mc old, TakesOver L b a mc old ∧
    ¬Carries (handleConnect L a (.ok mc) b).2 a old ∧
    Carries (handleConnect L a (.ok mc) (abnormalClose L old.addr b).2).2 a old := by
  have hsome : ((secondConnection .qos1).client? 1).isSome = true := by decide +kernel
  have hlost : ∀ old ∈ (secondConnection .qos1).client? 1,
      ¬Carries (handleConnect {} 8 (.ok subscriberReturns) (secondConnection .qos1)).2 8 old ∧
      Carries (handleConnect {} 8 (.ok subscriberReturns) (abnormalClose {} old.addr (secondConnection .qos1)).2).2 8 old := by
    decide +kernel
  obtain ⟨old, hold⟩ := Option.isSome_iff_exists.mp hsome
  exact ⟨{}, secondConnection .qos1, 8, subscriberReturns, old, secondConnection_takesOver hold, hlost old hold⟩

end WolfMqtt.Broker
