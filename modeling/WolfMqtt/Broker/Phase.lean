import WolfMqtt.Broker.Fan
import WolfMqtt.Broker.Process

/-! The phases of a connection, and what keeps them.

Before its CONNECT a connection has no session and nothing in its queue; from its CONNECT
on it is live, or its socket is closed, or the CONNACK that refuses it is on its way.
Subscriptions point at connections with a session. Every function of the broker advances
the delivery system and keeps the phases (`Advances`); while a CONNECT is handled, or a
connection is taken down, that one connection is between two phases. -/
namespace WolfMqtt.Broker

/-! ### Phases -/

/-- There is nothing of a session in the connection's record. -/
structure BrokerClient.Idle (c : BrokerClient) : Prop where
  outQ : c.outQ = {}
  inflight : c.outQInflight = 0
  qos2 : c.qos2Pending = []
  qos2Count : c.qos2PendingCount = 0

/-- What holds of a connection at any moment. -/
structure BrokerClient.Sound (L : Limits) (c : BrokerClient) : Prop where
  idle : c.sessionEstablished = false → c.Idle
  live : c.connected = true → c.sessionEstablished = true ∧ c.protocolLevel ≠ 0 ∧ maxLenBytes < L.txBufSz
  refused : c.connackRefused = true → c.connackPendingLen ≠ 0

/-- What holds of a connection that nothing is being done to: with a session and an open socket
it is live, or on its way out. -/
def BrokerClient.Settled (c : BrokerClient) : Prop :=
  c.sockOpen = true → c.connected = false → c.sessionEstablished = true →
    c.connackPendingLen ≠ 0 ∧ c.connackRefused = true

/-- There is a connection with a session at this address. -/
def MqttBroker.Established (b : MqttBroker) (a : Nat) : Prop :=
  ∃ c, b.client? a = some c ∧ c.sessionEstablished = true

/-- The phases of a broker's connections, those in `X` being between two. -/
structure Phase (L : Limits) (X : Nat → Prop) (b : MqttBroker) : Prop where
  queues : QInv b.view
  owned : ∀ a, b.Subscribed a → b.Established a
  sound : ∀ c ∈ b.clients, c.Sound L
  settled : ∀ c ∈ b.clients, ¬X c.addr → c.Settled

/-- Nothing is being done to any connection. -/
def Nowhere (_ : Nat) : Prop := False

/-- No connection outside `Z` gets a session. -/
def Roster (Z : Nat → Prop) (b b' : MqttBroker) : Prop :=
  ∀ c' ∈ b'.clients, c'.sessionEstablished = true → ¬Z c'.addr →
    ∃ c ∈ b.clients, c.addr = c'.addr ∧ c.clientId = c'.clientId ∧ c.sessionEstablished = true

section phases
variable (L : Limits) (P : Label → Prop) (Z X : Nat → Prop)

/-- `b'` comes after `b` in the delivery system and in phase, and only in `Z` are there new sessions. -/
structure Advances (b b' : MqttBroker) : Prop where
  phase : Phase L X b'
  run : QRun L P b.view b'.view
  roster : Roster Z b b'

variable {L P Z X} {Y : Nat → Prop} {b b' b'' : MqttBroker}

theorem Roster.refl (b : MqttBroker) : Roster Z b b := fun c hc hs _ => ⟨c, hc, rfl, rfl, hs⟩

theorem Roster.trans (h : Roster Z b b') (h' : Roster Z b' b'') : Roster Z b b'' := by
  intro c'' hc'' hs'' hZ
  obtain ⟨c', hc', haddr', hid', hs'⟩ := h' c'' hc'' hs'' hZ
  obtain ⟨c, hc, haddr, hid, hs⟩ := h c' hc' hs' (haddr' ▸ hZ)
  exact ⟨c, hc, haddr.trans haddr', hid.trans hid', hs⟩

namespace Advances

theorem refl (hb : Phase L X b) : Advances L P Z X b b := ⟨hb, .refl, .refl b⟩

theorem trans (h : Advances L P Z X b b') (h' : Phase L X b' → Advances L P Z Y b' b'') : Advances L P Z Y b b'' :=
  have h' := h' h.phase
  ⟨h'.phase, Relation.ReflTransGen.trans h.run h'.run, h.roster.trans h'.roster⟩

theorem bind {α β : Type} {m : BrokerM α} {f : α → BrokerM β} (hm : Advances L P Z X b (m b).2)
    (hf : Phase L X (m b).2 → Advances L P Z Y (m b).2 (f (m b).1 (m b).2).2) : Advances L P Z Y b ((m >>= f) b).2 :=
  hm.trans hf

theorem when_at {p : Prop} [Decidable p] {m : BrokerM Unit} (hb : Phase L X b) (h : p → Advances L P Z X b (m b).2) :
    Advances L P Z X b (whenDo p m b).2 := by
  unfold whenDo
  by_cases hp : p
  · rw [if_pos hp]
    exact h hp
  · rw [if_neg hp]
    exact .refl hb

end Advances

/-! ### Connections -/

/-- What any function but a CONNECT may do to a connection. -/
structure Handled (c c' : BrokerClient) : Prop where
  addr : c'.addr = c.addr
  established : c'.sessionEstablished = c.sessionEstablished
  session : c.sessionEstablished = true → c'.clientId = c.clientId ∧ c'.protocolLevel = c.protocolLevel
  socket : SameSocket c c'
  idle : c.sessionEstablished = false → c.Idle → c'.Idle
  refused : (c.connackRefused = true → c.connackPendingLen ≠ 0) → c'.connackRefused = true → c'.connackPendingLen ≠ 0

/-- The same, with the CONNACK left where it is. -/
structure Tended (c c' : BrokerClient) : Prop extends Handled c c' where
  connack : c'.connackPendingLen = c.connackPendingLen ∧ c'.connackRefused = c.connackRefused

/-- What no function but a CONNECT changes of a connection. -/
structure SameConn (c c' : BrokerClient) : Prop where
  addr : c'.addr = c.addr
  established : c'.sessionEstablished = c.sessionEstablished
  session : c'.clientId = c.clientId ∧ c'.protocolLevel = c.protocolLevel
  connack : c'.connackPendingLen = c.connackPendingLen ∧ c'.connackRefused = c.connackRefused
  socket : SameSocket c c'

theorem SameConn.tended {c c' : BrokerClient} (h : SameConn c c')
    (hidle : c.sessionEstablished = false → c.Idle → c'.Idle) : Tended c c' := by
  refine ⟨⟨h.addr, h.established, fun _ => h.session, h.socket, hidle, ?_⟩, h.connack⟩
  rw [h.connack.1, h.connack.2]
  exact id

theorem Tended.refl (c : BrokerClient) : Tended c c :=
  SameConn.tended ⟨rfl, rfl, ⟨rfl, rfl⟩, ⟨rfl, rfl⟩, .inl ⟨rfl, rfl⟩⟩ fun _ h => h

theorem Handled.connected {c c' : BrokerClient} (h : Handled c c') (hc : c'.connected = true) : c.connected = true := by
  rcases h.socket with ⟨_, hconn⟩ | ⟨_, hconn⟩
  · exact hconn ▸ hc
  · rw [hconn] at hc
    cases hc

theorem Handled.sound {c c' : BrokerClient} (h : Handled c c') (hc : c.Sound L) : c'.Sound L := by
  refine ⟨fun he => ?_, fun hconn => ?_, h.refused hc.refused⟩
  · have he' : c.sessionEstablished = false := h.established ▸ he
    exact h.idle he' (hc.idle he')
  · obtain ⟨he, hlevel, hroom⟩ := hc.live (h.connected hconn)
    rw [h.established, (h.session he).2]
    exact ⟨he, hlevel, hroom⟩

theorem Tended.settled {c c' : BrokerClient} (h : Tended c c') (hc : c.Settled) : c'.Settled := by
  intro hopen hconn he
  rw [h.connack.1, h.connack.2]
  rcases h.socket with ⟨hs, hcn⟩ | ⟨hs, _⟩
  · exact hc (hs ▸ hopen) (hcn ▸ hconn) (h.established ▸ he)
  · rw [hs] at hopen
    cases hopen

/-- A connection that was served: its queue is only touched if it has a session. -/
theorem Served.tended {c c' : BrokerClient} (h : Served c c') (hidle : c.sessionEstablished = false → c' = c) :
    Tended c c' := by
  have hstill : ∀ {γ : Type} (f : BrokerClient → γ), (∀ c, f c.still = f c) → f c' = f c := fun f hf =>
    (hf c').symm.trans ((congrArg f h.still).trans (hf c))
  refine SameConn.tended ⟨h.addr, hstill (·.sessionEstablished) fun _ => rfl,
    ⟨hstill (·.clientId) fun _ => rfl, hstill (·.protocolLevel) fun _ => rfl⟩,
    ⟨hstill (·.connackPendingLen) fun _ => rfl, hstill (·.connackRefused) fun _ => rfl⟩, h.socket⟩ ?_
  exact fun he hi => hidle he ▸ hi

theorem Writes.tended {s s' : Conn} (h : Writes s s') : Tended s.c s'.c := by
  have hquiet : ∀ {γ : Type} (f : Conn → γ), (∀ s, f s.quiet = f s) → f s' = f s := fun f hf =>
    (hf s').symm.trans ((congrArg f h).symm.trans (hf s))
  refine SameConn.tended ⟨hquiet (·.c.addr) fun _ => rfl, hquiet (·.c.sessionEstablished) fun _ => rfl,
    ⟨hquiet (·.c.clientId) fun _ => rfl, hquiet (·.c.protocolLevel) fun _ => rfl⟩,
    ⟨hquiet (·.c.connackPendingLen) fun _ => rfl, hquiet (·.c.connackRefused) fun _ => rfl⟩,
    .inl ⟨hquiet (·.c.sockOpen) fun _ => rfl, hquiet (·.c.connected) fun _ => rfl⟩⟩ fun _ hi => ?_
  exact ⟨(hquiet (·.c.outQ) fun _ => rfl).trans hi.outQ, (hquiet (·.c.outQInflight) fun _ => rfl).trans hi.inflight,
    (hquiet (·.c.qos2Pending) fun _ => rfl).trans hi.qos2, (hquiet (·.c.qos2PendingCount) fun _ => rfl).trans hi.qos2Count⟩

/-! ### The broker -/

namespace Phase

theorem nodup (hb : Phase L X b) : (b.clients.map Node.addr).Nodup := by
  have h := hb.queues.conns_nodup
  rwa [show b.view.conns.map Node.addr = b.clients.map Node.addr from by
    simp only [MqttBroker.view, List.map_map]
    rfl] at h

theorem client?_of_mem (hb : Phase L X b) {c : BrokerClient} (hc : c ∈ b.clients) : b.client? c.addr = some c :=
  Chain.at?_of_mem hb.nodup hc

theorem orphans_nodup (hb : Phase L X b) : (b.orphanSessions.map Node.addr).Nodup := by
  have h := hb.queues.orphans_nodup
  rwa [show b.view.orphans.map Node.addr = b.orphanSessions.map Node.addr from by
    simp only [MqttBroker.view, List.map_map]
    rfl] at h

theorem orphan?_of_mem (hb : Phase L X b) {o : OrphanSession} (ho : o ∈ b.orphanSessions) :
    b.orphan? o.addr = some o := Chain.at?_of_mem hb.orphans_nodup ho

theorem mono (hXY : ∀ a, X a → Y a) (hb : Phase L X b) : Phase L Y b :=
  {hb with settled := fun c hc hY => hb.settled c hc fun hX => hY (hXY _ hX)}

end Phase

/-- A broker in which some connections are gone and the others were handled. -/
theorem Advances.of_handled (hb : Phase L X b) (hrun : QRun L P b.view b'.view)
    (hc : ∀ c' ∈ b'.clients, ∃ c ∈ b.clients, Handled c c' ∧ (¬Y c'.addr → (¬X c.addr → c.Settled) → c'.Settled))
    (hs : ∀ a, b'.Subscribed a → b.Established a ∧ ∃ c', b'.client? a = some c') : Advances L P Z Y b b' := by
  refine ⟨⟨hrun.inv hb.queues, ?_, ?_, ?_⟩, hrun, ?_⟩
  · intro a ha
    obtain ⟨⟨c, hca, he⟩, c', hca'⟩ := hs a ha
    obtain ⟨c₀, hmem, ht, -⟩ := hc c' (Chain.at?_mem hca')
    have hc₀ : b.client? a = some c₀ := by
      rw [← Chain.at?_addr hca']
      show b.client? c'.addr = some c₀
      rw [ht.addr]
      exact hb.client?_of_mem hmem
    obtain rfl : c₀ = c := Option.some.inj (hc₀.symm.trans hca)
    exact ⟨c', hca', ht.established.trans he⟩
  · intro c' hc'
    obtain ⟨c, hmem, ht, -⟩ := hc c' hc'
    exact ht.sound (hb.sound c hmem)
  · intro c' hc' hY
    obtain ⟨c, hmem, ht, hset⟩ := hc c' hc'
    exact hset hY (hb.settled c hmem)
  · intro c' hc' he _
    obtain ⟨c, hmem, ht, -⟩ := hc c' hc'
    have he' := ht.established.symm.trans he
    exact ⟨c, hmem, ht.addr.symm, (ht.session he').1.symm, he'⟩

/-- The same connections in the same order, each tended. -/
theorem Advances.of_forall₂ (hb : Phase L X b) (hrun : QRun L P b.view b'.view)
    (hc : List.Forall₂ Tended b.clients b'.clients) (hs : ∀ a, b'.Subscribed a → b.Established a) :
    Advances L P Z X b b' := by
  refine .of_handled hb hrun (fun c' hc' => ?_) (fun a ha => ⟨hs a ha, ?_⟩)
  · obtain ⟨c, hmem, ht⟩ := Chain.exists_of_mem_right hc hc'
    exact ⟨c, hmem, ht.toHandled, fun hX hset => ht.settled (hset (ht.addr ▸ hX))⟩
  · obtain ⟨c, hca, -⟩ := hs a ha
    rcases Chain.forall₂_at? (a := a) (fun _ _ h => h.addr) hc with ⟨hnone, -⟩ | ⟨_, c', -, hc', -⟩
    · rw [MqttBroker.client?, hnone] at hca
      cases hca
    · exact ⟨c', hc'⟩

/-- The same connections and no new subscriptions. -/
theorem Advances.of_clients (hb : Phase L X b) (hrun : QRun L P b.view b'.view) (hc : b'.clients = b.clients)
    (hs : ∀ a, b'.Subscribed a → b.Subscribed a) : Advances L P Z X b b' := by
  refine .of_forall₂ hb hrun ?_ (fun a ha => hb.owned a (hs a ha))
  rw [hc]
  exact List.forall₂_same.mpr fun c _ => .refl c

/-- A fan-out that reaches connections with a session. -/
theorem Fans.advances (hb : Phase L X b) (h : Fans L P b.Established True b b') : Advances L P Z X b b' := by
  refine .of_forall₂ hb h.run ?_ (fun a ⟨s, hs, hsa⟩ => hb.owned a ⟨s, h.spread.subs ▸ hs, hsa⟩)
  refine Chain.forall₂_imp_mem h.spread.clients fun c c' hmem hcc' => hcc'.1.tended fun he => hcc'.2 ?_
  rintro ⟨c₀, hc₀, he₀⟩
  obtain rfl : c₀ = c := Option.some.inj (hc₀.symm.trans (hb.client?_of_mem hmem))
  rw [he] at he₀
  cases he₀

theorem onClient_advances {α : Type} {a : Nat} (hb : Phase L X b) (default : α) {m : ClientM α}
    (hm : ∀ c, b.client? a = some c →
      Tended c (m ⟨c, b.env⟩).2.c ∧ CRun L P (Conn.view ⟨c, b.env⟩) (m ⟨c, b.env⟩).2.view) :
    Advances L P Z X b (onClient a default m b).2 := by
  refine .of_forall₂ hb (onClient_run default fun c hc => (hm c hc).2) ?_ ?_
  · cases hc : b.client? a with
    | none =>
      rw [onClient_none hc]
      exact List.forall₂_same.mpr fun c _ => .refl c
    | some c =>
      rw [onClient_some hc]
      refine Chain.forall₂_writeAt (fun c => .refl c) (fun x hx => ?_)
      obtain rfl : c = x := Option.some.inj (hc.symm.trans hx)
      exact (hm c hc).1
  · intro a' ⟨s, hs, hsa⟩
    refine hb.owned a' ⟨s, ?_, hsa⟩
    cases hc : b.client? a with
    | none =>
      rw [onClient_none hc] at hs
      exact hs
    | some c =>
      rw [onClient_some hc] at hs
      exact hs

/-- A connection writes to its transport. -/
theorem onClient_writes {α : Type} (a : Nat) (hb : Phase L X b) (default : α) {m : ClientM α} (hm : Moves Writes m) :
    Advances L P Z X b (onClient a default m b).2 := by
  refine onClient_advances hb default fun c _ => ⟨(hm ⟨c, b.env⟩).tended, ?_⟩
  rw [(hm ⟨c, b.env⟩).view]
  exact .refl

/-- The queue of a connection with a session is served. -/
theorem onClient_serves {α : Type} {a : Nat} (hb : Phase L X b) (ha : b.Established a) (default : α) {m : ClientM α}
    (hm : ∀ c, b.client? a = some c → Serves L P ⟨c, b.env⟩ (m ⟨c, b.env⟩).2) :
    Advances L P Z X b (onClient a default m b).2 := (onClient_fans ha default hm).advances hb

theorem view_updateClient {a : Nat} {f : BrokerClient → BrokerClient}
    (hv : ∀ c, b.client? a = some c → (f c).view = c.view) : (b.updateClient a f).view = b.view := by
  simp only [MqttBroker.view, MqttBroker.updateClient, Chain.map_writeAt BrokerClient.view hv]

/-- A write to a connection that the delivery system does not see. -/
theorem updateClient_advances {a : Nat} {f : BrokerClient → BrokerClient} (hb : Phase L X b)
    (hf : ∀ c, b.client? a = some c → Tended c (f c)) (hv : ∀ c, b.client? a = some c → (f c).view = c.view) :
    Advances L P Z X b (b.updateClient a f) := by
  refine .of_forall₂ hb ?_ (Chain.forall₂_writeAt (fun c => .refl c) hf) (fun a' ha' => hb.owned a' ha')
  rw [view_updateClient hv]
  exact .refl

/-- A write that takes a connection from one phase to another. -/
structure Rephases (L : Limits) (Z Y : Nat → Prop) (c c' : BrokerClient) : Prop where
  addr : c'.addr = c.addr
  view : c'.view = c.view
  sound : c.Sound L → c'.Sound L
  settled : ¬Y c.addr → c'.Settled
  kept : c.sessionEstablished = true → c'.sessionEstablished = true
  roster : c'.sessionEstablished = true → ¬Z c.addr → c.sessionEstablished = true ∧ c'.clientId = c.clientId

theorem rephase_advances {a : Nat} {f : BrokerClient → BrokerClient} (hb : Phase L X b)
    (hf : ∀ c, b.client? a = some c → Rephases L Z Y c (f c)) (hXY : ∀ x, X x → x ≠ a → Y x) :
    Advances L P Z Y b (b.updateClient a f) := by
  have hview : (b.updateClient a f).view = b.view := view_updateClient fun c hc => (hf c hc).view
  have hmem : ∀ c' ∈ (b.updateClient a f).clients,
      (c' ∈ b.clients ∧ c'.addr ≠ a) ∨ ∃ c, b.client? a = some c ∧ c' = f c := fun c' hc' => by
    rcases Chain.mem_writeAt_nodup hb.nodup hc' with h | ⟨c, hc, rfl⟩
    · exact .inl h
    · exact .inr ⟨c, hc, rfl⟩
  refine ⟨⟨hview ▸ hb.queues, fun x hx => ?_, fun c' hc' => ?_, fun c' hc' hY => ?_⟩, hview ▸ .refl, fun c' hc' he hZ => ?_⟩
  · obtain ⟨c, hc, he⟩ := hb.owned x hx
    by_cases hxa : x = a
    · subst hxa
      have h := hf c hc
      exact ⟨f c, Chain.at?_writeAt_self hc (h.addr.trans (Chain.at?_addr hc)), h.kept he⟩
    · exact ⟨c, (Chain.at?_writeAt_ne_of (fun c hc => (hf c hc).addr.trans (Chain.at?_addr hc)) hxa).trans hc, he⟩
  · rcases hmem c' hc' with ⟨hc, -⟩ | ⟨c, hc, rfl⟩
    · exact hb.sound c' hc
    · exact (hf c hc).sound (hb.sound c (Chain.at?_mem hc))
  · rcases hmem c' hc' with ⟨hc, hne⟩ | ⟨c, hc, rfl⟩
    · exact hb.settled c' hc fun hX => hY (hXY _ hX hne)
    · exact (hf c hc).settled ((hf c hc).addr ▸ hY)
  · rcases hmem c' hc' with ⟨hc, -⟩ | ⟨c, hc, rfl⟩
    · exact ⟨c', hc, rfl, rfl, he⟩
    · obtain ⟨he₀, hid⟩ := (hf c hc).roster he ((hf c hc).addr ▸ hZ)
      exact ⟨c, Chain.at?_mem hc, (hf c hc).addr.symm, hid.symm, he₀⟩

/-- The same, for a write that leaves the session as it is. -/
theorem handleClient_advances {a : Nat} {f : BrokerClient → BrokerClient} (hb : Phase L X b)
    (hf : ∀ c, b.client? a = some c → Handled c (f c) ∧ (¬Y c.addr → (f c).Settled))
    (hv : ∀ c, b.client? a = some c → (f c).view = c.view)
    (hXY : ∀ x, X x → x ≠ a → Y x) : Advances L P Z Y b (b.updateClient a f) := by
  refine rephase_advances hb (fun c hc => ?_) hXY
  obtain ⟨hh, hset⟩ := hf c hc
  refine ⟨hh.addr, hv c hc, hh.sound, hset, fun he => hh.established.trans he, fun he _ => ?_⟩
  have he₀ := hh.established.symm.trans he
  exact ⟨he₀, (hh.session he₀).1⟩

theorem clearWill_advances (hb : Phase L X b) (a : Nat) :
    Advances L P Z X b (b.updateClient a BrokerClient.clearWill) := by
  refine updateClient_advances (f := BrokerClient.clearWill) hb (fun c _ => ?_) (fun _ _ => rfl)
  exact SameConn.tended ⟨rfl, rfl, ⟨rfl, rfl⟩, ⟨rfl, rfl⟩, .inl ⟨rfl, rfl⟩⟩ fun _ h => ⟨h.1, h.2, h.3, h.4⟩

end phases

end WolfMqtt.Broker
