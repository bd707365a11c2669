import WolfMqtt.Broker.Entries
import WolfMqtt.Broker.Reach

/-! What a CONNECT does, told from the state it is handled in.

A CONNECT that fails a check writes to its own connection only. One that passes adopts
what stands under its client id in a state (`Opens`) that differs from the one it was
handled in by its own connection's record. -/
namespace WolfMqtt.Broker

section opening
variable {L : Limits} {b : MqttBroker} {a : Nat} {mc : InConnect}

/-- The state in which a CONNECT that passed its checks adopts its session, and what is left to
do from there. -/
structure Opens (L : Limits) (b : MqttBroker) (a : Nat) (mc : InConnect) (clientId : Bytes) (auto : Bool)
    (b₁ : MqttBroker) : Prop where
  phase : Phase L (· = a) b₁
  client : ∃ c, b₁.client? a = some c ∧ Passed mc clientId c ∧ c.sessionEstablished = true ∧ c.Idle ∧
    c.connackPendingLen = 0 ∧ c.connackRefused = false
  others : ∀ x, x ≠ a → b₁.client? x = b.client? x
  found : findByClientId b₁ clientId a = findByClientId b clientId a
  subs : b₁.subs = b.subs
  orphans : b₁.orphanSessions = b.orphanSessions
  wills : b₁.pendingWills = b.pendingWills
  trace : b₁.env.trace = b.env.trace
  free : ¬b₁.Subscribed a
  rest : handleConnect L a (.ok mc) b = acceptConnect L a mc auto (adoptSession L a mc clientId b₁).1
    (onClient a () (storeWill L mc) (adoptSession L a mc clientId b₁).2).2

theorem Handling.unsubscribed {decoded : Except DecodeError InConnect} (h : Handling L b a (.connect decoded)) :
    ¬b.Subscribed a := by
  intro hs
  obtain ⟨c, hc, -, -, -, hnew⟩ := h.connect
  obtain ⟨c', hc', he⟩ := h.phase.owned a hs
  obtain rfl : c = c' := Option.some.inj (hc.symm.trans hc')
  rw [hnew] at he
  cases he

theorem handleConnect_opens (h : Handling L b a (.connect (.ok mc))) (haccepts : Accepts L b a mc) {c : BrokerClient}
    (hc : b.client? a = some c) : ∃ auto b₁, Opens L b a mc (connectId c b.nextAutoId mc) auto b₁ := by
  have hb := h.phase
  obtain ⟨c', hc', -, -, hpend, hnew⟩ := h.connect
  obtain rfl : c = c' := Option.some.inj (hc.symm.trans hc')
  have hsound := hb.sound c (Chain.at?_mem hc)
  have hrefused : c.connackRefused = false := by
    by_contra hne
    exact hsound.refused (by simpa using hne) hpend
  obtain ⟨⟨t, n, hstate, hchecks, hpassed⟩, -⟩ := connectChecks_spec hc L mc
  have haddr : t.c.addr = a := hchecks.addr.trans (Chain.at?_addr hc)
  have hc₁ : (b.withClient a t n).client? a = some t.c := withClient_client? hc haddr
  cases hres : (connectChecks L a mc b).1 with
  | error code =>
    rw [Accepts, hres] at haccepts
    cases haccepts
  | ok auto =>
    have hpassed := hpassed auto hres
    let b₁ := (b.withClient a t n).updateClient a BrokerClient.establish
    have hc₂ : b₁.client? a = some t.c.establish := Chain.at?_writeAt_self hc₁ haddr
    have hchecked : Advances L (fun _ => True) (fun _ => True) (· = a) b (b.withClient a t n) :=
      hchecks.advances ⟨trivial, trivial⟩ (hb.mono fun _ h => h.elim) hc hnew n
    have hopened : Advances L (fun _ => True) (fun _ => True) (· = a) (b.withClient a t n) b₁ :=
      establish_advances hchecked.phase trivial rfl
    have hwith : b₁ = b.withClient a ⟨t.c.establish, t.env⟩ n := withClient_updateClient haddr _
    have he : t.c.sessionEstablished = false := (hchecks.get (·.sessionEstablished) fun _ => rfl).trans hnew
    have hidle := (hchecked.phase.sound t.c (Chain.at?_mem hc₁)).idle he
    refine ⟨auto, b₁, hopened.phase, ⟨t.c.establish, hc₂, ?_, rfl, ?_, ?_, ?_⟩, fun x hx => ?_, ?_, rfl, rfl, rfl, ?_, ?_, ?_⟩
    · exact ⟨hpassed.level, hpassed.clientId, hpassed.protocolLevel, hpassed.expiry, hpassed.cleanSession⟩
    · exact ⟨hidle.outQ, hidle.inflight, hidle.qos2, hidle.qos2Count⟩
    · exact (hchecks.get (·.connackPendingLen) fun _ => rfl).trans hpend
    · exact (hchecks.get (·.connackRefused) fun _ => rfl).trans hrefused
    · rw [hwith]
      exact withClient_client?_ne (s := ⟨t.c.establish, t.env⟩) haddr hx
    · rw [hwith]
      exact findByClientId_withClient (s := ⟨t.c.establish, t.env⟩) haddr n _
    · exact hchecks.trace
    · exact h.unsubscribed
    · have hr : connectChecks L a mc b = (.ok auto, b.withClient a t n) := Prod.ext hres hstate
      simp only [handleConnect, run_bind, hr]
      exact establishSession_eq hc₁ mc auto hpassed.clientId

theorem Passed.level_ne {clientId : Bytes} {c : BrokerClient} (h : Passed mc clientId c) : c.protocolLevel ≠ 0 := by
  rw [h.protocolLevel]
  rcases h.level with h | h <;> rw [h] <;> decide

section opens
variable {clientId : Bytes} {auto : Bool} {b₁ : MqttBroker}

theorem Opens.mem_of_ne (h : Opens L b a mc clientId auto b₁) {c : BrokerClient} (hc : c ∈ b₁.clients) (hne : c.addr ≠ a) :
    c ∈ b.clients := by
  have hat := h.phase.client?_of_mem hc
  rw [h.others c.addr hne] at hat
  exact Chain.at?_mem hat

theorem Opens.adopt_advances {P : Label → Prop} {Z : Nat → Prop} (h : Opens L b a mc clientId auto b₁) (hP : Ordinary P)
    (hover : P .takeover) (hmis : P .mismatch) : Advances L P Z (· = a) b₁ (adoptSession L a mc clientId b₁).2 := by
  obtain ⟨c, hc, hpassed, he, hidle, -⟩ := h.client
  refine adoptSession_advances hP h.phase hc he hidle.outQ h.free hpassed.clientId hpassed.protocolLevel ?_
  exact ⟨fun _ _ _ => .inl hover, fun _ _ _ => .inr (.inr hmis)⟩

/-- With its session adopted, the connection is ready for the answer. -/
theorem Opens.awaits (h : Opens L b a mc clientId auto b₁) : Awaits (adoptSession L a mc clientId b₁).2 a := by
  obtain ⟨c, hc, hpassed, he, -, hpend, hrefused⟩ := h.client
  obtain ⟨orphan, -, -, c₂, hc₂, hmine⟩ := adoptSession_spec (L := L) h.phase hc he h.free mc hpassed.clientId
  have hget : ∀ {γ : Type} (f : BrokerClient → γ), (∀ x : BrokerClient, f x.unclaimed = f x) →
      (∀ x o, f (BrokerClient.resume x o) = f x) → f c₂ = f c := by
    intro γ f hf hres
    rw [← hf c₂, hmine, hf]
    cases orphan with
    | none => rfl
    | some o => exact hres c o
  refine ⟨c₂, hc₂, ?_, ?_, ?_, ?_⟩
  · rw [hget (·.sessionEstablished) (fun _ => rfl) fun _ _ => rfl]
    exact he
  · rw [hget (·.protocolLevel) (fun _ => rfl) fun _ _ => rfl]
    exact hpassed.level_ne
  · rw [hget (·.connackPendingLen) (fun _ => rfl) fun _ _ => rfl]
    exact hpend
  · rw [hget (·.connackRefused) (fun _ => rfl) fun _ _ => rfl]
    exact hrefused

end opens

/-- A CONNECT that fails a check is answered with a refusal, on a connection without a session. -/
theorem handleConnect_refused (hrefuses : ¬Accepts L b a mc) {c : BrokerClient} (hc : b.client? a = some c) :
    ∃ code t n, code ≠ 0 ∧ Checks ⟨c, b.env⟩ t ∧
      handleConnect L a (.ok mc) b = onClient a 0 (refuseConnect L mc code) (b.withClient a t n) := by
  obtain ⟨⟨t, n, hstate, hchecks, -⟩, hcodes⟩ := connectChecks_spec hc L mc
  cases hres : (connectChecks L a mc b).1 with
  | ok auto =>
    refine absurd ?_ hrefuses
    rw [Accepts, hres]
    rfl
  | error code =>
    refine ⟨code, t, n, hcodes code hres, hchecks, ?_⟩
    have hr : connectChecks L a mc b = (.error code, b.withClient a t n) := Prod.ext hres hstate
    simp only [handleConnect, run_bind, hr]

/-! ### The connection's record -/

/-- What the Will and the answer to a CONNECT leave of the connection's record. -/
def BrokerClient.kept (c : BrokerClient) : BrokerClient :=
  {c.still with connackPendingLen := 0, connackRefused := false, username := none, password := none}

/-- `s'` is `s` with another Will, buffer, queue or CONNACK. -/
def Keeps : Conn → Conn → Prop := InvImage Eq (·.c.kept)

instance : IsPreorder Conn Keeps := inferInstanceAs (IsPreorder Conn (InvImage Eq _))

theorem Served.keeps {s s' : Conn} (h : Served s.c s'.c) : Keeps s s' := by
  have hstill : ∀ c : BrokerClient, c.kept = c.still.kept := fun _ => rfl
  show s.c.kept = s'.c.kept
  rw [hstill, ← h.still, ← hstill]

theorem allocFor_keeps : Moves Keeps allocFor := fun _ => rfl

theorem storeString_keeps (str : Bytes) : Moves Keeps (storeString str) :=
  .bind allocFor_keeps fun _ => .ite (fun _ => .pure _) (fun _ => .pure _)

theorem storeNonempty_keeps (str : Bytes) : Moves Keeps (storeNonempty str) :=
  .ite (fun _ => .pure _) (fun _ => storeString_keeps str)

theorem storeWill_keeps (mc : InConnect) : Moves Keeps (storeWill L mc) := by
  have hclear : Moves Keeps (modifyClient BrokerClient.clearWill) := fun _ => rfl
  refine .bind hclear fun _ => ?_
  cases mc.will with
  | none => exact .pure _
  | some w => exact .bind (storeNonempty_keeps _) fun _ => .bind (storeNonempty_keeps _) fun _ => fun _ => rfl

theorem addProp_keeps (p : MqttProp) (props : List MqttProp) : Moves Keeps (addProp p props) :=
  .bind allocFor_keeps fun _ => .ite (fun _ => .pure _) (fun _ => .pure _)

theorem featureProps_keeps (props : List MqttProp) : Moves Keeps (featureProps L props) :=
  .bind (addProp_keeps _ _) fun _ => .bind (addProp_keeps _ _) fun _ =>
    .ite (fun _ => addProp_keeps _ _) (fun _ => .pure _)

theorem connackProps_keeps (auto : Bool) : Moves Keeps (connackProps L auto) := by
  intro s
  refine readClient_at ?_
  split
  · exact refl s
  split
  · refine Moves.bind_at (allocFor_keeps s) ?_
    split
    · exact Moves.bind_at (featureProps_keeps _ _) (refl _)
    · exact refl _
  · exact Moves.bind_at (featureProps_keeps _ _) (refl _)

theorem sendConnAck_keeps (ack : ConnectAck) : Moves Keeps (sendConnAck L ack) := by
  intro s
  have hwrites : ∀ {s t : Conn}, Writes s t → Keeps s t := fun h => (h.serves (L := L) (P := fun _ => True)).served.keeps
  rcases sendConnAck_cases L ack s with ⟨rc, t, hsend, -, hw⟩ | ⟨wrRc, t, len, hsend, -, -, hw⟩
  · rw [hsend]
    exact hwrites hw
  · have ht : Keeps (s.noteConnAck ack) t := hwrites hw
    rw [hsend]
    dsimp only
    split
    · exact ht
    · exact ht

theorem drainResumed_keeps : Moves Keeps (drainResumed L) := fun s =>
  (drainResumed_serves (L := L) (P := fun _ => True) trivial s).served.keeps

theorem Keeps.addr {s t : Conn} (h : Keeps s t) : t.c.addr = s.c.addr := (congrArg (·.addr) h).symm

theorem onClient_kept {α : Type} {c : BrokerClient} (hc : b.client? a = some c) (default : α) {m : ClientM α}
    (hm : Moves Keeps m) : ∃ c', (onClient a default m b).2.client? a = some c' ∧ c'.kept = c.kept :=
  ⟨_, onClient_client? hc default (hm _).addr, (hm _).symm⟩

theorem afterConnAck_kept {c : BrokerClient} (hc : b.client? a = some c) (present : Bool) :
    ∃ c', (afterConnAck L a present b).2.client? a = some c' ∧ c'.kept = c.kept := by
  have hc₁ : (persistConnect a present b).2.client? a = some c := by
    rw [MqttBroker.client?, persistConnect_clients]
    exact hc
  obtain ⟨c₂, hc₂, hkept⟩ := onClient_kept hc₁ () (drainResumed_keeps (L := L))
  exact ⟨c₂.scrub, Chain.at?_writeAt_self hc₂ (Chain.at?_addr (x := c₂) hc₂), hkept⟩

/-- The record after the answer to a CONNECT that passed its checks; if the client could not be
told its id it is a refusal after all, and the session does not outlive the connection. -/
theorem acceptConnect_kept {c : BrokerClient} (hc : b.client? a = some c) (mc : InConnect) (auto present : Bool) :
    ∃ c', (acceptConnect L a mc auto present b).2.client? a = some c' ∧
      c'.kept = if (onClient a none (connackProps L auto) b).1.isSome then c.kept else {c.kept with sessionExpirySec := 0} := by
  obtain ⟨c₁, hc₁, hkept₁⟩ := onClient_kept hc none (connackProps_keeps (L := L) auto)
  rw [acceptConnect_eq]
  generalize onClient a none (connackProps L auto) b = r at hc₁ ⊢
  obtain ⟨props, b₁⟩ := r
  cases props with
  | none =>
    have hc₂ : (b₁.updateClient a (fun c => {c with sessionExpirySec := 0})).client? a =
        some {c₁ with sessionExpirySec := 0} := Chain.at?_writeAt_self hc₁ (Chain.at?_addr (x := c₁) hc₁)
    have hrefuse : Moves Keeps (refuseConnect L mc Reason.serverUnavailable) :=
      .bind (sendConnAck_keeps _) fun _ => .pure _
    obtain ⟨c₃, hc₃, hkept₃⟩ := onClient_kept hc₂ 0 hrefuse
    refine ⟨c₃, hc₃, hkept₃.trans ?_⟩
    show {c₁.kept with sessionExpirySec := 0} = {c.kept with sessionExpirySec := 0}
    rw [hkept₁]
  | some props =>
    obtain ⟨c₂, hc₂, hkept₂⟩ := onClient_kept hc₁ Code.badArg (sendConnAck_keeps (L := L) (acceptance mc present props))
    obtain ⟨c₃, hc₃, hkept₃⟩ := afterConnAck_kept (L := L) hc₂ present
    exact ⟨c₃, hc₃, hkept₃.trans (hkept₂.trans hkept₁)⟩

/-! ### The CONNACK -/

/-- The CONNACKs noted on the way from `b` to `b'` are all like `Q` says. -/
def Connacks (Q : Nat → UInt8 → UInt8 → Prop) (b b' : MqttBroker) : Prop :=
  ∃ obs, b'.env.trace = b.env.trace ++ obs ∧ ∀ conn flags code, Obs.connack conn flags code ∈ obs → Q conn flags code

theorem Connacks.trans {Q : Nat → UInt8 → UInt8 → Prop} {b' b'' : MqttBroker} (h : Connacks Q b b') (h' : Connacks Q b' b'') :
    Connacks Q b b'' := by
  obtain ⟨obs, htrace, hQ⟩ := h
  obtain ⟨obs', htrace', hQ'⟩ := h'
  refine ⟨obs ++ obs', by rw [htrace', htrace, List.append_assoc], fun conn flags code hmem => ?_⟩
  rcases List.mem_append.mp hmem with h | h
  · exact hQ conn flags code h
  · exact hQ' conn flags code h

theorem Connacks.of_eq {Q : Nat → UInt8 → UInt8 → Prop} {b' : MqttBroker} (h : b'.env.trace = b.env.trace) :
    Connacks Q b b' := ⟨[], by rw [h, List.append_nil], by simp⟩

/-- Nothing but an answer is a CONNACK. -/
theorem Advances.connacks {Q : Nat → UInt8 → UInt8 → Prop} {Z X Y : Nat → Prop} {b' : MqttBroker} (hb : Phase L X b)
    (h : Advances L (· ≠ .answer) Z Y b b') : Connacks Q b b' := by
  obtain ⟨obs, htrace, hnone⟩ := h.run.unanswered (fun _ hℓ => hℓ) hb.queues
  exact ⟨obs, htrace, fun conn flags code hmem => absurd hmem (hnone conn flags code)⟩

theorem sendConnAck_connacks {c : BrokerClient} (hc : b.client? a = some c) (default : Int) (ack : ConnectAck) :
    Connacks (fun conn flags code => conn = a ∧ flags = ack.flags ∧ code = ack.returnCode) b
      (onClient a default (sendConnAck L ack) b).2 := by
  have htrace : ∀ {s t : Conn}, Writes s t → t.env.trace = s.env.trace := fun h => congrArg CState.trace h.view
  rw [onClient_some hc]
  rcases sendConnAck_cases L ack ⟨c, b.env⟩ with ⟨rc, t, hsend, -, hw⟩ | ⟨wrRc, t, len, hsend, -, -, hw⟩
  · rw [hsend]
    exact .of_eq (htrace hw)
  · have ht : t.env.trace = b.env.trace ++ [.connack c.addr ack.flags ack.returnCode] := htrace hw
    refine ⟨[.connack c.addr ack.flags ack.returnCode], ?_, fun conn flags code hmem => ?_⟩
    · rw [hsend]
      dsimp only
      split
      · exact ht
      · exact ht
    · cases List.mem_singleton.mp hmem
      exact ⟨Chain.at?_addr hc, rfl, rfl⟩

/-- A CONNACK that accepts says whether a session is present. -/
theorem acceptConnect_connacks {X : Nat → Prop} (hb : Phase L X b) (hX : X a) (hw : Awaits b a) (mc : InConnect)
    (auto present : Bool) :
    Connacks (fun conn flags code => conn = a ∧ (code = 0 → flags = (if present then 1 else 0) ∧
      (onClient a none (connackProps L auto) b).1.isSome = true)) b (acceptConnect L a mc auto present b).2 := by
  have hprops : Advances L (· ≠ .answer) (fun _ => True) X b (onClient a none (connackProps L auto) b).2 :=
    onClient_minds hb hw.established none (connackProps_minds (by decide) auto)
  have hw₁ : Awaits (onClient a none (connackProps L auto) b).2 a :=
    hw.onClient none fun s => (connackProps_minds (P := (· ≠ .answer)) (by decide) auto s).same
  rw [acceptConnect_eq]
  refine (hprops.connacks hb).trans ?_
  have hb₁ := hprops.phase
  generalize onClient a none (connackProps L auto) b = r at hb₁ hw₁ ⊢
  obtain ⟨props, b₁⟩ := r
  obtain ⟨c, hc, he, -⟩ := hw₁
  cases props with
  | none =>
    have hc₂ : (b₁.updateClient a (fun c => {c with sessionExpirySec := 0})).client? a =
        some {c with sessionExpirySec := 0} := Chain.at?_writeAt_self hc (Chain.at?_addr (x := c) hc)
    obtain ⟨obs, htrace, hall⟩ := sendConnAck_connacks (L := L) hc₂ 0 (refusal mc Reason.serverUnavailable)
    refine ⟨obs, ?_, fun conn flags code hmem => ?_⟩
    · rw [onClient_some hc₂] at htrace ⊢
      exact htrace
    · obtain ⟨hconn, -, hcode⟩ := hall conn flags code hmem
      refine ⟨hconn, fun h0 => ?_⟩
      have hzero : (0 : UInt8) = Reason.serverUnavailable := h0 ▸ hcode
      exact absurd hzero (by decide)
  | some props =>
    obtain ⟨obs, htrace, hall⟩ := sendConnAck_connacks (L := L) hc Code.badArg (acceptance mc present props)
    have hsend : Advances L (fun _ => True) (fun _ => True) X b₁
        (onClient a Code.badArg (sendConnAck L (acceptance mc present props)) b₁).2 :=
      onClient_handled hb₁ hX _ fun c _ => sendConnAck_handled trivial _ ⟨c, b₁.env⟩
    have hh := (sendConnAck_handled (L := L) (P := fun _ => True) trivial (acceptance mc present props) ⟨c, b₁.env⟩).1
    have hafter : Advances L (· ≠ .answer) (fun _ => True) X
        (onClient a Code.badArg (sendConnAck L (acceptance mc present props)) b₁).2 _ :=
      afterConnAck_advances (by decide) hsend.phase ⟨_, onClient_client? hc _ hh.addr, hh.established.trans he⟩ present
    refine Connacks.trans ⟨obs, htrace, fun conn flags code hmem => ?_⟩ (hafter.connacks hsend.phase)
    obtain ⟨hconn, hflags, -⟩ := hall conn flags code hmem
    exact ⟨hconn, fun _ => ⟨hflags, rfl⟩⟩

/-! ### What is found of a session -/

/-- The subscriptions that belong to the session under a client id. -/
def ownedSubs (b : MqttBroker) (clientId : Bytes) : Nat :=
  if clientId.isEmpty then 0 else b.subs.countP (subOwnedBy b clientId)

/-- What an accepted CONNECT carries over from a connection, or finds without one: any
subscription, or any QoS 2 identifier. -/
def carried (b : MqttBroker) (a : Nat) (mc : InConnect) (clientId : Bytes) : Bool :=
  match findByClientId b clientId a with
  | some old => survivesTakeover mc old && (ownedSubs b clientId > 0 || (oldPersists old && qos2HasPending old))
  | none => !mc.cleanSession && ownedSubs b clientId > 0

theorem Spread.client?_still {T : Nat → Prop} {O : Prop} {b' : MqttBroker} (h : Spread T O b b') (x : Nat) :
    (b'.client? x).map BrokerClient.still = (b.client? x).map BrokerClient.still := by
  rcases Chain.forall₂_at? (a := x) (fun _ _ h => h.1.addr) h.clients with ⟨hnone, hnone'⟩ | ⟨c, c', hc, hc', hserved⟩
  · rw [MqttBroker.client?, MqttBroker.client?, hnone, hnone']
  · rw [MqttBroker.client?, MqttBroker.client?, hc, hc']
    exact congrArg some hserved.1.still

/-- Whose a subscription is depends on the client ids of the connections subscriptions point at. -/
theorem ownedSubs_congr {b' : MqttBroker} (hsubs : b'.subs = b.subs) (clientId : Bytes)
    (hids : ∀ x, b.Subscribed x → (b'.client? x).bind (·.clientId) = (b.client? x).bind (·.clientId)) :
    ownedSubs b' clientId = ownedSubs b clientId := by
  unfold ownedSubs
  split
  · rfl
  · rw [hsubs]
    refine List.countP_congr fun s hs => ?_
    unfold subOwnedBy
    cases hclient : s.client with
    | none => rfl
    | some x =>
      dsimp only
      rw [hids x ⟨s, hs, hclient⟩]

theorem subsReassociateClient_count (clientId : Bytes) : (subsReassociateClient clientId a b).1 = ownedSubs b clientId := by
  unfold subsReassociateClient ownedSubs
  split <;> rfl

theorem subsReassociateClient_client?_ne (clientId : Bytes) {x : Nat} (hx : x ≠ a) :
    (subsReassociateClient clientId a b).2.client? x = b.client? x := by
  unfold subsReassociateClient
  split
  · rfl
  · exact updateClient_client?_ne (f := fun c => {c with subCount := c.subCount + _}) (fun _ h => h) hx

theorem subsReassociateClient_client? (clientId : Bytes) {c : BrokerClient} (hc : b.client? a = some c) :
    ∃ c', (subsReassociateClient clientId a b).2.client? a = some c' := by
  unfold subsReassociateClient
  split
  · exact ⟨c, hc⟩
  · dsimp only
    generalize b.subs.countP (subOwnedBy b clientId) = count
    exact ⟨{c with subCount := c.subCount + count}, Chain.at?_writeAt_self hc (Chain.at?_addr (x := c) hc)⟩

/-- Whether anything is carried over from the connection at `x`, once it was closed. -/
theorem carryOver_result {new c : BrokerClient} {x : Nat} (hnew : b.client? a = some new) (hc : b.client? x = some c)
    (hne : a ≠ x) (survives : Bool) (clientId : Bytes) : (carryOver survives a x clientId b).1 =
      (survives && (ownedSubs b clientId > 0 || (oldPersists c && qos2HasPending c))) := by
  cases survives with
  | false => rfl
  | true =>
    have hc₁ : (subsReassociateClient clientId a b).2.client? x = some c :=
      (subsReassociateClient_client?_ne clientId hne.symm).trans hc
    obtain ⟨new₁, hnew₁⟩ := subsReassociateClient_client? clientId hnew
    have hqos2 : (qos2TakeoverAt a x (subsReassociateClient clientId a b).2).1 = (oldPersists c && qos2HasPending c) := by
      unfold qos2TakeoverAt
      rw [hnew₁, hc₁]
      dsimp only
      unfold qos2Takeover
      cases oldPersists c <;> cases qos2HasPending c <;> rfl
    show (decide ((subsReassociateClient clientId a b).1 > 0) ||
      (qos2TakeoverAt a x (subsReassociateClient clientId a b).2).1) = _
    rw [hqos2, subsReassociateClient_count, Bool.true_and]

/-- What an accepted CONNECT carries over, told from the state it was handled in. -/
theorem claimSession_result {clientId : Bytes} {auto : Bool} {b₁ : MqttBroker} (h : Opens L b a mc clientId auto b₁)
    (hb : Phase L Nowhere b) (hfree : ¬b.Subscribed a) :
    (claimSession L a mc clientId (pendingWillCancel clientId b₁).2).1 = carried b a mc clientId := by
  let b₂ := (pendingWillCancel clientId b₁).2
  have hids : ∀ x, b.Subscribed x → x ≠ a := fun x hx hxa => hfree (hxa ▸ hx)
  have howned : ownedSubs b₂ clientId = ownedSubs b clientId :=
    ownedSubs_congr h.subs clientId fun x hx => congrArg (Option.bind · _) (h.others x (hids x hx))
  simp only [claimSession, run_bind, run_get]
  have hfound : findByClientId b₂ clientId a = findByClientId b clientId a := h.found
  rw [hfound]
  unfold carried
  cases hold : findByClientId b clientId a with
  | some old =>
    obtain ⟨hmem, hne, -⟩ := findByClientId_some hold
    have hc : b₂.client? old.addr = some old := (h.others old.addr hne).trans (hb.client?_of_mem hmem)
    have hspread := (closeTakenOver_fans (L := L) (P := fun _ => True) (T := fun x => b₂.Subscribed x ∨ x = old.addr)
      (O := False) ⟨trivial, trivial⟩ old (.inr rfl) fun x hx => .inl hx).spread
    let b₃ := (closeTakenOver L old b₂).2
    have hstill := hspread.client?_still
    obtain ⟨c₃, hc₃, hsame⟩ : ∃ c₃, b₃.client? old.addr = some c₃ ∧ c₃.still = old.still := by
      have hat := hstill old.addr
      rw [hc] at hat
      exact Option.map_eq_some_iff.mp hat
    obtain ⟨new, hnew, -⟩ := h.client
    obtain ⟨new₃, hnew₃, -⟩ : ∃ c₃, b₃.client? a = some c₃ ∧ c₃.still = new.still := by
      have hat := hstill a
      rw [show b₂.client? a = some new from hnew] at hat
      exact Option.map_eq_some_iff.mp hat
    have howned₃ : ownedSubs b₃ clientId = ownedSubs b₂ clientId := by
      refine ownedSubs_congr hspread.subs clientId fun x _ => ?_
      have hmap : ∀ o : Option BrokerClient, o.bind (·.clientId) = (o.map BrokerClient.still).bind (·.clientId) := by
        rintro (_ | c) <;> rfl
      rw [hmap, hstill x, ← hmap]
    have hpersists : oldPersists c₃ = oldPersists old := by
      show oldPersists c₃.still = oldPersists old.still
      rw [hsame]
    have hpending : qos2HasPending c₃ = qos2HasPending old := by
      show qos2HasPending c₃.still = qos2HasPending old.still
      rw [hsame]
    show (carryOver (survivesTakeover mc old) a old.addr clientId b₃).1 = _
    rw [carryOver_result hnew₃ hc₃ hne.symm, hpersists, hpending, howned₃, howned]
  | none =>
    show ((if mc.cleanSession then _ else _ : BrokerM Bool) b₂).1 = _
    cases mc.cleanSession with
    | true => rfl
    | false =>
      show decide ((subsReassociateClient clientId a b₂).1 > 0) = _
      rw [subsReassociateClient_count, howned]
      rfl

end opening

end WolfMqtt.Broker
