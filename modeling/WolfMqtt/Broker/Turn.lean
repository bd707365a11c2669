import WolfMqtt.Broker.Answer

/-! One connection's turn.

A turn writes what is half written, drains, and only then reads; the packet it reads is
handled in the state that leaves (`dispatched`). The steps of the delivery system that
some property does not survive are taken by two packets only, a CONNECT and a PUBACK, and
`Permits` says which of them a packet needs. -/
namespace WolfMqtt.Broker

/-! ### Before a packet is read -/

section turn
variable {L : Limits} {P : Label → Prop} {Z : Nat → Prop} {b : MqttBroker} {a : Nat}

/-- Nothing is in between, so nothing can be left in between. -/
theorem nowhere {Y : Nat → Prop} {a : Nat} : ∀ x, Nowhere x → x ≠ a → Y x := fun _ h _ => h.elim

theorem drainResumed_idle {s : Conn} (h : s.c.outQ = {}) : (drainResumed L s).2 = s := by
  have hcount : ¬s.c.outQ.count > 0 := by
    rw [h]
    decide
  show ((if s.c.outQ.count > 0 then _ else _ : ClientM Unit) s).2 = s
  rw [if_neg hcount]
  rfl

theorem drainResumed_advances (hP : Ordinary P) (hb : Phase L Nowhere b) (a : Nat) :
    Advances L P Z Nowhere b (onClient a () (drainResumed L) b).2 := by
  refine onClient_advances hb () fun c hc => ?_
  have hserves := drainResumed_serves (L := L) hP.plain ⟨c, b.env⟩
  refine ⟨hserves.served.tended fun he => ?_, hserves.run⟩
  have hidle := (hb.sound c (Chain.at?_mem hc)).idle he
  rw [drainResumed_idle (s := ⟨c, b.env⟩) hidle.outQ]

theorem resumeConnAck_advances (hP : Ordinary P) (hT : P .take) (hb : Phase L Nowhere b) :
    Advances L P Z Nowhere b (resumeConnAck L a b).2 := by
  simp only [resumeConnAck, run_bind, run_get]
  cases hc : b.client? a with
  | none => exact .refl hb
  | some c =>
    have hwrites := packetWrite_writes L c.connackPendingLen ⟨c, b.env⟩
    have hwrite : Advances L P Z Nowhere b (onClient a Code.badArg (packetWrite L c.connackPendingLen) b).2 :=
      onClient_writes a hb _ (packetWrite_writes L _)
    have hc₁ := onClient_client? hc Code.badArg hwrites.tended.addr
    refine .bind hwrite fun hb₁ => ?_
    generalize onClient a Code.badArg (packetWrite L c.connackPendingLen) b = r at hb₁ hc₁ ⊢
    obtain ⟨rc, b₁⟩ := r
    dsimp only at hb₁ hc₁ ⊢
    split
    · exact .refl hb₁
    split
    · exact .bind (closeConnAck_advances hP hT hb₁ _ nowhere) fun hb₂ => .refl hb₂
    split
    · exact .bind (closeConnAck_advances hP hT hb₁ _ nowhere) fun hb₂ => .refl hb₂
    rename_i hnot
    refine .bind (getTime_advances hb₁) fun hb₂ => ?_
    have hc₂ : (getTime b₁).2.client? a = b₁.client? a := rfl
    rw [hc₁] at hc₂
    generalize getTime b₁ = r at hb₂ hc₂ ⊢
    obtain ⟨now, b₂⟩ := r
    dsimp only at hb₂ hc₂ ⊢
    have hout : Advances L P Z Nowhere b₂ (b₂.updateClient a (fun c => {c with connackPendingLen := 0, lastRx := now})) := by
      refine handleClient_advances (f := fun c => {c with connackPendingLen := 0, lastRx := now}) hb₂ (fun x hx => ?_)
        (fun _ _ => rfl) nowhere
      obtain rfl := Option.some.inj (hc₂.symm.trans hx)
      have hrefused : (packetWrite L c.connackPendingLen ⟨c, b.env⟩).2.c.connackRefused = false := by
        rw [hwrites.tended.connack.2]
        simpa using hnot
      refine ⟨⟨rfl, rfl, fun _ => ⟨rfl, rfl⟩, .inl ⟨rfl, rfl⟩, fun _ h => ⟨h.1, h.2, h.3, h.4⟩, fun _ h => ?_⟩,
        fun _ hopen hconn he => ?_⟩
      · exact absurd (hrefused.symm.trans h) (by decide)
      · have hset := (hb₂.settled _ (Chain.at?_mem hc₂) id hopen hconn he).2
        rw [hrefused] at hset
        cases hset
    refine .bind hout fun hb₃ => .bind (drainResumed_advances hP hb₃ a) fun hb₄ => .refl hb₄

theorem resumeDirect_advances (hP : Ordinary P) (hT : P .take) (hb : Phase L Nowhere b) :
    Advances L P Z Nowhere b (resumeDirect L a b).2 := by
  simp only [resumeDirect, run_bind, run_get]
  cases b.client? a with
  | none => exact .refl hb
  | some c =>
    refine .bind (onClient_writes a hb _ (writeDirect_writes L _)) fun hb₁ => ?_
    split
    · exact .refl hb₁
    refine .bind (onClient_writes a hb₁ _ (zeroTxBuf_writes _)) fun hb₂ => ?_
    split
    · exact .bind (abnormalClose_advances hP hT hb₂ nowhere) fun hb₃ => .refl hb₃
    · exact .refl hb₂

/-! ### The clock -/

theorem keepAliveTimeout_advances (hP : Ordinary P) (hT : P .take) (hb : Phase L Nowhere b) (c : BrokerClient) :
    Advances L P Z Nowhere b (keepAliveTimeout L a c b).2 := by
  refine .bind (.when_at hb fun _ => ?_) fun hb₁ => abnormalClose_advances hP hT hb₁ nowhere
  exact .bind (onClient_writes a hb 0 (sendDisconnect_writes L _)) fun hb₁ => .refl hb₁

theorem checkTimeouts_advances (hP : Ordinary P) (hT : P .take) (hb : Phase L Nowhere b) :
    Advances L P Z Nowhere b (checkTimeouts L a b).2 := by
  simp only [checkTimeouts, run_bind, run_get]
  cases b.client? a with
  | none => exact .refl hb
  | some c =>
    dsimp only
    split
    · exact .bind (getTime_advances hb) fun hb₁ => .when_at hb₁ fun _ => closeConnAck_advances hP hT hb₁ _ nowhere
    split
    · exact .bind (getTime_advances hb) fun hb₁ => .when_at hb₁ fun _ => keepAliveTimeout_advances hP hT hb₁ c
    split
    · exact .bind (getTime_advances hb) fun hb₁ => .when_at hb₁ fun _ => dropClient_advances hP hb₁ nowhere
    · exact .refl hb

theorem finishDirect_advances (hP : Ordinary P) (hT : P .take) (hb : Phase L Nowhere b) :
    Advances L P Z Nowhere b (finishDirect L a b).2 := by
  simp only [finishDirect, run_bind, run_get]
  cases b.client? a with
  | none => exact .refl hb
  | some c =>
    dsimp only
    split
    · refine .bind (resumeDirect_advances hP hT hb) fun hb₁ => ?_
      exact .bind (.when_at hb₁ fun _ => checkTimeouts_advances hP hT hb₁) fun hb₂ => .refl hb₂
    · exact .refl hb

theorem finishQueued_advances (hP : Ordinary P) (hT : P .take) (hb : Phase L Nowhere b) :
    Advances L P Z Nowhere b (finishQueued L a b).2 := by
  simp only [finishQueued, run_bind, run_get]
  cases hc : b.client? a with
  | none => exact .refl hb
  | some c =>
    dsimp only
    split
    · refine .bind (resumeConnAck_advances hP hT hb) fun hb₁ => ?_
      exact .bind (.when_at hb₁ fun _ => checkTimeouts_advances hP hT hb₁) fun hb₂ => .refl hb₂
    split
    · rename_i hlive
      have ha : b.Established a := ⟨c, hc, ((hb.sound c (Chain.at?_mem hc)).live hlive.1).1⟩
      refine .bind (onClient_serves hb ha 0 fun c _ => drainOutQueue_serves hP.plain _) fun hb₁ => ?_
      split
      · exact .bind (checkTimeouts_advances hP hT hb₁) fun hb₂ => .refl hb₂
      split
      · exact .bind (abnormalClose_advances hP hT hb₁ nowhere) fun hb₂ => .refl hb₂
      · exact .refl hb₁
    · exact .refl hb

theorem finishWrites_advances (hP : Ordinary P) (hT : P .take) (hb : Phase L Nowhere b) :
    Advances L P Z Nowhere b (finishWrites L a b).2 := by
  refine .bind (finishDirect_advances hP hT hb) fun hb₁ => ?_
  split
  · exact finishQueued_advances hP hT hb₁
  · exact .refl hb₁

/-- A turn goes on to read only when no CONNACK is pending. -/
theorem finishQueued_true (h : (finishQueued L a b).1 = true) {c : BrokerClient}
    (hc : (finishQueued L a b).2.client? a = some c) : c.connackPendingLen = 0 := by
  simp only [finishQueued, run_bind, run_get] at h hc
  cases hc₀ : b.client? a with
  | none =>
    rw [hc₀] at h
    cases h
  | some c₀ =>
    rw [hc₀] at h hc
    dsimp only at h hc
    by_cases hpend : c₀.connackPendingLen ≠ 0
    · rw [if_pos hpend] at h
      cases h
    rw [if_neg hpend] at h hc
    have hpend : c₀.connackPendingLen = 0 := not_not.mp hpend
    split at h
    · rename_i hlive
      rw [if_pos hlive] at hc
      have hserved := (drainOutQueue_serves (L := L) (P := fun _ => True) trivial ⟨c₀, b.env⟩).served
      have hc₁ := onClient_client? hc₀ (0 : Int) hserved.addr
      simp only [run_bind] at h hc
      generalize onClient a 0 (drainOutQueue L) b = r at hc₁ h hc
      split at h
      · cases h
      · rename_i hcont
        rw [if_neg hcont] at hc
        split at h
        · cases h
        · rename_i hneg
          rw [if_neg hneg] at hc
          obtain rfl := Option.some.inj (hc₁.symm.trans hc)
          exact (congrArg (·.connackPendingLen) hserved.still).trans hpend
    · rename_i hlive
      rw [if_neg hlive] at hc
      obtain rfl := Option.some.inj (hc₀.symm.trans hc)
      exact hpend

theorem finishWrites_true (h : (finishWrites L a b).1 = true) {c : BrokerClient}
    (hc : (finishWrites L a b).2.client? a = some c) : c.connackPendingLen = 0 := by
  simp only [finishWrites, run_bind] at h hc
  generalize finishDirect L a b = r at h hc
  split at h
  · rename_i hgo
    rw [if_pos hgo] at hc
    exact finishQueued_true h hc
  · cases h

/-! ### Dispatch -/

/-- Which steps of the delivery system a packet needs, in the state it is handled in. -/
def Permits (L : Limits) (P : Label → Prop) (b : MqttBroker) (a : Nat) : InPacket → Prop
  | .connect (.ok mc) => Accepts L b a mc → ∀ c, b.client? a = some c → Finds P b a mc (connectId c b.nextAutoId mc)
  | .publishAck (.ok packetId) => ∀ c e, b.client? a = some c → findOutPub c packetId .publishSent = some e →
      e.qos = .qos2 → P .pubackQos2
  | _ => True

theorem closeIfFatal_advances (hP : Ordinary P) (hT : P .take) (hb : Phase L Nowhere b) (rc : Int) :
    Advances L P Z Nowhere b (closeIfFatal L a rc b).2 := by
  unfold closeIfFatal
  split
  · exact .bind (abnormalClose_advances hP hT hb nowhere) fun hb₁ => .refl hb₁
  · exact .refl hb

/-- Once its CONNECT has been handled, a connection is in a phase again. -/
theorem afterConnect_advances (hP : Ordinary P) (hT : P .take) (hb : Phase L (· = a) b) {rc : Int}
    (hadm : Admitted L b a rc) : Advances L P Z Nowhere b (afterConnect L a rc b).2 := by
  simp only [afterConnect, run_bind, run_get]
  cases hc : b.client? a with
  | none =>
    refine .refl {hb with settled := fun c hmem _ => hb.settled c hmem ?_}
    rintro rfl
    rw [hb.client?_of_mem hmem] at hc
    cases hc
  | some c =>
    dsimp only
    split
    · exact .bind (endConnect_advances hP hT hb fun x hx hne => absurd hx hne) fun hb₁ => .refl hb₁
    rename_i hans
    have hans : rc > 0 ∨ c.connackPendingLen ≠ 0 := by
      by_contra hno
      exact hans ⟨Int.not_lt.mp fun h => hno (.inl h), not_not.mp fun h => hno (.inr h)⟩
    have hsound := hb.sound c (Chain.at?_mem hc)
    cases hrefused : c.connackRefused with
    | true =>
      -- the refusal is still going out
      have hset : c.Settled := fun _ _ _ => ⟨hsound.refused hrefused, hrefused⟩
      refine .refl {hb with settled := fun x hmem _ => ?_}
      by_cases hx : x.addr = a
      · obtain rfl := Option.some.inj (hc.symm.trans (hx ▸ hb.client?_of_mem hmem))
        exact hset
      · exact hb.settled x hmem hx
    | false =>
      obtain ⟨he, hlevel, hroom⟩ := hadm c hc hrefused hans
      refine rephase_advances (a := a) (f := fun c => {c with connected := true}) hb (fun x hx => ?_)
        fun x hx hne => absurd hx hne
      obtain rfl := Option.some.inj (hc.symm.trans hx)
      refine ⟨rfl, rfl, fun h => ⟨fun hno => ?_, fun _ => ⟨he, hlevel, hroom⟩, h.refused⟩, fun _ _ => by rintro ⟨⟩, id,
        fun _ _ => ⟨he, rfl⟩⟩
      exact absurd (he.symm.trans hno) (by decide)

theorem connect_advances (hP : Ordinary P) (hT : P .take) (hA : P .answer) (hb : Phase L Nowhere b) (hZ : Z a) {c : BrokerClient}
    (hc : b.client? a = some c) (hopen : c.sockOpen = true) (hconn : c.connected = false)
    (hpend : c.connackPendingLen = 0) (decoded : Except DecodeError InConnect) (hperm : Permits L P b a (.connect decoded)) :
    Advances L P Z Nowhere b (dispatch L a (.connect decoded) b).2 := by
  have hnew : c.sessionEstablished = false := by
    by_contra h
    exact (hb.settled c (Chain.at?_mem hc) id hopen hconn (by simpa using h)).1 hpend
  have hfinds : ∀ mc, decoded = .ok mc → Accepts L b a mc → Finds P b a mc (connectId c b.nextAutoId mc) := by
    rintro mc rfl haccepts
    exact hperm haccepts c hc
  have hconnect := handleConnect_advances (X := (· = a)) hP hA (hb.mono fun _ h => h.elim) rfl hZ hc hnew hpend decoded hfinds
  refine .bind (X := (· = a)) hconnect.1 fun hb₁ => ?_
  exact afterConnect_advances hP hT hb₁ hconnect.2

theorem disconnectWill_advances (hP : Ordinary P) (hb : Phase L Nowhere b) (reason : UInt8) :
    Advances L P Z Nowhere b (disconnectWill L a reason b).2 := by
  unfold disconnectWill
  split
  · exact publishWill_advances hP hb a
  · exact clearWill_advances hb a

theorem applyDisconnect_advances (hP : Ordinary P) (hb : Phase L Nowhere b) (c : BrokerClient) (d : InDisconnect) :
    Advances L P Z Nowhere b (applyDisconnect L a c d b).2 := by
  unfold applyDisconnect
  split
  · exact .refl hb
  generalize (findProp d.props .sessionExpiryInterval).map (·.dataInt) = expiry
  have hexpiry : Advances L P Z Nowhere b
      (b.updateClient a (fun c => {c with sessionExpirySec := expiry.getD c.sessionExpirySec})) := by
    refine updateClient_advances (f := fun c => {c with sessionExpirySec := _}) hb (fun c _ => ?_) (fun _ _ => rfl)
    exact SameConn.tended ⟨rfl, rfl, ⟨rfl, rfl⟩, ⟨rfl, rfl⟩, .inl ⟨rfl, rfl⟩⟩ fun _ h => ⟨h.1, h.2, h.3, h.4⟩
  exact .bind hexpiry fun hb₁ => .bind (disconnectWill_advances hP hb₁ d.reasonCode) fun hb₂ => .refl hb₂

theorem handleDisconnect_advances (hP : Ordinary P) (hT : P .take) (hb : Phase L Nowhere b) (remainLen : Nat)
    (decoded : Except DecodeError InDisconnect) :
    Advances L P Z Nowhere b (handleDisconnect L a remainLen decoded b).2 := by
  have hquiet : Advances L P Z Nowhere b
      ((do modify (·.updateClient a BrokerClient.clearWill); followDisconnect L a : BrokerM Unit) b).2 :=
    .bind (clearWill_advances hb a) fun hb₁ => followDisconnect_advances hP hT hb₁ nowhere
  simp only [handleDisconnect, run_bind, run_get]
  cases b.client? a with
  | none => exact .refl hb
  | some c =>
    dsimp only
    split
    · exact abnormalClose_advances hP hT hb nowhere
    split
    · cases decoded with
      | error e => exact hquiet
      | ok d =>
        refine .bind (applyDisconnect_advances hP hb c d) fun hb₁ => ?_
        split
        · exact followDisconnect_advances hP hT hb₁ nowhere
        · exact abnormalClose_advances hP hT hb₁ nowhere
    · exact hquiet

theorem onAck_advances (hP : Ordinary P) (hT : P .take) (hb : Phase L Nowhere b) (ha : b.Established a)
    (decoded : Except DecodeError Nat) {handler : Nat → ClientM Unit}
    (hh : ∀ packetId, decoded = .ok packetId → ∀ c, b.client? a = some c →
      Serves L P ⟨c, b.env⟩ (handler packetId ⟨c, b.env⟩).2) :
    Advances L P Z Nowhere b (onAck L a decoded handler b).2 := by
  cases decoded with
  | error e => exact closeIfFatal_advances hP hT hb _
  | ok packetId => exact .bind (onClient_serves hb ha () fun c hc => hh packetId rfl c hc) fun hb₁ => .refl hb₁

/-- A packet of a live connection. -/
theorem live_advances (hP : Ordinary P) (hT : P .take) (hb : Phase L Nowhere b) {c : BrokerClient}
    (hc : b.client? a = some c) (hlive : c.connected = true) (p : InPacket) (hp : p.isConnect = false)
    (hperm : Permits L P b a p) : Advances L P Z Nowhere b (dispatch L a p b).2 := by
  obtain ⟨he, -, hroom⟩ := (hb.sound c (Chain.at?_mem hc)).live hlive
  have ha : b.Established a := ⟨c, hc, he⟩
  cases p with
  | connect decoded => cases hp
  | publish decoded =>
    exact .bind (handlePublish_advances hP hb ha decoded) fun hb₁ => closeIfFatal_advances hP hT hb₁ _
  | publishAck decoded =>
    refine onAck_advances hP hT hb ha decoded fun packetId hdec x hx => onPubAck_serves hP.plain packetId fun e hfind hq => ?_
    subst hdec
    exact hperm x e hx hfind hq
  | publishRec decoded =>
    refine .bind (onClient_serves hb ha _ fun c _ => handlePublishRec_serves hP.plain hroom decoded _) fun hb₁ => ?_
    exact closeIfFatal_advances hP hT hb₁ _
  | publishRel decoded =>
    refine .bind (onClient_minds hb ha _ (handlePublishRel_minds decoded)) fun hb₁ => ?_
    exact closeIfFatal_advances hP hT hb₁ _
  | publishComp decoded =>
    exact onAck_advances hP hT hb ha decoded fun packetId _ x _ => onPubComp_serves hP.plain packetId _
  | subscribe decoded =>
    exact .bind (handleSubscribe_advances hP hb ha decoded) fun hb₁ => closeIfFatal_advances hP hT hb₁ _
  | unsubscribe decoded =>
    exact .bind (handleUnsubscribe_advances hb a decoded) fun hb₁ => closeIfFatal_advances hP hT hb₁ _
  | pingReq remainLen =>
    simp only [dispatch]
    split
    · exact .bind (abnormalClose_advances hP hT hb nowhere) fun hb₁ => .refl hb₁
    · exact .bind (onClient_writes a hb _ (sendPingResp_writes L)) fun hb₁ => closeIfFatal_advances hP hT hb₁ _
  | disconnect remainLen decoded =>
    exact .bind (handleDisconnect_advances hP hT hb remainLen decoded) fun hb₁ => .refl hb₁
  | unhandled => exact .bind (abnormalClose_advances hP hT hb nowhere) fun hb₁ => .refl hb₁

/-! ### A turn and an event -/

/-- Is a packet read from this connection handled? A CONNECT must come first, and come once. -/
def BrokerClient.hears (c : BrokerClient) (p : InPacket) : Bool := c.sockOpen && c.connected != p.isConnect

/-- The packet an event has the broker handle, with the connection it came on and the state it
is handled in. -/
def dispatched (L : Limits) (b : MqttBroker) (e : Event × Script) : Option (Nat × InPacket × MqttBroker) :=
  match e.1 with
  | .process a (.packet true p) =>
    let r := finishWrites L a {b with env := b.env.arm e.2}
    if r.1 && (r.2.client? a).any (·.hears p) then some (a, p, (stampRx a r.2).2) else none
  | _ => none

theorem stampRx_advances (hb : Phase L Nowhere b) (a : Nat) : Advances L P Z Nowhere b (stampRx a b).2 := by
  refine .bind (getTime_advances hb) fun hb₁ => ?_
  refine updateClient_advances (f := fun c => {c with lastRx := _}) hb₁ (fun c _ => ?_) (fun _ _ => rfl)
  exact SameConn.tended ⟨rfl, rfl, ⟨rfl, rfl⟩, ⟨rfl, rfl⟩, .inl ⟨rfl, rfl⟩⟩ fun _ h => ⟨h.1, h.2, h.3, h.4⟩

theorem stampRx_client? {c : BrokerClient} (hc : b.client? a = some c) :
    (stampRx a b).2.client? a = some {c with lastRx := (getTime b).1} := by
  have haddr : c.addr = a := Chain.at?_addr hc
  exact Chain.at?_writeAt_self (f := fun c => {c with lastRx := (getTime b).1}) hc haddr

/-- A packet that arrives on a connection that no CONNACK is pending on. -/
theorem receivePacket_advances (hP : Ordinary P) (hT : P .take) (hA : P .answer) (hb : Phase L Nowhere b) {c : BrokerClient}
    (hc : b.client? a = some c) (hopen : c.sockOpen = true) (hpend : c.connackPendingLen = 0) (valid : Bool) (p : InPacket)
    (hperm : valid = true → c.hears p = true → Permits L P (stampRx a b).2 a p ∧ (p.isConnect = true → Z a)) :
    Advances L P Z Nowhere b (receivePacket L a valid p b).2 := by
  refine .bind (stampRx_advances hb a) fun hb₁ => ?_
  have hc₁ := stampRx_client? hc
  generalize (stampRx a b).2 = b₁ at hb₁ hc₁ hperm ⊢
  simp only [run_bind, run_get, hc₁]
  have hgo : Advances L P Z Nowhere b₁ (dispatch L a p b₁).2 → Advances L P Z Nowhere b₁
      ((if (dispatch L a p b₁).1 = true then checkTimeouts L a else pure () : BrokerM Unit) (dispatch L a p b₁).2).2 := by
    refine fun h => h.trans fun hb₂ => ?_
    split
    · exact checkTimeouts_advances hP hT hb₂
    · exact .refl hb₂
  cases valid with
  | false =>
    simp only [Bool.not_false, if_true]
    split
    · exact abnormalClose_advances hP hT hb₁ nowhere
    · exact dropClient_advances hP hb₁ nowhere
  | true =>
    simp only [Bool.not_true, Bool.false_eq_true, if_false]
    cases hconn : c.connected with
    | true =>
      cases hp : p.isConnect with
      | true =>
        simp only [Bool.not_true, Bool.false_eq_true, if_false, and_self, if_true]
        exact abnormalClose_advances hP hT hb₁ nowhere
      | false =>
        have hhears : c.hears p = true := by simp [BrokerClient.hears, hopen, hconn, hp]
        simp only [Bool.not_true, Bool.false_eq_true, and_false, false_and, if_false]
        exact hgo (live_advances hP hT hb₁ hc₁ hconn p hp (hperm rfl hhears).1)
    | false =>
      cases hp : p.isConnect with
      | true =>
        have hhears : c.hears p = true := by simp [BrokerClient.hears, hopen, hconn, hp]
        obtain ⟨hperm, hZ⟩ := hperm rfl hhears
        simp only [Bool.not_true, Bool.false_eq_true, and_false, false_and, if_false]
        cases p with
        | connect decoded => exact hgo (connect_advances hP hT hA hb₁ (hZ rfl) hc₁ hopen hconn hpend decoded hperm)
        | _ => cases hp
      | false =>
        simp only [Bool.not_false, and_self, if_true]
        exact dropClient_advances hP hb₁ nowhere

theorem receive_advances (hP : Ordinary P) (hT : P .take) (hA : P .answer) (hb : Phase L Nowhere b)
    (hpend : ∀ c, b.client? a = some c → c.connackPendingLen = 0) (rx : Rx)
    (hperm : ∀ p, rx = .packet true p → (b.client? a).any (·.hears p) = true →
      Permits L P (stampRx a b).2 a p ∧ (p.isConnect = true → Z a)) :
    Advances L P Z Nowhere b (receive L a rx b).2 := by
  simp only [receive, run_bind, run_get]
  cases hc : b.client? a with
  | none => exact .refl hb
  | some c =>
    dsimp only
    cases hopen : c.sockOpen with
    | false => exact abnormalClose_advances hP hT hb nowhere
    | true =>
      cases rx with
      | nothing => exact checkTimeouts_advances hP hT hb
      | failed => exact abnormalClose_advances hP hT hb nowhere
      | packet valid p =>
        refine receivePacket_advances hP hT hA hb hc hopen (hpend c hc) valid p fun hvalid hhears => ?_
        subst hvalid
        exact hperm p rfl (by rw [hc]; exact hhears)

/-- A connection is accepted. -/
theorem clientAdd_advances (hP : Ordinary P) (hb : Phase L Nowhere b) : Advances L P Z Nowhere b (clientAdd b).2 := by
  refine alloc_at (fun env ht hn hp => (Fans.env hP ht (Nat.le_of_eq hn.symm) hp).advances hb) fun env ht hn _ => ?_
  obtain ⟨htt, htn⟩ := getTime_env env
  let b₁ : MqttBroker := {b with
    clients := {addr := b.env.nextAddr, lastRx := env.getTime.1} :: b.clients
    env := env.getTime.2}
  show Advances L P Z Nowhere b b₁
  have hrun : QRun L P b.view b₁.view := by
    have hview : b₁.view = {b.view with conns := {addr := b.view.nextAddr} :: b.view.conns, nextAddr := b.view.nextAddr + 1} := by
      simp only [b₁, MqttBroker.view, htt.trans ht, htn.trans hn]
      rfl
    rw [hview]
    exact .step hP.plain .accept
  refine ⟨⟨hrun.inv hb.queues, fun x hx => ?_, ?_, ?_⟩, hrun, ?_⟩
  · obtain ⟨c, hc, he⟩ := hb.owned x hx
    refine ⟨c, ?_, he⟩
    have hne : b.env.nextAddr ≠ x := by
      have hlt : c.addr < b.env.nextAddr := hb.queues.conns_lt c.view (List.mem_map_of_mem (Chain.at?_mem hc))
      rw [show c.addr = x from Chain.at?_addr hc] at hlt
      exact Nat.ne_of_gt hlt
    exact (Chain.at?_cons_ne (x := ({addr := b.env.nextAddr, lastRx := env.getTime.1} : BrokerClient)) hne b.clients).trans hc
  · intro c hc
    rcases List.mem_cons.mp hc with rfl | hc
    · exact ⟨fun _ => ⟨rfl, rfl, rfl, rfl⟩, by rintro ⟨⟩, by rintro ⟨⟩⟩
    · exact hb.sound c hc
  · intro c hc hX
    rcases List.mem_cons.mp hc with rfl | hc
    · rintro - - ⟨⟩
    · exact hb.settled c hc hX
  · intro c hc he _
    rcases List.mem_cons.mp hc with rfl | hc
    · cases he
    · exact ⟨c, hc, rfl, rfl, he⟩

theorem sweep_advances (hP : Ordinary P) (hb : Phase L Nowhere b) : Advances L P Z Nowhere b (sweep b).2 := by
  refine .bind (getTime_advances hb) fun hb₁ => Moves.get_at (R := Advances L P Z Nowhere) (.when_at hb₁ fun _ => ?_)
  exact .bind (orphanExpireSweep_advances hP hb₁) fun hb₂ => .of_same hb₂ rfl rfl rfl

/-- One event of the broker, in the delivery system: the packet it handles says which steps it
needs, and a CONNECT which connection may get a session. -/
theorem step_advances (hP : Ordinary P) (hT : P .take) (hA : P .answer) (hb : Phase L Nowhere b) (e : Event × Script)
    (hperm : ∀ a p b', dispatched L b e = some (a, p, b') → Permits L P b' a p ∧ (p.isConnect = true → Z a)) :
    Advances L P Z Nowhere b (step L b e) := by
  obtain ⟨ev, script⟩ := e
  have harm : Advances L P Z Nowhere b {b with env := b.env.arm script} := .of_same hb rfl rfl rfl
  refine harm.trans fun hb₁ => ?_
  cases ev with
  | sweep => exact sweep_advances hP hb₁
  | accept => exact clientAdd_advances hP hb₁
  | pendingWills => exact (pendingWillProcess_fans hP hb₁.owned).advances hb₁
  | process a rx =>
    have hpend := @finishWrites_true L {b with env := b.env.arm script} a
    refine .bind (finishWrites_advances hP hT hb₁) fun hb₂ => ?_
    have hdisp : ∀ p, rx = .packet true p → (finishWrites L a {b with env := b.env.arm script}).1 = true →
        ((finishWrites L a {b with env := b.env.arm script}).2.client? a).any (·.hears p) = true →
        dispatched L b (.process a rx, script) =
          some (a, p, (stampRx a (finishWrites L a {b with env := b.env.arm script}).2).2) := by
      rintro p rfl hgo hhears
      simp only [dispatched, hgo, hhears, Bool.and_self, if_true]
    generalize finishWrites L a {b with env := b.env.arm script} = r at hb₂ hpend hdisp ⊢
    obtain ⟨go, b₂⟩ := r
    cases go with
    | false => exact .refl hb₂
    | true => exact receive_advances hP hT hA hb₂ (fun c hc => hpend rfl hc) rx fun p hrx hhears => hperm a p _ (hdisp p hrx rfl hhears)

end turn

end WolfMqtt.Broker
