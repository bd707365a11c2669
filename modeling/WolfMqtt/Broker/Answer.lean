import WolfMqtt.Broker.Admit

/-! The answer to a CONNECT.

A CONNACK that could be encoded goes to the transport. If it accepts, or is deferred
without refusing, the connection has a session and a level, and the transmit buffer has
room for a packet: that is what makes the connection live. -/
namespace WolfMqtt.Broker

/-! ### The CONNACK -/

theorem encodePacket_room {txLen : Nat} {type : PacketType} {qos : QoS} {body : Bytes}
    (h : (encodePacket txLen type qos body).rc > 0) : maxLenBytes < txLen := by
  unfold encodePacket at h
  dsimp only at h
  by_contra hroom
  have hfail : encodeFixedHeader txLen body.length type false qos false = .fail Code.outOfBuffer := by
    unfold encodeFixedHeader
    rw [if_pos (by omega)]
  rw [hfail, if_pos (by decide)] at h
  exact absurd h (by decide)

theorem encodePropBlock_error {type : PacketType} {props : List MqttProp} {e : Int}
    (h : encodePropBlock type props = .error e) : ¬e > 0 := by
  unfold encodePropBlock at h
  split at h
  · cases h
    decide
  · unfold encodeVbi at h
    split at h
    · rename_i hvbi
      split at hvbi
      · cases hvbi
        cases h
        decide
      · cases hvbi
    · cases h

theorem encodeConnectAck_room {txLen : Nat} {ack : ConnectAck} (h : (encodeConnectAck txLen ack).rc > 0) :
    maxLenBytes < txLen := by
  unfold encodeConnectAck at h
  split at h
  · exact absurd h (by decide)
  split at h
  · exact absurd h (by decide)
  split at h
  · exact absurd h (by decide)
  split at h
  · cases hblock : encodePropBlock .connectAck ack.props with
    | error e =>
      rw [hblock] at h
      exact absurd h (encodePropBlock_error hblock)
    | ok block =>
      rw [hblock] at h
      exact encodePacket_room h
  · exact encodePacket_room h

/-- The CONNACK is noted as it goes to the transport. -/
def Conn.noteConnAck (s : Conn) (ack : ConnectAck) : Conn :=
  {s with env := s.env.note [.connack s.c.addr ack.flags ack.returnCode]}

/-- The connection remembers what the transport has not taken of its CONNACK. -/
def Conn.deferConnAck (s : Conn) (len : Nat) (ack : ConnectAck) : Conn :=
  {s with c := {s.c with
    connackPendingLen := len
    connackRefused := s.c.connackRefused || ack.returnCode ≠ ackCodeAccepted}}

/-- What sending a CONNACK does: nothing if it does not encode, and otherwise a write that may
be deferred. -/
theorem sendConnAck_cases (L : Limits) (ack : ConnectAck) (s : Conn) :
    (∃ rc t, sendConnAck L ack s = (rc, t) ∧ rc ≤ 0 ∧ Writes s t) ∨
      ∃ wrRc t len, sendConnAck L ack s = (wrRc, if wrRc = Code.continue then t.deferConnAck len ack else t) ∧
        maxLenBytes < L.txBufSz ∧ 0 < len ∧ Writes (s.noteConnAck ack) t := by
  let encoded := encodeConnectAck L.txBufSz ack
  let s₁ := (encodeInto encoded s).2
  have h₁ : Writes s s₁ := encodeInto_writes encoded s
  by_cases hrc : encoded.rc > 0
  · refine .inr ?_
    have hsend : sendConnAck L ack s =
        ((packetWrite L encoded.rc.toNat (s₁.noteConnAck ack)).1,
          if (packetWrite L encoded.rc.toNat (s₁.noteConnAck ack)).1 = Code.continue
          then ((packetWrite L encoded.rc.toNat (s₁.noteConnAck ack)).2).deferConnAck encoded.rc.toNat ack
          else (packetWrite L encoded.rc.toNat (s₁.noteConnAck ack)).2) := by
      have hpos : (encodeInto (encodeConnectAck L.txBufSz ack) s).1 > 0 := hrc
      simp only [sendConnAck, run_bind, run_ite, hpos, if_true, run_modify, run_pure, whenDo]
      refine Prod.ext rfl ?_
      show (if (packetWrite L encoded.rc.toNat (s₁.noteConnAck ack)).1 = Code.continue then _ else _ : Unit × Conn).2 = _
      split <;> rfl
    refine ⟨_, _, _, hsend, encodeConnectAck_room hrc, by omega, ?_⟩
    have hnote : Writes (s.noteConnAck ack) (s₁.noteConnAck ack) := rfl
    exact trans_of Writes hnote (packetWrite_writes L _ _)
  · refine .inl ⟨encoded.rc, s₁, ?_, Int.not_lt.mp hrc, h₁⟩
    show (if encoded.rc > 0 then _ else _ : ClientM Int) s₁ = _
    rw [if_neg hrc]
    rfl

section answering
variable {L : Limits} {P : Label → Prop} {Z X : Nat → Prop} {b : MqttBroker} {a : Nat}

theorem Handled.trans {c c' c'' : BrokerClient} (h : Handled c c') (h' : Handled c' c'') : Handled c c'' where
  addr := h'.addr.trans h.addr
  established := h'.established.trans h.established
  session he :=
    have he' := h.established.trans he
    ⟨(h'.session he').1.trans (h.session he).1, (h'.session he').2.trans (h.session he).2⟩
  socket := h.socket.trans h'.socket
  idle he hi := h'.idle (h.established.trans he) (h.idle he hi)
  refused hr := h'.refused (h.refused hr)

theorem sendConnAck_handled (hA : P .answer) (ack : ConnectAck) (s : Conn) :
    Handled s.c (sendConnAck L ack s).2.c ∧ CRun L P s.view (sendConnAck L ack s).2.view := by
  have hnote : CRun L P s.view (s.noteConnAck ack).view := .step hA (.connack _ _ _)
  rcases sendConnAck_cases L ack s with ⟨rc, t, hsend, -, hw⟩ | ⟨wrRc, t, len, hsend, -, hlen, hw⟩
  · rw [hsend]
    exact ⟨hw.tended.toHandled, hw.serves.run⟩
  · have hrun : CRun L P s.view t.view := trans_of (CRun L P) hnote hw.serves.run
    have ht : Handled s.c t.c := hw.tended.toHandled
    rw [hsend]
    dsimp only
    split
    · refine ⟨ht.trans ⟨rfl, rfl, fun _ => ⟨rfl, rfl⟩, .inl ⟨rfl, rfl⟩, fun _ h => ⟨h.1, h.2, h.3, h.4⟩, ?_⟩, hrun⟩
      exact fun _ _ => Nat.pos_iff_ne_zero.mp hlen
    · exact ⟨ht, hrun⟩

/-- A CONNACK that is out, or deferred, found room in the transmit buffer; and one that is
deferred says whether it refuses. -/
theorem sendConnAck_answered (ack : ConnectAck) (s : Conn) (hpend : s.c.connackPendingLen = 0)
    (hrefused : s.c.connackRefused = false) :
    ((sendConnAck L ack s).1 > 0 ∨ (sendConnAck L ack s).2.c.connackPendingLen ≠ 0 → maxLenBytes < L.txBufSz) ∧
      ((sendConnAck L ack s).2.c.connackPendingLen ≠ 0 →
        (sendConnAck L ack s).2.c.connackRefused = decide (ack.returnCode ≠ ackCodeAccepted)) := by
  rcases sendConnAck_cases L ack s with ⟨rc, t, hsend, hrc, hw⟩ | ⟨wrRc, t, len, hsend, hroom, hlen, hw⟩
  · have hpend' : t.c.connackPendingLen = 0 := hw.tended.connack.1.trans hpend
    rw [hsend]
    refine ⟨?_, fun h => absurd hpend' h⟩
    rintro (h | h)
    · exact absurd hrc (Int.not_le.mpr h)
    · exact absurd hpend' h
  · have hpend' : t.c.connackPendingLen = 0 := hw.tended.connack.1.trans hpend
    have hrefused' : t.c.connackRefused = false := hw.tended.connack.2.trans hrefused
    rw [hsend]
    refine ⟨fun _ => hroom, fun h => ?_⟩
    dsimp only at h ⊢
    split at h
    · rename_i hcont
      rw [if_pos hcont]
      show (t.c.connackRefused || decide (ack.returnCode ≠ ackCodeAccepted)) = _
      rw [hrefused', Bool.false_or]
    · exact absurd hpend' h

/-- A function of a connection that is between two phases. -/
theorem onClient_handled {α : Type} (hb : Phase L X b) (hX : X a) (default : α) {m : ClientM α}
    (hm : ∀ c, b.client? a = some c →
      Handled c (m ⟨c, b.env⟩).2.c ∧ CRun L P (Conn.view ⟨c, b.env⟩) (m ⟨c, b.env⟩).2.view) :
    Advances L P Z X b (onClient a default m b).2 := by
  have hrun : QRun L P b.view (onClient a default m b).2.view := onClient_run default fun c hc => (hm c hc).2
  cases hc : b.client? a with
  | none =>
    rw [onClient_none hc] at hrun ⊢
    exact .refl hb
  | some c =>
    obtain ⟨hh, -⟩ := hm c hc
    have haddr : c.addr = a := Chain.at?_addr hc
    rw [onClient_some hc] at hrun ⊢
    refine .of_handled hb hrun (fun c' hc' => ?_) (fun x hx => ⟨hb.owned x hx, ?_⟩)
    · rcases Chain.mem_writeAt_nodup hb.nodup hc' with ⟨hmem, hne⟩ | ⟨x, hx, rfl⟩
      · exact ⟨c', hmem, (Tended.refl c').toHandled, fun hnX hset => hset hnX⟩
      · obtain rfl : c = x := Option.some.inj (hc.symm.trans hx)
        refine ⟨c, Chain.at?_mem hc, hh, fun hnX => absurd ?_ hnX⟩
        rw [hh.addr, haddr]
        exact hX
    · obtain ⟨y, hy, -⟩ := hb.owned x hx
      exact Chain.at?_writeAt_isSome (fun x hx => hh.addr.trans haddr) hy

/-! ### Accepting -/

/-- Functions that allocate for a connection, and write at most its Will. -/
theorem Checks.minds_of_eq (hP : P .plain) {s t : Conn} (h : Checks s t) (hsame : SameConn s.c t.c)
    (hview : t.c.view = s.c.view) (hsconn : t.c.sconn = s.c.sconn) : Minds L P s t := by
  refine ⟨hsame, ?_, hsconn, h.spends⟩
  have ht : t.view = {s.view with nextAddr := t.env.nextAddr} := by
    simp only [Conn.view, hview, h.trace]
  rw [ht]
  exact .step hP (.alloc t.env.nextAddr h.nextAddr)

theorem allocFor_minds (hP : P .plain) : Moves (Minds L P) allocFor := fun s =>
  (allocFor_checks s).minds_of_eq hP (refl s.c) rfl rfl

theorem storeString_minds (hP : P .plain) (str : Bytes) : Moves (Minds L P) (storeString str) :=
  .bind (allocFor_minds hP) fun _ => .ite (fun _ => .pure _) (fun _ => .pure _)

theorem storeNonempty_minds (hP : P .plain) (str : Bytes) : Moves (Minds L P) (storeNonempty str) :=
  .ite (fun _ => .pure _) (fun _ => storeString_minds hP str)

theorem storeWill_minds (hP : P .plain) (mc : InConnect) : Moves (Minds L P) (storeWill L mc) := by
  have hclear : Moves (Minds L P) (modifyClient BrokerClient.clearWill) := fun s =>
    ⟨⟨rfl, rfl, ⟨rfl, rfl⟩, ⟨rfl, rfl⟩, .inl ⟨rfl, rfl⟩⟩, .refl, rfl, .of_eq rfl rfl⟩
  refine .bind hclear fun _ => ?_
  cases mc.will with
  | none => exact .pure _
  | some w =>
    refine .bind (storeNonempty_minds hP _) fun _ => .bind (storeNonempty_minds hP _) fun _ => fun s => ?_
    exact ⟨⟨rfl, rfl, ⟨rfl, rfl⟩, ⟨rfl, rfl⟩, .inl ⟨rfl, rfl⟩⟩, .refl, rfl, .of_eq rfl rfl⟩

theorem addProp_minds (hP : P .plain) (p : MqttProp) (props : List MqttProp) : Moves (Minds L P) (addProp p props) :=
  .bind (allocFor_minds hP) fun _ => .ite (fun _ => .pure _) (fun _ => .pure _)

theorem featureProps_minds (hP : P .plain) (props : List MqttProp) : Moves (Minds L P) (featureProps L props) := by
  refine .bind (addProp_minds hP _ _) fun _ => .bind (addProp_minds hP _ _) fun _ => ?_
  exact .ite (fun _ => addProp_minds hP _ _) (fun _ => .pure _)

theorem connackProps_minds (hP : P .plain) (auto : Bool) : Moves (Minds L P) (connackProps L auto) := by
  intro s
  refine readClient_at ?_
  split
  · exact refl s
  split
  · refine Moves.bind_at (allocFor_minds hP s) ?_
    split
    · exact Moves.bind_at (featureProps_minds hP _ _) (refl _)
    · exact refl _
  · exact Moves.bind_at (featureProps_minds hP _ _) (refl _)

theorem drainResumed_serves (hP : P .plain) : Moves (Serves L P) (drainResumed L) := by
  intro s
  refine readClient_at (Moves.when_at fun _ => ?_)
  exact Moves.bind_at (drainOutQueue_serves hP s) (refl _)

theorem persistConnect_advances (hb : Phase L X b) (present : Bool) :
    Advances L P Z X b (persistConnect a present b).2 := by
  simp only [persistConnect, run_bind, run_get]
  cases b.client? a with
  | none => exact .refl hb
  | some c =>
    dsimp only
    cases c.clientId with
    | none => exact .refl hb
    | some id =>
      dsimp only
      split
      · exact persistOps_advances hb _
      · exact persistOps_advances hb _

theorem persistConnect_clients (present : Bool) (b : MqttBroker) : (persistConnect a present b).2.clients = b.clients := by
  simp only [persistConnect, run_bind, run_get]
  cases b.client? a with
  | none => rfl
  | some c =>
    dsimp only
    cases c.clientId with
    | none => rfl
    | some id =>
      dsimp only
      split <;> rfl

/-- The connection at `a` has a session and a level, and nothing has been answered. -/
def Awaits (b : MqttBroker) (a : Nat) : Prop :=
  ∃ c, b.client? a = some c ∧ c.sessionEstablished = true ∧ c.protocolLevel ≠ 0 ∧ c.connackPendingLen = 0 ∧
    c.connackRefused = false

/-- What a CONNECT with this result leaves at `a`: if it was answered and not refused, a
connection that can go live. -/
def Admitted (L : Limits) (b : MqttBroker) (a : Nat) (rc : Int) : Prop :=
  ∀ c, b.client? a = some c → c.connackRefused = false → rc > 0 ∨ c.connackPendingLen ≠ 0 →
    c.sessionEstablished = true ∧ c.protocolLevel ≠ 0 ∧ maxLenBytes < L.txBufSz

theorem Awaits.established (h : Awaits b a) : b.Established a := by
  obtain ⟨c, hc, he, -⟩ := h
  exact ⟨c, hc, he⟩

theorem Awaits.onClient {α : Type} (h : Awaits b a) (default : α) {m : ClientM α}
    (hm : ∀ s, SameConn s.c (m s).2.c) : Awaits (onClient a default m b).2 a := by
  obtain ⟨c, hc, he, hlevel, hpend, hrefused⟩ := h
  have hsame := hm ⟨c, b.env⟩
  refine ⟨_, onClient_client? hc default hsame.addr, hsame.established.trans he, ?_, hsame.connack.1.trans hpend,
    hsame.connack.2.trans hrefused⟩
  rw [hsame.session.2]
  exact hlevel

theorem Awaits.updateClient (h : Awaits b a) {f : BrokerClient → BrokerClient} (hf : ∀ c, SameConn c (f c)) :
    Awaits (b.updateClient a f) a := by
  obtain ⟨c, hc, he, hlevel, hpend, hrefused⟩ := h
  have hsame := hf c
  refine ⟨_, Chain.at?_writeAt_self hc (hsame.addr.trans (Chain.at?_addr hc)), hsame.established.trans he, ?_,
    hsame.connack.1.trans hpend, hsame.connack.2.trans hrefused⟩
  rw [hsame.session.2]
  exact hlevel

/-- The CONNACK that refuses a CONNECT. -/
def refusal (mc : InConnect) (code : UInt8) : ConnectAck :=
  {flags := 0, returnCode := code, protocolLevel := if mc.protocolLevel = level5 then level5 else level4}

theorem refuseConnect_eq (mc : InConnect) (code : UInt8) (s : Conn) :
    refuseConnect L mc code s = (0, (sendConnAck L (refusal mc code) s).2) := rfl

theorem refuseConnect_advances (hA : P .answer) (hb : Phase L X b) (hX : X a) (mc : InConnect) (code : UInt8) :
    Advances L P Z X b (onClient a 0 (refuseConnect L mc code) b).2 := by
  refine onClient_handled hb hX 0 fun c _ => ?_
  rw [refuseConnect_eq]
  exact sendConnAck_handled hA (refusal mc code) ⟨c, b.env⟩

/-- A refusal lets no connection go live. -/
theorem refuseConnect_admitted {c : BrokerClient} (hc : b.client? a = some c) (hpend : c.connackPendingLen = 0)
    (hrefused : c.connackRefused = false) (mc : InConnect) {code : UInt8} (hcode : code ≠ 0) :
    Admitted L (onClient a 0 (refuseConnect L mc code) b).2 a (onClient a 0 (refuseConnect L mc code) b).1 := by
  intro c' hc' hnot hans
  let ack := refusal mc code
  have hrc : (onClient a 0 (refuseConnect L mc code) b).1 = 0 := by
    rw [onClient_some hc]
    rfl
  have haddr : (refuseConnect L mc code ⟨c, b.env⟩).2.c.addr = c.addr :=
    (sendConnAck_handled (P := fun _ => True) trivial ack ⟨c, b.env⟩).1.addr
  rw [onClient_client? hc 0 haddr] at hc'
  cases hc'
  rw [hrc] at hans
  have hpend' : (sendConnAck L ack ⟨c, b.env⟩).2.c.connackPendingLen ≠ 0 := hans.resolve_left (by decide)
  have hsays := (sendConnAck_answered (L := L) ack ⟨c, b.env⟩ hpend hrefused).2 hpend'
  rw [show (sendConnAck L ack ⟨c, b.env⟩).2.c.connackRefused = false from hnot] at hsays
  exact absurd hcode (of_decide_eq_false hsays.symm)

/-- What is left of accepting once the CONNACK has been sent. -/
def afterConnAck (L : Limits) (a : Nat) (present : Bool) : BrokerM Unit := do
  persistConnect a present
  onClient a () (drainResumed L)
  modify (·.updateClient a BrokerClient.scrub)

theorem scrub_advances (hb : Phase L X b) : Advances L P Z X b (b.updateClient a BrokerClient.scrub) := by
  refine updateClient_advances (f := BrokerClient.scrub) hb (fun c _ => ?_) (fun _ _ => rfl)
  exact SameConn.tended ⟨rfl, rfl, ⟨rfl, rfl⟩, ⟨rfl, rfl⟩, .inl ⟨rfl, rfl⟩⟩ fun _ h => ⟨h.1, h.2, h.3, h.4⟩

theorem afterConnAck_advances (hP : P .plain) (hb : Phase L X b) (ha : b.Established a) (present : Bool) :
    Advances L P Z X b (afterConnAck L a present b).2 := by
  refine .bind (persistConnect_advances hb present) fun hb₁ => ?_
  have ha₁ : (persistConnect a present b).2.Established a := by
    obtain ⟨c, hc, he⟩ := ha
    refine ⟨c, ?_, he⟩
    rw [MqttBroker.client?, persistConnect_clients]
    exact hc
  exact .bind (onClient_serves hb₁ ha₁ () fun c _ => drainResumed_serves hP _) fun hb₂ => scrub_advances hb₂

/-- It leaves the connection's session and its CONNACK as they are. -/
theorem afterConnAck_client? {c : BrokerClient} (hc : b.client? a = some c) (present : Bool) :
    ∃ c', (afterConnAck L a present b).2.client? a = some c' ∧ c'.sessionEstablished = c.sessionEstablished ∧
      c'.protocolLevel = c.protocolLevel ∧ c'.connackPendingLen = c.connackPendingLen ∧
      c'.connackRefused = c.connackRefused := by
  have hc₁ : (persistConnect a present b).2.client? a = some c := by
    rw [MqttBroker.client?, persistConnect_clients]
    exact hc
  have hserved := (drainResumed_serves (L := L) (P := fun _ => True) trivial ⟨c, (persistConnect a present b).2.env⟩).served
  have hstill : ∀ {γ : Type} (f : BrokerClient → γ), (∀ c, f c.still = f c) → _ = _ := fun f hf =>
    (hf _).symm.trans ((congrArg f hserved.still).trans (hf c))
  have hc₂ := onClient_client? hc₁ () hserved.addr
  refine ⟨_, Chain.at?_writeAt_self hc₂ ?_, hstill (·.sessionEstablished) fun _ => rfl, hstill (·.protocolLevel) fun _ => rfl,
    hstill (·.connackPendingLen) fun _ => rfl, hstill (·.connackRefused) fun _ => rfl⟩
  exact hserved.addr.trans (Chain.at?_addr hc)

/-- The CONNACK that accepts. -/
def acceptance (mc : InConnect) (present : Bool) (props : List MqttProp) : ConnectAck :=
  {flags := if present then 1 else 0, returnCode := ackCodeAccepted, protocolLevel := mc.protocolLevel, props := props}

theorem acceptConnect_eq (mc : InConnect) (auto present : Bool) (b : MqttBroker) :
    acceptConnect L a mc auto present b =
      match (onClient a none (connackProps L auto) b).1 with
      | none => onClient a 0 (refuseConnect L mc Reason.serverUnavailable)
          ((onClient a none (connackProps L auto) b).2.updateClient a (fun c => {c with sessionExpirySec := 0}))
      | some props =>
        let r := onClient a Code.badArg (sendConnAck L (acceptance mc present props)) (onClient a none (connackProps L auto) b).2
        (r.1, (afterConnAck L a present r.2).2) := by
  simp only [acceptConnect, run_bind]
  cases (onClient a none (connackProps L auto) b).1 with
  | none => rfl
  | some props => rfl

theorem acceptConnect_advances (hP : P .plain) (hA : P .answer) (hb : Phase L X b) (hX : X a) (hw : Awaits b a) (mc : InConnect)
    (auto present : Bool) : Advances L P Z X b (acceptConnect L a mc auto present b).2 := by
  have hprops : Advances L P Z X b (onClient a none (connackProps L auto) b).2 :=
    onClient_minds hb hw.established none (connackProps_minds hP auto)
  have hw₁ : Awaits (onClient a none (connackProps L auto) b).2 a :=
    hw.onClient none fun s => (connackProps_minds (P := P) hP auto s).same
  rw [acceptConnect_eq]
  refine hprops.trans fun hb₁ => ?_
  generalize onClient a none (connackProps L auto) b = r at hb₁ hw₁ ⊢
  obtain ⟨props, b₁⟩ := r
  dsimp only at hb₁ hw₁ ⊢
  cases props with
  | none =>
    have hend : Advances L P Z X b₁ (b₁.updateClient a (fun c => {c with sessionExpirySec := 0})) := by
      refine updateClient_advances (f := fun c => {c with sessionExpirySec := 0}) hb₁ (fun c _ => ?_) (fun _ _ => rfl)
      exact SameConn.tended ⟨rfl, rfl, ⟨rfl, rfl⟩, ⟨rfl, rfl⟩, .inl ⟨rfl, rfl⟩⟩ fun _ h => ⟨h.1, h.2, h.3, h.4⟩
    exact hend.trans fun hb₂ => refuseConnect_advances hA hb₂ hX mc _
  | some props =>
    have hsend : Advances L P Z X b₁ (onClient a Code.badArg (sendConnAck L (acceptance mc present props)) b₁).2 :=
      onClient_handled hb₁ hX _ fun c _ => sendConnAck_handled hA _ ⟨c, b₁.env⟩
    refine hsend.trans fun hb₂ => afterConnAck_advances hP hb₂ ?_ present
    obtain ⟨c, hc, he, -⟩ := hw₁
    have hh := (sendConnAck_handled (L := L) hA (acceptance mc present props) ⟨c, b₁.env⟩).1
    exact ⟨_, onClient_client? hc _ hh.addr, hh.established.trans he⟩

theorem acceptConnect_admitted (hw : Awaits b a) (mc : InConnect) (auto present : Bool) :
    Admitted L (acceptConnect L a mc auto present b).2 a (acceptConnect L a mc auto present b).1 := by
  have hw₁ : Awaits (onClient a none (connackProps L auto) b).2 a :=
    hw.onClient none fun s => (connackProps_minds (P := fun _ => True) trivial auto s).same
  rw [acceptConnect_eq]
  generalize onClient a none (connackProps L auto) b = r at hw₁ ⊢
  obtain ⟨props, b₁⟩ := r
  cases props with
  | none =>
    have hend : Awaits (b₁.updateClient a (fun c => {c with sessionExpirySec := 0})) a :=
      hw₁.updateClient (f := fun c => {c with sessionExpirySec := 0})
        fun c => ⟨rfl, rfl, ⟨rfl, rfl⟩, ⟨rfl, rfl⟩, .inl ⟨rfl, rfl⟩⟩
    obtain ⟨c, hc, -, -, hpend, hrefused⟩ := hend
    exact refuseConnect_admitted hc hpend hrefused mc (by decide)
  | some props =>
    obtain ⟨c, hc, he, hlevel, hpend, hrefused⟩ := hw₁
    let ack := acceptance mc present props
    let s : Conn := ⟨c, b₁.env⟩
    have hh := (sendConnAck_handled (L := L) (P := fun _ => True) trivial ack s).1
    have hroom := (sendConnAck_answered (L := L) ack s hpend hrefused).1
    have hc₂ := onClient_client? hc Code.badArg hh.addr
    have hrc : (onClient a Code.badArg (sendConnAck L ack) b₁).1 = (sendConnAck L ack s).1 := by
      rw [onClient_some hc]
    obtain ⟨c₃, hc₃, he₃, hlevel₃, hpend₃, -⟩ := afterConnAck_client? (L := L) hc₂ present
    intro c' hc' _ hans
    obtain rfl : c₃ = c' := Option.some.inj (hc₃.symm.trans hc')
    refine ⟨he₃.trans (hh.established.trans he), ?_, hroom ?_⟩
    · rw [hlevel₃, (hh.session he).2]
      exact hlevel
    · rcases hans with hans | hans
      · exact .inl (hrc ▸ hans)
      · rw [hpend₃] at hans
        exact .inr hans

/-! ### The whole of it -/

theorem storeWill_advances (hP : P .plain) (hb : Phase L X b) (hw : Awaits b a) (mc : InConnect) :
    Advances L P Z X b (onClient a () (storeWill L mc) b).2 ∧ Awaits (onClient a () (storeWill L mc) b).2 a :=
  ⟨onClient_minds hb hw.established () (storeWill_minds hP mc), hw.onClient () fun s => (storeWill_minds (P := P) hP mc s).same⟩

/-- What a CONNECT finds is not touched by its own checks. -/
theorem findByClientId_withClient {s : Conn} (hs : s.c.addr = a) (n : Nat) (id : Bytes) :
    findByClientId (b.withClient a s n) id a = findByClientId b id a := by
  unfold findByClientId
  split
  · rfl
  · refine Chain.find?_writeAt (fun x hx => ?_) fun _ _ => hs
    have hx' : x.addr = a := hx
    simp [hx']

/-- From the moment the session is established: adopt what stands under the client id, store the
Will, answer. -/
theorem establishSession_eq {c : BrokerClient} (hc : b.client? a = some c) (mc : InConnect) (auto : Bool) {clientId : Bytes}
    (hid : c.clientId = some clientId) :
    establishSession L a mc auto b =
      acceptConnect L a mc auto (adoptSession L a mc clientId (b.updateClient a BrokerClient.establish)).1
        (onClient a () (storeWill L mc) (adoptSession L a mc clientId (b.updateClient a BrokerClient.establish)).2).2 := by
  let b₁ := b.updateClient a BrokerClient.establish
  have hc₁ : b₁.client? a = some c.establish := Chain.at?_writeAt_self hc (Chain.at?_addr (x := c) hc)
  have hid₁ : c.establish.clientId = some clientId := hid
  have hown : adoptOwnSession L a mc b₁ = adoptSession L a mc clientId b₁ := by
    simp only [adoptOwnSession, run_bind, run_get, hc₁, Option.bind_some, hid₁]
  have hmark : (modify (·.updateClient a (fun c => {c with sessionEstablished := true})) : BrokerM Unit) b = ((), b₁) := rfl
  simp only [establishSession, run_bind, hmark, hown]
  rfl

theorem establishSession_advances (hP : Ordinary P) (hA : P .answer) (hb : Phase L X b) (hX : X a) (hZ : Z a) {c : BrokerClient}
    (hc : b.client? a = some c) (hidle : c.Idle) (hpend : c.connackPendingLen = 0) (hrefused : c.connackRefused = false)
    (hna : ¬b.Subscribed a) {mc : InConnect} {clientId : Bytes} (hpassed : Passed mc clientId c)
    (hfinds : Finds P b a mc clientId) (auto : Bool) :
    Advances L P Z X b (establishSession L a mc auto b).2 ∧
      Admitted L (establishSession L a mc auto b).2 a (establishSession L a mc auto b).1 := by
  have haddr : c.addr = a := Chain.at?_addr hc
  let b₁ := b.updateClient a BrokerClient.establish
  have h₁ : Advances L P Z X b b₁ := establish_advances hb hZ hX
  have hc₁ : b₁.client? a = some c.establish := Chain.at?_writeAt_self hc haddr
  have hlevel : mc.protocolLevel ≠ 0 := by
    rcases hpassed.level with h | h <;> rw [h] <;> decide
  have hfinds₁ : Finds P b₁ a mc clientId := by
    refine ⟨fun old hold => hfinds.displaced old ?_, hfinds.resumed⟩
    have hsame := findByClientId_withClient (b := b) (s := ⟨c.establish, b.env⟩) haddr b.nextAutoId clientId
    rw [← hsame]
    have heq : b₁ = b.withClient a ⟨c.establish, b.env⟩ b.nextAutoId := by
      simp only [b₁, MqttBroker.withClient, MqttBroker.updateClient, Chain.writeAt_congr (g := fun _ => c.establish) hc rfl]
    rw [← heq]
    exact hold
  have hadopt := adoptSession_advances (L := L) (P := P) (Z := Z) hP h₁.phase hc₁ rfl hidle.outQ hna hpassed.clientId
    hpassed.protocolLevel hfinds₁
  obtain ⟨orphan, -, -, c₂, hc₂, hmine⟩ := adoptSession_spec (L := L) h₁.phase hc₁ rfl hna mc hpassed.clientId
  have hget : ∀ {γ : Type} (f : BrokerClient → γ), (∀ c, f c.unclaimed = f c) → (∀ c o, f (BrokerClient.resume c o) = f c) →
      f c₂ = f c.establish := by
    intro γ f hf hres
    rw [← hf c₂, hmine, hf]
    cases orphan with
    | none => rfl
    | some o => exact hres _ o
  let r := adoptSession L a mc clientId b₁
  have hw : Awaits r.2 a := by
    refine ⟨c₂, hc₂, hget (·.sessionEstablished) (fun _ => rfl) fun _ _ => rfl, ?_,
      (hget (·.connackPendingLen) (fun _ => rfl) fun _ _ => rfl).trans hpend,
      (hget (·.connackRefused) (fun _ => rfl) fun _ _ => rfl).trans hrefused⟩
    rw [hget (·.protocolLevel) (fun _ => rfl) fun _ _ => rfl]
    show c.protocolLevel ≠ 0
    rw [hpassed.protocolLevel]
    exact hlevel
  have hwill := storeWill_advances (L := L) (Z := Z) hP.plain hadopt.phase hw mc
  have hsession : establishSession L a mc auto b =
      acceptConnect L a mc auto r.1 (onClient a () (storeWill L mc) r.2).2 := establishSession_eq hc mc auto hpassed.clientId
  rw [hsession]
  exact ⟨h₁.trans fun _ => hadopt.trans fun _ => hwill.1.trans fun hb₄ =>
    acceptConnect_advances hP.plain hA hb₄ hX hwill.2 mc auto _, acceptConnect_admitted hwill.2 mc auto _⟩

/-- A CONNECT on a connection that has none yet. -/
theorem handleConnect_advances (hP : Ordinary P) (hA : P .answer) (hb : Phase L X b) (hX : X a) (hZ : Z a) {c : BrokerClient}
    (hc : b.client? a = some c) (he : c.sessionEstablished = false) (hpend : c.connackPendingLen = 0)
    (decoded : Except DecodeError InConnect)
    (hfinds : ∀ mc, decoded = .ok mc → Accepts L b a mc → Finds P b a mc (connectId c b.nextAutoId mc)) :
    Advances L P Z X b (handleConnect L a decoded b).2 ∧
      Admitted L (handleConnect L a decoded b).2 a (handleConnect L a decoded b).1 := by
  have hsound := hb.sound c (Chain.at?_mem hc)
  have hrefused : c.connackRefused = false := by
    by_contra h
    exact hsound.refused (by simpa using h) hpend
  cases decoded with
  | error e =>
    refine ⟨.refl hb, fun c' hc' _ hans => ?_⟩
    obtain rfl : c = c' := Option.some.inj (hc.symm.trans hc')
    rcases hans with hans | hans
    · exact absurd hans (Int.not_lt.mpr (Int.le_of_lt e.property))
    · exact absurd hpend hans
  | ok mc =>
    obtain ⟨⟨t, n, hstate, hchecks, hpassed⟩, hrefuses⟩ := connectChecks_spec hc L mc
    have haddr : t.c.addr = a := hchecks.addr.trans (Chain.at?_addr hc)
    have hchecked : Advances L P Z X b (b.withClient a t n) := hchecks.advances hP hb hc he n
    have hc₁ : (b.withClient a t n).client? a = some t.c := withClient_client? hc haddr
    have hpend₁ : t.c.connackPendingLen = 0 := (hchecks.get (·.connackPendingLen) fun _ => rfl).trans hpend
    have hrefused₁ : t.c.connackRefused = false := (hchecks.get (·.connackRefused) fun _ => rfl).trans hrefused
    simp only [handleConnect, run_bind]
    have haccepts : ∀ auto, (connectChecks L a mc b).1 = .ok auto → Accepts L b a mc := fun auto h => by
      rw [Accepts, h]
      rfl
    generalize connectChecks L a mc b = r at hstate hpassed hrefuses haccepts ⊢
    obtain ⟨res, b₁⟩ := r
    dsimp only at hstate hpassed hrefuses haccepts ⊢
    subst hstate
    cases res with
    | error code =>
      refine ⟨hchecked.trans fun hb₁ => refuseConnect_advances hA hb₁ hX mc code, ?_⟩
      exact refuseConnect_admitted hc₁ hpend₁ hrefused₁ mc (hrefuses code rfl)
    | ok auto =>
      have he₁ : t.c.sessionEstablished = false := (hchecks.get (·.sessionEstablished) fun _ => rfl).trans he
      have hna : ¬b.Subscribed a := by
        intro hs
        obtain ⟨c', hc', he'⟩ := hb.owned a hs
        obtain rfl : c = c' := Option.some.inj (hc.symm.trans hc')
        rw [he] at he'
        cases he'
      have hfinds₁ : Finds P (b.withClient a t n) a mc (connectId c b.nextAutoId mc) := by
        have hfinds := hfinds mc rfl (haccepts auto rfl)
        refine ⟨fun old hold => hfinds.displaced old ?_, hfinds.resumed⟩
        rw [← findByClientId_withClient haddr n]
        exact hold
      have hsession := establishSession_advances (Z := Z) hP hA hchecked.phase hX hZ hc₁
        ((hchecked.phase.sound t.c (Chain.at?_mem hc₁)).idle he₁) hpend₁ hrefused₁ hna (hpassed auto rfl) hfinds₁ auto
      exact ⟨hchecked.trans fun _ => hsession.1, hsession.2⟩

end answering

end WolfMqtt.Broker
