import WolfMqtt.Broker.TableAdmit

/-! The answer to a CONNECT in the session table.

What is left to do for an accepted CONNECT once its session is adopted neither the other
connections nor the table see, until the session is stored. A refusal leaves a connection
without a session: it is blank until its CONNACK is out, and then gone. -/
namespace WolfMqtt.Broker

section answers
variable {L : Limits} {R : Terms} {X Y S : Nat → Prop} {b b' : MqttBroker} {a : Nat}

/-! ### One connection's record -/

theorem onClient_table {α : Type} (default : α) {m : ClientM α} (hm : ∀ c, b.client? a = some c →
    (m ⟨c, b.env⟩).2.c.sconn = c.sconn ∧ b.env.Spends (m ⟨c, b.env⟩).2.env) :
    (onClient a default m b).2.table = b.table := by
  cases hc : b.client? a with
  | none => rw [onClient_none hc]
  | some c =>
    obtain ⟨hsconn, hspends⟩ := hm c hc
    have htable := updateClient_table (b := b) (a := a) (f := fun _ => (m ⟨c, b.env⟩).2.c) fun x hx => by
      obtain rfl := Option.some.inj (hc.symm.trans hx)
      exact hsconn
    rw [onClient_some hc]
    simp only [MqttBroker.table, STable.mk.injEq] at htable ⊢
    exact ⟨htable.1, htable.2.1, htable.2.2.1, htable.2.2.2.1, hspends.sessions⟩

theorem onClient_spares {α : Type} (hS : S a) (default : α) {m : ClientM α} (hm : ∀ c, b.client? a = some c →
    (m ⟨c, b.env⟩).2.c.addr = c.addr ∧ b.env.Spends (m ⟨c, b.env⟩).2.env) :
    Spares S b (onClient a default m b).2 := by
  cases hc : b.client? a with
  | none =>
    rw [onClient_none hc]
    exact refl b
  | some c =>
    obtain ⟨haddr, hspends⟩ := hm c hc
    rw [onClient_some hc]
    have h := Spares.updateClient (b := b) (a := a) (f := fun _ => (m ⟨c, b.env⟩).2.c) hS fun _ _ =>
      haddr.trans (Chain.at?_addr hc)
    exact ⟨h.others, hspends.allocs⟩

theorem Keeps.sconn {s t : Conn} (h : Keeps s t) : t.c.sconn = s.c.sconn := (congrArg BrokerClient.sconn h).symm

/-! ### The CONNACK -/

theorem Writes.spends {s t : Conn} (h : Writes s t) : s.env.Spends t.env :=
  (h.serves (L := { : Limits}) (P := fun _ => True)).spends

theorem sendConnAck_spends (ack : ConnectAck) (s : Conn) : s.env.Spends (sendConnAck L ack s).2.env := by
  rcases sendConnAck_cases L ack s with ⟨rc, t, hsend, -, hw⟩ | ⟨wrRc, t, len, hsend, -, -, hw⟩
  · rw [hsend]
    exact hw.spends
  · have hnoted : s.env.Spends (s.noteConnAck ack).env := .of_eq rfl rfl
    have hnote := trans_of Env.Spends hnoted hw.spends
    rw [hsend]
    dsimp only
    split
    · exact hnote
    · exact hnote

/-- A direct response that is under way is left alone, and so is the Will. -/
def SameDirect : Conn → Conn → Prop := InvImage Eq (fun s => (s.c.directPendingLen, s.c.hasWill))

instance : IsPreorder Conn SameDirect := inferInstanceAs (IsPreorder Conn (InvImage Eq _))

theorem writeDo_sameDirect (len : Nat) (s : Conn) : SameDirect s (writeDo len s).2 := by
  unfold writeDo
  split
  · rfl
  · dsimp only
    split <;> rfl

theorem writeLoop_sameDirect (len fuel : Nat) (s : Conn) : SameDirect s (writeLoop len fuel s).2 := by
  induction fuel generalizing s with
  | zero => rfl
  | succ fuel ih =>
    have hdo := writeDo_sameDirect len s
    unfold writeLoop
    dsimp only
    split
    · exact hdo
    · split
      · exact trans_of SameDirect hdo (ih _)
      · exact hdo

theorem packetWrite_sameDirect (len : Nat) : Moves SameDirect (packetWrite L len) := by
  intro s
  have hr : SameDirect s (if L.nonblock then writeDo len s else writeLoop len len s).2 := by
    split
    · exact writeDo_sameDirect len s
    · exact writeLoop_sameDirect len len s
  unfold packetWrite socketWrite
  split
  · rfl
  · dsimp only
    generalize (if L.nonblock then writeDo len s else writeLoop len len s) = r at hr ⊢
    split
    · exact hr
    · split
      · exact hr
      · exact hr

theorem sendConnAck_sameDirect (ack : ConnectAck) : Moves SameDirect (sendConnAck L ack) := by
  have hencode : Moves SameDirect (encodeInto (encodeConnectAck L.txBufSz ack)) := fun _ => rfl
  refine .bind hencode fun rc => .ite (fun _ => .bind (fun _ => rfl) fun _ => ?_) (fun _ => .pure _)
  refine .bind (packetWrite_sameDirect _) fun wrRc => .bind (fun s => ?_) fun _ => .pure _
  unfold whenDo
  split <;> rfl

theorem sendConnAck_table (default : Int) (ack : ConnectAck) (b : MqttBroker) :
    (onClient a default (sendConnAck L ack) b).2.table = b.table :=
  onClient_table default fun x _ => ⟨(sendConnAck_keeps ack ⟨x, b.env⟩).sconn, sendConnAck_spends ack ⟨x, b.env⟩⟩

theorem sendConnAck_spares (hS : S a) (default : Int) (ack : ConnectAck) (b : MqttBroker) :
    Spares S b (onClient a default (sendConnAck L ack) b).2 :=
  onClient_spares hS default fun x _ => ⟨(sendConnAck_keeps (L := L) ack ⟨x, b.env⟩).addr, sendConnAck_spends ack ⟨x, b.env⟩⟩

/-! ### A refusal -/

theorem onClient_refuseConnect (mc : InConnect) (code : UInt8) (b : MqttBroker) :
    (onClient a 0 (refuseConnect L mc code) b).2 = (onClient a 0 (sendConnAck L (refusal mc code)) b).2 := by
  cases hc : b.client? a with
  | none => rw [onClient_none hc, onClient_none hc]
  | some c => rw [onClient_some hc, onClient_some hc, refuseConnect_eq]

theorem refuseConnect_proceeds (hb : InOrder L R (· = a) b) (mc : InConnect) (code : UInt8) :
    Proceeds L R (· = a) b (onClient a 0 (refuseConnect L mc code) b).2 := by
  have hadv : Advances L (fun _ => True) (fun _ => True) (· = a) b (onClient a 0 (refuseConnect L mc code) b).2 :=
    refuseConnect_advances trivial hb.phase rfl mc code
  have hspares : Spares (· = a) b (onClient a 0 (sendConnAck L (refusal mc code)) b).2 :=
    sendConnAck_spares (S := (· = a)) rfl 0 _ b
  rw [onClient_refuseConnect] at hadv ⊢
  refine .quiet hb hadv.phase (sendConnAck_table 0 _ b) (fun c hc he hX => ?_) hspares.allocs
  exact hb.blank c (hspares.others c hc hX he) he hX

/-- A connection that goes on after a refusal waits for its CONNACK. -/
theorem refuseConnect_blank {c : BrokerClient} (hc : b.client? a = some c) (hpend : c.connackPendingLen = 0)
    (hrefused : c.connackRefused = false) (hdirect : c.directPendingLen = 0 ∧ c.hasWill = false) (mc : InConnect) {code : UInt8}
    (hcode : code ≠ 0)
    {x : BrokerClient} (hx : (onClient a 0 (refuseConnect L mc code) b).2.client? a = some x) (hout : x.connackPendingLen ≠ 0) :
    x.Blank := by
  have hkeeps : Keeps ⟨c, b.env⟩ (refuseConnect L mc code ⟨c, b.env⟩).2 := sendConnAck_keeps (refusal mc code) ⟨c, b.env⟩
  rw [onClient_client? hc 0 hkeeps.addr] at hx
  obtain rfl := Option.some.inj hx
  have hverdict := (sendConnAck_answered (L := L) (refusal mc code) ⟨c, b.env⟩ hpend hrefused).2 hout
  have hsame : (c.directPendingLen, c.hasWill) = _ := sendConnAck_sameDirect (L := L) (refusal mc code) ⟨c, b.env⟩
  obtain ⟨hlen, hwill⟩ := Prod.mk.inj hsame
  refine ⟨hlen.symm.trans hdirect.1, hwill.symm.trans hdirect.2, fun _ => ?_, fun h => absurd h hout, fun h => absurd h hout⟩
  exact hverdict.trans (decide_eq_true hcode)

/-! ### The checks -/

theorem Checks.proceeds (hb : InOrder L R (· = a) b) {c : BrokerClient} (hc : b.client? a = some c)
    (he : c.sessionEstablished = false) {t : Conn} (ht : Checks ⟨c, b.env⟩ t) (m : Nat) :
    Proceeds L R (· = a) b (b.withClient a t m) := by
  have hadv : Advances L (fun _ => True) (fun _ => True) (· = a) b (b.withClient a t m) :=
    ht.advances ⟨trivial, trivial⟩ hb.phase hc he m
  have haddr : t.c.addr = a := ht.addr.trans (Chain.at?_addr hc)
  refine .of_run hb hadv.phase (fun x hx hex hX => ?_) ht.spends.allocs fun _ _ => .single ?_
  · rcases Chain.mem_writeAt_nodup hb.phase.nodup hx with ⟨hx, hne⟩ | ⟨y, hy, rfl⟩
    · exact hb.blank x hx hex hne
    · exact absurd haddr hX
  · have hnew : t.c.sconn.established = false := (ht.get (·.sessionEstablished) fun _ => rfl).trans he
    have hcount : t.c.sconn.subCount = c.sconn.subCount := ht.get (·.subCount) fun _ => rfl
    have hstep := SStep.name (L := L) (R := R) (table_conn?_some hc) (show c.sconn.established = false from he) haddr hnew hcount
    have hconns := updateClient_conns (b := b) (f := fun _ => t.c) hc rfl
    convert hstep using 1
    show STable.mk (b.updateClient a (fun _ => t.c)).table.conns b.subs (b.orphanSessions.map OrphanSession.sorphan)
      b.orphanSessionCount t.env.sessions = _
    rw [hconns, ht.spends.sessions]
    rfl

/-! ### The session is stored -/

theorem connackProps_none {auto : Bool} {s : Conn} (h : (connackProps L auto s).1 = none) : false ∈ s.env.allocs := by
  have hadds : ∀ props (s' : Conn), ((do return some (← featureProps L props)) s' : Option _ × Conn).1 ≠ none := by
    intro props s' h
    cases h
  unfold connackProps at h
  simp only [run_bind] at h
  by_cases hlevel : (readClient id s).1.protocolLevel < level5
  · rw [if_pos hlevel] at h
    cases h
  rw [if_neg hlevel] at h
  cases auto with
  | false => cases h
  | true =>
    simp only [if_true, run_bind] at h
    cases halloc : (allocFor s).1 with
    | true =>
      rw [show (allocFor (readClient id s).2).1 = true from halloc] at h
      cases h
    | false =>
      have hnone : s.env.alloc.1 = none := by simpa [allocFor] using halloc
      exact Env.alloc_none hnone

theorem persistConnect_allocs (present : Bool) (b : MqttBroker) : (persistConnect a present b).2.env.allocs = b.env.allocs := by
  simp only [persistConnect, run_bind, run_get]
  cases b.client? a with
  | none => rfl
  | some c =>
    dsimp only
    cases c.clientId with
    | none => rfl
    | some id =>
      dsimp only
      split <;> rfl

variable {t : STable} {clientId : Bytes} {old : Option Nat} {keep : Bool} {c : SConn}

/-- The session is stored under its client id. -/
theorem persistConnect_adopted (h : Adopted R t a clientId old keep c b) {x : BrokerClient} (hx : b.client? a = some x)
    (hsconn : x.sconn = c) (hid : c.clientId = some clientId) (hne : clientId ≠ [])
    (hkey : R.sure → sessionKey clientId = clientId) (present : Bool) :
    Adopted R t a clientId old keep c (persistConnect a present b).2 ∧
      (R.sure → (persistConnect a present b).2.env.sessions clientId = c.record) := by
  have hxid : x.clientId = some clientId := (congrArg SConn.clientId hsconn).trans hid
  have hstored : ∃ ops, (persistConnect a present b).2 = (persistOps ops b).2 ∧ (R.sure → ∀ r : Bytes → Option SessionRecord,
      ops.foldl PersistOp.onSessions r = Function.update r clientId c.record) := by
    simp only [persistConnect, run_bind, run_get, hx, hxid]
    by_cases hexp : x.sessionExpirySec ≠ 0
    · rw [if_pos hexp]
      refine ⟨_, rfl, fun hsure r => ?_⟩
      have hrecord : c.record = some ⟨x.protocolLevel, x.sessionExpirySec, 0⟩ := by
        rw [← hsconn]
        exact if_neg hexp
      have hput : PersistOp.onSessions r (.putSession clientId x.protocolLevel x.sessionExpirySec) =
          Function.update r clientId c.record := by
        rw [PersistOp.onSessions, if_neg (by simp [hne, hexp]), hkey hsure, hrecord]
      rw [List.foldl_append]
      cases present
      · exact hput
      · exact hput
    · rw [if_neg hexp]
      refine ⟨_, rfl, fun hsure r => ?_⟩
      have hrecord : c.record = none := by
        rw [← hsconn]
        exact if_pos (not_not.mp hexp)
      show Function.update r (sessionKey clientId) none = _
      rw [hkey hsure, hrecord]
  obtain ⟨ops, heq, hops⟩ := hstored
  have hsessions : R.sure → (persistOps ops b).2.env.sessions = Function.update b.env.sessions clientId c.record := by
    intro hsure
    exact (sessions_persist b.env ops).trans (hops hsure _)
  rw [heq]
  refine ⟨⟨?_, fun hsure k hk => ?_⟩, fun hsure => ?_⟩
  · have htable := h.table
    simp only [MqttBroker.table, STable.mk.injEq] at htable ⊢
    exact ⟨htable.1, htable.2.1, htable.2.2.1, htable.2.2.2.1, trivial⟩
  · rw [hsessions hsure, Function.update_of_ne hk]
    exact h.records hsure k hk
  · rw [hsessions hsure, Function.update_self]

/-! ### Acceptance -/

theorem client?_sconn_of_table (htable : b'.table = b.table) {x : BrokerClient} (hx : b.client? a = some x) :
    ∃ y, b'.client? a = some y ∧ y.sconn = x.sconn := by
  have hat := table_conn?_some hx
  rw [← htable, table_conn?] at hat
  obtain ⟨y, hy, hsconn⟩ := Option.map_eq_some_iff.mp hat
  exact ⟨y, hy, hsconn⟩

/-- The record of the connection whose session was adopted. -/
theorem Adopted.client (h : Adopted R t a clientId old keep c b) {y : BrokerClient} (hy : b.client? a = some y)
    (haddr : c.addr = a) : y.sconn = c := by
  have hat := table_conn?_some hy
  rw [h.table] at hat
  have hin : ∃ z, Chain.at? (old.elim t.conns (Chain.removeAt · t.conns)) a = some z := by
    by_contra hno
    have hnone := Option.eq_none_iff_forall_ne_some.mpr fun z hz => hno ⟨z, hz⟩
    rw [STable.conn?, Chain.writeAt_none hnone, hnone] at hat
    cases hat
  obtain ⟨z, hz⟩ := hin
  rw [STable.conn?, Chain.at?_writeAt_self (f := fun _ => c) hz haddr] at hat
  exact (Option.some.inj hat).symm

theorem afterConnAck_adopted (h : Adopted R t a clientId old keep c b) {x : BrokerClient} (hx : b.client? a = some x)
    (hsconn : x.sconn = c) (hid : c.clientId = some clientId) (hne : clientId ≠ [])
    (hkey : R.sure → sessionKey clientId = clientId) (present : Bool) :
    Adopted R t a clientId old keep c (afterConnAck L a present b).2 ∧
      (R.sure → (afterConnAck L a present b).2.env.sessions clientId = c.record) := by
  obtain ⟨hadopted, hstored⟩ := persistConnect_adopted h hx hsconn hid hne hkey present
  have hserves := fun x => drainResumed_serves (L := L) (P := fun _ => True) trivial ⟨x, (persistConnect a present b).2.env⟩
  have hdrain := onClient_table (b := (persistConnect a present b).2) (a := a) () (m := drainResumed L) fun x _ =>
    ⟨(hserves x).served.sconn, (hserves x).spends⟩
  have hscrub := updateClient_table (b := (onClient a () (drainResumed L) (persistConnect a present b).2).2) (a := a)
    (f := BrokerClient.scrub) fun _ _ => rfl
  have htable : (afterConnAck L a present b).2.table = (persistConnect a present b).2.table := hscrub.trans hdrain
  refine ⟨hadopted.of_table htable, fun hsure => ?_⟩
  have hrecords := congrFun (congrArg STable.records htable) clientId
  exact hrecords.trans (hstored hsure)

theorem afterConnAck_spares (hS : S a) (present : Bool) (b : MqttBroker) : Spares S b (afterConnAck L a present b).2 := by
  have hpersist : Spares S b (persistConnect a present b).2 :=
    .of_eq (persistConnect_clients present b) (persistConnect_allocs present b)
  have hdrain := onClient_spares (b := (persistConnect a present b).2) hS () (m := drainResumed L) fun x _ =>
    have h := drainResumed_serves (L := L) (P := fun _ => True) trivial ⟨x, (persistConnect a present b).2.env⟩
    ⟨h.served.addr, h.spends⟩
  exact trans_of (Spares S) hpersist (trans_of (Spares S) hdrain (.updateClient (f := BrokerClient.scrub) hS fun _ h => h))

theorem connackProps_spares (hS : S a) (auto : Bool) (b : MqttBroker) : Spares S b (onClient a none (connackProps L auto) b).2 :=
  onClient_spares hS none fun x _ =>
    ⟨(connackProps_keeps auto ⟨x, b.env⟩).addr, (connackProps_minds (P := fun _ => True) trivial auto ⟨x, b.env⟩).spends⟩

theorem acceptConnect_spares (hS : S a) (mc : InConnect) (auto present : Bool) (b : MqttBroker) :
    Spares S b (acceptConnect L a mc auto present b).2 := by
  have hprops : Spares S b (onClient a none (connackProps L auto) b).2 := connackProps_spares hS auto b
  rw [acceptConnect_eq]
  generalize onClient a none (connackProps L auto) b = r at hprops ⊢
  obtain ⟨props, b₁⟩ := r
  cases props with
  | none =>
    have hend : Spares S b₁ (b₁.updateClient a (fun c => {c with sessionExpirySec := 0})) :=
      .updateClient (f := fun c => {c with sessionExpirySec := 0}) hS fun _ h => h
    show Spares S b (onClient a 0 (refuseConnect L mc _) _).2
    rw [onClient_refuseConnect]
    exact trans_of (Spares S) hprops (trans_of (Spares S) hend (sendConnAck_spares hS 0 _ _))
  | some props =>
    exact trans_of (Spares S) hprops (trans_of (Spares S) (sendConnAck_spares hS _ _ _) (afterConnAck_spares hS present _))

/-- The session is stored, whatever comes of the CONNACK, unless its client could not be told its id. -/
theorem acceptConnect_adopted (h : Adopted R t a clientId old keep c b) {x : BrokerClient} (hx : b.client? a = some x)
    (hsconn : x.sconn = c) (haddr : c.addr = a) (hid : c.clientId = some clientId) (hne : clientId ≠ [])
    (hkey : R.sure → sessionKey clientId = clientId) (hample : R.sure → ∀ ok ∈ b.env.allocs, ok = true) (mc : InConnect)
    (auto present : Bool) :
    ∃ expirySec, Adopted R t a clientId old keep {c with expirySec := expirySec} (acceptConnect L a mc auto present b).2 ∧
      (R.sure → (acceptConnect L a mc auto present b).2.env.sessions clientId = ({c with expirySec := expirySec} : SConn).record) := by
  have hprops : (onClient a none (connackProps L auto) b).2.table = b.table := onClient_table none fun x _ =>
    ⟨(connackProps_keeps auto ⟨x, b.env⟩).sconn, (connackProps_minds (P := fun _ => True) trivial auto ⟨x, b.env⟩).spends⟩
  have h₁ := h.of_table hprops
  obtain ⟨y, hy, hysconn⟩ := client?_sconn_of_table hprops hx
  have hnone : (onClient a none (connackProps L auto) b).1 = none → ¬R.sure := by
    intro hnone hsure
    rw [onClient_some hx] at hnone
    exact absurd (hample hsure false (connackProps_none hnone)) (by decide)
  rw [acceptConnect_eq]
  generalize onClient a none (connackProps L auto) b = r at h₁ hy hnone ⊢
  obtain ⟨props, b₁⟩ := r
  dsimp only at h₁ hy hnone ⊢
  cases props with
  | none =>
    refine ⟨0, ?_, fun hsure => absurd hsure (hnone rfl)⟩
    have hconns := updateClient_conns (b := b₁) (a := a) (f := fun c => {c with sessionExpirySec := 0}) hy
      (y := {c with expirySec := 0}) (by rw [← hsconn, ← hysconn]; rfl)
    have hwrite : Chain.writeAt a (fun _ => ({c with expirySec := 0} : SConn)) b₁.table.conns =
        Chain.writeAt a (fun _ => {c with expirySec := 0}) (old.elim t.conns (Chain.removeAt · t.conns)) := by
      rw [h₁.table]
      exact Chain.writeAt_writeAt fun _ _ => haddr
    have hend : Adopted R t a clientId old keep {c with expirySec := 0}
        (b₁.updateClient a (fun c => {c with sessionExpirySec := 0})) := by
      refine ⟨?_, h₁.records⟩
      have htable := h₁.table
      simp only [MqttBroker.table, STable.mk.injEq] at htable ⊢
      exact ⟨hconns.trans hwrite, htable.2.1, htable.2.2.1, htable.2.2.2.1, trivial⟩
    refine hend.of_table ?_
    rw [onClient_refuseConnect]
    exact sendConnAck_table 0 _ _
  | some props =>
    have hsend : (onClient a Code.badArg (sendConnAck L (acceptance mc present props)) b₁).2.table = b₁.table :=
      sendConnAck_table _ _ b₁
    obtain ⟨z, hz, hzsconn⟩ := client?_sconn_of_table hsend hy
    refine ⟨c.expirySec, ?_⟩
    exact afterConnAck_adopted (h₁.of_table hsend) hz (hzsconn.trans (hysconn.trans hsconn)) hid hne hkey present

/-! ### From the moment the session is established -/

/-- What is supposed of an accepted CONNECT. -/
structure Welcome (R : Terms) (t : STable) (a : Nat) (clientId : Bytes) (mc : InConnect) (found : Option BrokerClient) : Prop where
  named : R.named clientId mc.keepAliveSec
  finds : FindsAll t a clientId mc found

theorem establishSession_proceeds (hb : InOrder L R (· = a) b) {x : BrokerClient} (hx : b.client? a = some x)
    (hnew : x.sessionEstablished = false) (hpend : x.connackPendingLen = 0) (hrefused : x.connackRefused = false) {mc : InConnect}
    (hpassed : Passed mc clientId x) (hkeep : x.keepAliveSec = mc.keepAliveSec) (auto : Bool)
    (hwelcome : R.ordered → Welcome R b.table a clientId mc (findByClientId b clientId a)) :
    Proceeds L R (· = a) b (establishSession L a mc auto b).2 := by
  have hP : Ordinary (fun _ => True) := ⟨trivial, trivial⟩
  have haddr : x.addr = a := Chain.at?_addr hx
  have hna : ¬b.Subscribed a := by
    intro hs
    obtain ⟨y, hy, he⟩ := hb.phase.owned a hs
    obtain rfl := Option.some.inj (hx.symm.trans hy)
    rw [hnew] at he
    cases he
  have hfinds : Finds (fun _ => True) b a mc clientId := ⟨fun _ _ _ => .inl trivial, fun _ _ _ => .inr (.inr trivial)⟩
  have hadv := (establishSession_advances (Z := fun _ => True) hP trivial hb.phase rfl trivial hx
    ((hb.phase.sound x (Chain.at?_mem hx)).idle hnew) hpend hrefused hna hpassed hfinds auto).1
  rw [establishSession_eq hx mc auto hpassed.clientId] at hadv ⊢
  let b₁ := b.updateClient a BrokerClient.establish
  have hx₁ : b₁.client? a = some x.establish := Chain.at?_writeAt_self hx haddr
  have h₁ : Advances L (fun _ => True) (fun _ => True) (· = a) b b₁ := establish_advances hb.phase trivial rfl
  have hspares : Spares (· = a) b (adoptSession L a mc clientId b₁).2 :=
    trans_of (Spares (· = a)) (.updateClient (f := BrokerClient.establish) rfl fun _ h => h)
      (adoptSession_spares h₁.phase ⟨_, hx₁, rfl⟩ hna mc clientId)
  have hfound : findByClientId b₁ clientId a = findByClientId b clientId a := by
    have hsame := findByClientId_withClient (b := b) (s := ⟨x.establish, b.env⟩) haddr b.nextAutoId clientId
    have heq : b₁ = b.withClient a ⟨x.establish, b.env⟩ b.nextAutoId := by
      simp only [b₁, MqttBroker.withClient, MqttBroker.updateClient, Chain.writeAt_congr (g := fun _ => x.establish) hx rfl]
    rw [heq]
    exact hsame
  obtain ⟨-, -, -, y, hy, hmine⟩ := adoptSession_spec (L := L) h₁.phase hx₁ rfl hna mc hpassed.clientId
  have hadopted : R.ordered → Tidy L R.named b.table → ∃ expirySec, Adopted R b.table a clientId
      ((findByClientId b clientId a).map (·.addr)) (keepsSession mc (findByClientId b clientId a))
      {x.establish.sconn with
        subCount := if keepsSession mc (findByClientId b clientId a) then b.table.under clientId else 0
        expirySec := expirySec}
      (adoptSession L a mc clientId b₁).2 := by
    intro hR ht
    have hcount : x.subCount = 0 := ht.idle x.sconn (List.mem_map_of_mem (Chain.at?_mem hx)) hnew
    have hclaimed : Claimed R b.table a clientId x.establish.sconn none b.table.subs 0 b₁ := by
      have hconns := updateClient_conns (b := b) (f := BrokerClient.establish) hx (y := {x.establish.sconn with subCount := 0})
        (by show x.establish.sconn = _; simp [BrokerClient.sconn, BrokerClient.establish, hcount])
      refine ⟨?_, fun _ _ _ => rfl⟩
      show STable.mk b₁.table.conns b.subs (b.orphanSessions.map OrphanSession.sorphan) b.orphanSessionCount b.env.sessions = _
      rw [hconns]
      rfl
    have hw := hwelcome hR
    exact adoptSession_adopted h₁.phase ht (table_conn?_some hx) hnew haddr hpassed.clientId (R.nonempty hw.named)
      (fun hsure => R.keyed hsure hw.named) hclaimed mc hfound hw.finds
  generalize adoptSession L a mc clientId b₁ = r at hadv hspares hy hadopted ⊢
  obtain ⟨present, b₂⟩ := r
  dsimp only at hadv hspares hy hadopted ⊢
  have hwillspares : Spares (· = a) b₂ (onClient a () (storeWill L mc) b₂).2 := onClient_spares (S := (· = a)) rfl () fun z _ =>
    ⟨(storeWill_keeps mc ⟨z, b₂.env⟩).addr, (storeWill_minds (L := L) (P := fun _ => True) trivial mc ⟨z, b₂.env⟩).spends⟩
  have hwill : (onClient a () (storeWill L mc) b₂).2.table = b₂.table := onClient_table () fun z _ =>
    ⟨(storeWill_keeps mc ⟨z, b₂.env⟩).sconn, (storeWill_minds (L := L) (P := fun _ => True) trivial mc ⟨z, b₂.env⟩).spends⟩
  have hall := trans_of (Spares (· = a)) hspares (trans_of (Spares (· = a)) hwillspares
    (acceptConnect_spares (L := L) (S := (· = a)) rfl mc auto present _))
  refine .of_run hb hadv.phase (fun z hz he hX => hb.blank z (hall.others z hz hX he) he hX) hall.allocs fun hR ht => .single ?_
  obtain ⟨expirySec, hadopted⟩ := hadopted hR ht
  have hw := hwelcome hR
  obtain ⟨z, hz, hzsconn⟩ := client?_sconn_of_table hwill hy
  have hysconn := hadopted.client hy haddr
  have hample : R.sure → ∀ ok ∈ (onClient a () (storeWill L mc) b₂).2.env.allocs, ok = true := fun hsure ok hok =>
    hb.ample hsure ok (hspares.allocs.subset (hwillspares.allocs.subset hok))
  obtain ⟨expirySec', hdone, hstored⟩ := acceptConnect_adopted (hadopted.of_table hwill) hz (hzsconn.trans hysconn) haddr
    hpassed.clientId (R.nonempty hw.named) (fun hsure => R.keyed hsure hw.named) hample mc auto present
  have hthere : ∀ y ∈ findByClientId b clientId a, b.client? y.addr = some y ∧ y.addr ≠ a ∧ y.clientId = some clientId := by
    intro y hy
    obtain ⟨hmem, hne, hid⟩ := findByClientId_some hy
    exact ⟨hb.phase.client?_of_mem hmem, hne, hid⟩
  have hnamed : R.named clientId x.keepAliveSec := hkeep ▸ hw.named
  refine hdone.opens (table_conn?_some hx) hnew haddr hpassed.clientId hnamed rfl ?_ ?_ hw.finds.owner hstored
  · cases keepsSession mc (findByClientId b clientId a) <;> rfl
  · intro w hw'
    obtain ⟨y, hy, rfl⟩ := Option.map_eq_some_iff.mp hw'
    obtain ⟨hat, hne, hid⟩ := hthere y hy
    refine ⟨hne, fun u hu huaddr _ => ?_⟩
    have hu := ht.conn?_of_mem hu
    rw [huaddr, table_conn?_some hat] at hu
    rw [← Option.some.inj hu]
    exact hid

end answers

end WolfMqtt.Broker
