import WolfMqtt.Broker.WillFan

/-! Sessions that expire and Wills that fall due, over whole runs.

`MqttBroker_Step` looks for expired sessions at most once a second, before it handles any
packet, and for delayed Wills at its end. With a clock that never goes back and stands
still during a step, no packet finds an expired session in the pool, and a delayed
Will is there exactly until the first step at or after its time. -/
namespace WolfMqtt.Broker

section ages
variable {n : Nat} {W : List PendingWill → List PendingWill → Prop} [IsPreorder (List PendingWill) W] {L : Limits} {a : Nat}
  {b b' : MqttBroker}

/-! ### The session of a CONNECT -/

theorem assignClientId_ages (mc : InConnect) : Moves (Aging n W) (assignClientId a mc) := by
  refine .get_bind fun b => ?_
  cases (b.client? a).bind (·.clientId) with
  | some _ => exact refl b
  | none =>
    refine Moves.ite (fun _ => .get_bind fun b => ?_) (fun _ => .pure _) b
    refine Moves.bind_at (.of_eq (refl b.env) rfl rfl rfl) (Moves.bind (onClient_ages none fun s => ?_) (fun stored => ?_) _)
    · exact (storeString_checks _ s).spends
    · exact .bind (updateClient_ages a _) fun _ => .ite (fun _ => .pure _) fun _ => .pure _

theorem connectChecks_ages (mc : InConnect) : Moves (Aging n W) (connectChecks L a mc) := by
  refine .bind (onClient_ages none fun s => (checkClientId_spec mc s).checks.spends) fun r₁ => ?_
  cases r₁ with
  | some _ => exact .pure _
  | none =>
  refine .bind (onClient_ages none fun s => (checkParams_spec mc s).checks.spends) fun r₂ => ?_
  cases r₂ with
  | some _ => exact .pure _
  | none =>
  refine .bind (assignClientId_ages mc) fun r₃ => ?_
  cases r₃ with
  | error _ => exact .pure _
  | ok auto =>
  refine .get_bind fun b => Moves.bind (onClient_ages none fun s => ?_) (fun r₄ => ?_) b
  · exact (checkCredentials_spec mc s L b.authUser b.authPass).checks.spends
  cases r₄ with
  | some _ => exact .pure _
  | none =>
    dsimp only
    cases willRefusal L mc with
    | some _ => exact .pure _
    | none => exact .pure _

theorem subsReassociateClient_ages (clientId : Bytes) : Moves (Aging n W) (subsReassociateClient clientId a) := by
  intro b
  unfold subsReassociateClient
  split
  · exact refl b
  · exact .of_eq (refl b.env) rfl rfl rfl

theorem qos2TakeoverAt_ages (old : Nat) : Moves (Aging n W) (qos2TakeoverAt a old) := by
  intro b
  unfold qos2TakeoverAt
  split
  · exact .of_eq (refl b.env) rfl rfl rfl
  · exact refl b

theorem carryOver_ages (survives : Bool) (old : Nat) (clientId : Bytes) :
    Moves (Aging n W) (carryOver survives a old clientId) :=
  .ite (fun _ => .bind (subsReassociateClient_ages clientId) fun _ => .bind (qos2TakeoverAt_ages old) fun _ => .pure _)
    fun _ => .pure _

theorem takeover_ages (hW : ∀ w ws, w.Delayed L n → W ws (w :: ws)) (mc : InConnect) (clientId : Bytes) (old : BrokerClient) :
    Moves (Aging n W) (takeover L a mc clientId old) := by
  have hclose : Moves (Aging n W) (closeTakenOver L old) := by
    refine .ite (fun _ => publishWill_ages hW) fun _ => ?_
    exact .bind (onClient_writes_ages 0 (sendDisconnect_writes L _)) fun _ => updateClient_ages _ _
  exact .bind hclose fun _ => .bind (carryOver_ages _ _ clientId) fun _ => .bind subsRemoveClient_ages fun _ =>
    .bind (clientRemove_ages _) fun _ => .pure _

theorem claimSession_ages (hW : ∀ w ws, w.Delayed L n → W ws (w :: ws)) (mc : InConnect) (clientId : Bytes) :
    Moves (Aging n W) (claimSession L a mc clientId) := by
  refine .get_bind fun b => ?_
  cases findByClientId b clientId a with
  | some old => exact takeover_ages hW mc clientId old b
  | none => exact Moves.ite (fun _ => .pure _) (fun _ => .bind (subsReassociateClient_ages clientId) fun _ => .pure _) b

theorem discardSession_ages (clientId : Bytes) : Moves (Aging n W) (discardSession clientId) := by
  refine .bind (modify_ages fun b => ?_) fun _ => .get_bind fun b => ?_
  · split <;> exact ⟨rfl, rfl, rfl, rfl⟩
  · cases orphanFind b clientId with
    | none => exact refl b
    | some o => exact orphanRemove_ages o b

theorem adoptSession_ages (hW : ∀ w ws, w.Delayed L n → W ws (w :: ws)) (mc : InConnect) {clientId : Bytes}
    (hcancel : ∀ ws, W ws (ws.eraseP (fun w => w.clientId = clientId))) :
    Moves (Aging n W) (adoptSession L a mc clientId) := by
  refine .bind (pendingWillCancel_ages hcancel) fun _ => .bind (claimSession_ages hW mc clientId) fun carried => ?_
  refine .ite (fun _ => ?_) fun _ => .bind orphanReclaim_ages fun _ => .pure _
  exact .bind (discardSession_ages clientId) fun _ => .bind (persistOps_ages _) fun _ => .pure _

/-! ### The answer to a CONNECT -/

theorem refuseConnect_ages (mc : InConnect) (code : UInt8) : Moves (Aging n W) (onClient a 0 (refuseConnect L mc code)) :=
  onClient_ages 0 fun s => sendConnAck_spends _ s

theorem persistConnect_ages (present : Bool) : Moves (Aging n W) (persistConnect a present) := by
  refine .get_bind fun b => ?_
  cases b.client? a with
  | none => exact refl b
  | some c =>
    dsimp only
    cases c.clientId with
    | none => exact refl b
    | some id => exact Moves.ite (fun _ => persistOps_ages _) (fun _ => persistOps_ages _) b

theorem acceptConnect_ages (mc : InConnect) (auto present : Bool) : Moves (Aging n W) (acceptConnect L a mc auto present) := by
  have hprops : Moves (Aging n W) (onClient a none (connackProps L auto)) :=
    onClient_ages none fun s => (connackProps_minds (P := fun _ => True) trivial auto s).spends
  refine .bind hprops fun props => ?_
  cases props with
  | none => exact .bind (updateClient_ages a _) fun _ => refuseConnect_ages mc _
  | some props =>
    refine .bind (onClient_ages _ fun s => sendConnAck_spends _ s) fun rc => .bind (persistConnect_ages present) fun _ => ?_
    refine .bind (onClient_ages () fun s => ?_) fun _ => .bind (updateClient_ages a _) fun _ => .pure _
    exact (drainResumed_serves (P := fun _ => True) trivial s).spends

theorem establishSession_ages (hW : ∀ w ws, w.Delayed L n → W ws (w :: ws)) (mc : InConnect) (auto : Bool) {c : BrokerClient}
    {clientId : Bytes} (hc : b.client? a = some c) (hid : c.clientId = some clientId)
    (hcancel : ∀ ws, W ws (ws.eraseP (fun w => w.clientId = clientId))) :
    Aging n W b (establishSession L a mc auto b).2 := by
  let b₁ := b.updateClient a (fun c => {c with sessionEstablished := true})
  have hc₁ : b₁.client? a = some {c with sessionEstablished := true} :=
    Chain.at?_writeAt_self (f := fun c : BrokerClient => {c with sessionEstablished := true}) hc (Chain.at?_addr (x := c) hc)
  have hadopt : Aging n W b₁ (adoptOwnSession L a mc b₁).2 := by
    simp only [adoptOwnSession, run_bind, run_get, hc₁, Option.bind_some, hid]
    exact adoptSession_ages hW mc hcancel b₁
  have hwill : Moves (Aging n W) (onClient a () (storeWill L mc)) :=
    onClient_ages () fun s => (storeWill_minds (P := fun _ => True) trivial mc s).spends
  exact Moves.bind_at (updateClient_ages a _ b) (Moves.bind_at hadopt (Moves.bind_at (hwill _) (acceptConnect_ages mc auto _ _)))

/-- A CONNECT under a client id takes a Will of that id off the list. -/
theorem handleConnect_ages (hW : ∀ w ws, w.Delayed L n → W ws (w :: ws)) {c : BrokerClient} (hc : b.client? a = some c)
    (decoded : Except DecodeError InConnect) (hcancel : ∀ mc, decoded = .ok mc → ∀ ws,
      W ws (ws.eraseP (fun w => w.clientId = connectId c b.nextAutoId mc))) :
    Aging n W b (handleConnect L a decoded b).2 := by
  cases decoded with
  | error e => exact refl b
  | ok mc =>
    obtain ⟨⟨t, m, hstate, hchecks, hpassed⟩, -⟩ := connectChecks_spec hc L mc
    have hages : Aging n W b (connectChecks L a mc b).2 := connectChecks_ages mc b
    refine Moves.bind_at hages ?_
    generalize connectChecks L a mc b = r at hstate hpassed ⊢
    obtain ⟨verdict, b₁⟩ := r
    cases verdict with
    | error code => exact refuseConnect_ages mc code b₁
    | ok auto =>
      have hc₁ : b₁.client? a = some t.c := by
        rw [show b₁ = b.withClient a t m from hstate]
        exact withClient_client? hc (hchecks.addr.trans (Chain.at?_addr (x := c) hc))
      exact establishSession_ages hW mc auto hc₁ (hpassed auto rfl).clientId (hcancel mc rfl)

/-! ### A turn -/

/-- Is this a CONNECT that may be under a client id: one that names it, or none at all? -/
def InPacket.Claims (clientId : Bytes) : InPacket → Prop
  | .connect (.ok mc) => mc.clientId = clientId ∨ mc.clientId = []
  | _ => False

theorem handlePublishRec_spends (decoded : Except DecodeError (Nat × UInt8)) (s : Conn) :
    s.env.Spends (handlePublishRec L decoded s).2.env := by
  cases decoded with
  | error e => exact refl s.env
  | ok packet =>
    obtain ⟨packetId, reason⟩ := packet
    show s.env.Spends ((if s.c.protocolLevel ≥ level5 ∧ reason ≥ 0x80 then _ else _ : ClientM Int) s).2.env
    split
    · exact (onPubReject_serves (L := L) (P := fun _ => True) trivial packetId s).spends
    show s.env.Spends ((if (onPubRec packetId s).1 < 0 then _ else _ : ClientM Int) (onPubRec packetId s).2).2.env
    have hrec : (onPubRec packetId s).2.env = s.env := by
      cases hfind : findOutPub s.c packetId .publishSent with
      | none => rw [onPubRec_none hfind]
      | some e =>
        rw [onPubRec_some hfind]
        split <;> rfl
    split
    · rw [run_pure, hrec]
      exact refl s.env
    · rw [← hrec]
      exact (sendPubrel_serves (L := L) (P := fun _ => True) trivial packetId _).spends

theorem stampRx_ages (b : MqttBroker) : Aging n W b (stampRx a b).2 := getTime_ages (updateClient_ages a _ b)

section turn
variable (hW : ∀ w ws, w.Delayed L n → W ws (w :: ws))
include hW

theorem dispatch_ages {c : BrokerClient} (hc : b.client? a = some c) (p : InPacket)
    (hcancel : ∀ id ws, p.Claims id → W ws (ws.eraseP (fun w => w.clientId = id))) :
    Aging n W b (dispatch L a p b).2 := by
  cases p with
  | connect decoded =>
    refine Moves.bind_at (handleConnect_ages hW hc decoded fun mc hmc ws => hcancel _ ws ?_) (Moves.get_at ?_)
    · subst hmc
      show mc.clientId = _ ∨ mc.clientId = []
      unfold connectId
      split
      · rename_i hempty
        exact .inr (List.isEmpty_iff.mp hempty)
      · exact .inl rfl
    generalize (handleConnect L a decoded b) = r
    cases r.2.client? a with
    | none => exact refl r.2
    | some c =>
      refine Moves.ite (fun _ => .bind endConnect_ages fun _ => .pure _) (fun _ => .bind (fun b => ?_) fun _ => .pure _) r.2
      exact Moves.when_at fun _ => updateClient_ages a _ b
  | publish decoded => exact closeIfFatal_ages hW (handlePublish_ages decoded) b
  | publishAck decoded =>
    exact onAck_ages hW decoded (fun id s => (onPubAck_serves (P := fun _ => True) trivial id fun _ _ _ => trivial).spends) b
  | publishRec decoded => exact closeIfFatal_ages hW (onClient_ages _ (handlePublishRec_spends decoded)) b
  | publishRel decoded =>
    exact closeIfFatal_ages hW (onClient_ages _ fun s => (handlePublishRel_minds (P := fun _ => True) decoded s).spends) b
  | publishComp decoded =>
    exact onAck_ages hW decoded (fun id s => (onPubComp_serves (P := fun _ => True) trivial id s).spends) b
  | subscribe decoded => exact closeIfFatal_ages hW (handleSubscribe_ages decoded) b
  | unsubscribe decoded => exact closeIfFatal_ages hW (handleUnsubscribe_ages decoded) b
  | pingReq remainLen =>
    refine Moves.ite (fun _ => .bind (abnormalClose_ages hW) fun _ => .pure _) (fun _ => ?_) b
    exact closeIfFatal_ages hW (onClient_writes_ages _ (sendPingResp_writes L))
  | disconnect remainLen decoded => exact Moves.bind_at (handleDisconnect_ages hW remainLen decoded b) (refl _)
  | unhandled => exact Moves.bind_at (abnormalClose_ages hW b) (refl _)

theorem receivePacket_ages {c : BrokerClient} (hc : b.client? a = some c) (hopen : c.sockOpen = true) (valid : Bool) (p : InPacket)
    (hcancel : valid = true → c.hears p = true → ∀ id ws, p.Claims id → W ws (ws.eraseP (fun w => w.clientId = id))) :
    Aging n W b (receivePacket L a valid p b).2 := by
  refine Moves.bind_at (stampRx_ages b) (Moves.get_at ?_)
  have hc₁ := stampRx_client? hc
  generalize (stampRx a b).2 = b₁ at hc₁ ⊢
  rw [hc₁]
  dsimp only
  cases valid with
  | false => exact Moves.ite (fun _ => abnormalClose_ages hW) (fun _ => dropClient_ages) b₁
  | true =>
    simp only [Bool.not_true, Bool.false_eq_true, if_false]
    by_cases hdrop : (!p.isConnect) = true ∧ (!c.connected) = true
    · rw [if_pos hdrop]
      exact dropClient_ages b₁
    rw [if_neg hdrop]
    by_cases hclose : p.isConnect = true ∧ c.connected = true
    · rw [if_pos hclose]
      exact abnormalClose_ages hW b₁
    rw [if_neg hclose]
    have hhears : c.hears p = true := by
      unfold BrokerClient.hears
      cases hp : p.isConnect <;> cases hconn : c.connected <;> simp_all
    refine Moves.bind_at (dispatch_ages hW hc₁ p (hcancel rfl hhears)) ?_
    exact Moves.ite (fun _ => checkTimeouts_ages hW) (fun _ => .pure _) _

theorem receive_ages (rx : Rx) (hcancel : ∀ p, rx = .packet true p → (b.client? a).any (·.hears p) = true →
      ∀ id ws, p.Claims id → W ws (ws.eraseP (fun w => w.clientId = id))) :
    Aging n W b (receive L a rx b).2 := by
  refine Moves.get_at ?_
  cases hc : b.client? a with
  | none => exact refl b
  | some c =>
    dsimp only
    cases hopen : c.sockOpen with
    | false => exact abnormalClose_ages hW b
    | true =>
      cases rx with
      | nothing => exact checkTimeouts_ages hW b
      | failed => exact abnormalClose_ages hW b
      | packet valid p =>
        refine receivePacket_ages hW hc hopen valid p fun hvalid hhears => ?_
        subst hvalid
        exact hcancel p rfl (by rw [hc]; exact hhears)

theorem process_ages (rx : Rx) (hcancel : ∀ p, rx = .packet true p → (finishWrites L a b).1 = true →
      ((finishWrites L a b).2.client? a).any (·.hears p) = true →
      ∀ id ws, p.Claims id → W ws (ws.eraseP (fun w => w.clientId = id))) :
    Aging n W b (process L a rx b).2 := by
  refine Moves.bind_at (finishWrites_ages hW b) ?_
  generalize finishWrites L a b = r at hcancel ⊢
  obtain ⟨go, b₁⟩ := r
  cases go with
  | false => exact refl b₁
  | true => exact receive_ages hW rx fun p hrx => hcancel p hrx rfl

end turn

theorem clientAdd_ages : Moves (Aging n W) clientAdd := by
  refine .bind alloc_ages fun slot => ?_
  cases slot with
  | none => exact .pure _
  | some x => exact fun b => getTime_ages (Moves.bind_at (.of_eq (refl b.env) rfl rfl rfl) (refl _))

/-! ### An event -/

/-- The packet an event has the broker handle, in a state that the clock has not moved in. -/
theorem dispatched_ages (hW : ∀ w ws, w.Delayed L n → W ws (w :: ws)) {e : Event × Script} (hat : (b.env.arm e.2).At n)
    {p : InPacket} (h : dispatched L b e = some (a, p, b')) : Ages n W b b' := by
  obtain ⟨-, -, rfl⟩ := dispatched_some h
  let b₀ : MqttBroker := {b with env := b.env.arm e.2}
  have h : Ages n W b₀ (stampRx a (finishWrites L a b₀).2).2 :=
    trans_of (Aging n W) (finishWrites_ages hW b₀) (stampRx_ages _) hat
  exact ⟨h.standing, h.orphans, h.wills, h.checked⟩

/-- An event other than the sweep and the look at the delayed Wills. -/
theorem step_ages (hW : ∀ w ws, w.Delayed L n → W ws (w :: ws)) {e : Event × Script} (hat : (b.env.arm e.2).At n)
    (hsweep : e.1 ≠ .sweep) (hwills : e.1 ≠ .pendingWills)
    (hcancel : OnPacket L (fun _ _ p => ∀ id ws, p.Claims id → W ws (ws.eraseP (fun w => w.clientId = id))) b e) :
    Ages n W b (step L b e) := by
  obtain ⟨ev, script⟩ := e
  let b₀ : MqttBroker := {b with env := b.env.arm script}
  suffices h : Ages n W b₀ (step L b (ev, script)) from ⟨h.standing, h.orphans, h.wills, h.checked⟩
  cases ev with
  | sweep => exact absurd rfl hsweep
  | pendingWills => exact absurd rfl hwills
  | accept => exact clientAdd_ages b₀ hat
  | process a rx =>
    refine process_ages hW rx (fun p hrx hgo hhears => ?_) hat
    subst hrx
    refine hcancel (a, p, (stampRx a (finishWrites L a b₀).2).2) ?_
    simp only [dispatched, b₀, hgo, hhears, Bool.and_self, if_true]
    rfl

end ages

/-! ### The sweep -/

section sweep
variable {n m : Nat} {L : Limits} {b : MqttBroker}

/-- Nothing expired is left, if there is a turn for every orphan. -/
theorem expireLoop_clears (fuel : Nat) (hfuel : b.orphanSessions.length ≤ fuel) :
    ∀ o ∈ (expireLoop n fuel b).2.orphanSessions, orphanExpired n o = false := by
  induction fuel generalizing b with
  | zero =>
    intro o ho
    rw [show (expireLoop n 0 b).2 = b from rfl, List.length_eq_zero_iff.mp (Nat.le_zero.mp hfuel)] at ho
    cases ho
  | succ fuel ih =>
    simp only [expireLoop, run_bind, run_get]
    cases hfind : b.orphanSessions.find? (orphanExpired n) with
    | none =>
      intro o ho
      simpa using List.find?_eq_none.mp hfind o ho
    | some o =>
      refine ih ?_
      have hmem : o ∈ b.orphanSessions := List.mem_of_find?_eq_some hfind
      have hlen : (Chain.removeAt o.addr b.orphanSessions).length = b.orphanSessions.length - 1 :=
        List.length_eraseP_of_mem hmem (decide_eq_true rfl)
      show (Chain.removeAt o.addr b.orphanSessions).length ≤ fuel
      omega

/-- No session in the pool has outlived its expiry at `n`. -/
structure Current (n : Nat) (b : MqttBroker) : Prop where
  since : ∀ t ∈ b.terms, t.since ≤ n
  live : ∀ t ∈ b.terms, t.expirySec = neverExpires ∨ n < t.since + t.expirySec

theorem orphanExpired_false {o : OrphanSession} (h : orphanExpired n o = false) (hsince : o.orphanSince ≤ n) :
    o.sessionExpirySec = neverExpires ∨ n < o.orphanSince + o.sessionExpirySec := by
  simp only [orphanExpired, ne_eq, Bool.and_eq_false_iff, decide_eq_false_iff_not, not_not] at h
  omega

theorem Current.ages {W : List PendingWill → List PendingWill → Prop} (h : Current n b) {b' : MqttBroker} (ha : Ages n W b b') :
    Current n b' := by
  constructor
  · intro t ht
    rcases ha.orphans t ht with ht | ⟨hsince, -⟩
    · exact h.since t ht
    · exact Nat.le_of_eq hsince
  · intro t ht
    rcases ha.orphans t ht with ht | ⟨hsince, hexpiry⟩
    · exact h.live t ht
    · exact .inr (by omega)

/-- Nothing has expired since the last sweep. -/
structure Swept (n : Nat) (b : MqttBroker) : Prop where
  current : Current n b
  checked : b.orphanLastExpireCheck = n

/-- The sweep looks at the pool unless it has done so at this reading of the clock. -/
theorem sweep_eq (hat : b.env.At n) : (sweep b).2 =
    if n < b.orphanLastExpireCheck ∨ n - b.orphanLastExpireCheck ≥ 1 then
      {(expireLoop n b.orphanSessions.length b).2 with orphanLastExpireCheck := n}
    else b := by
  have hsweep : (orphanExpireSweep b).2 = (expireLoop n b.orphanSessions.length b).2 := by
    simp only [orphanExpireSweep, run_bind, getTime_at hat, run_get]
  have hrun : (sweep b).2 = (whenDo (n < b.orphanLastExpireCheck ∨ n - b.orphanLastExpireCheck ≥ 1) (do
      orphanExpireSweep
      modify (fun b => {b with orphanLastExpireCheck := n})) b).2 := by
    simp only [sweep, run_bind, getTime_at hat, run_get]
  rw [hrun]
  unfold whenDo
  split
  · rw [← hsweep]
    rfl
  · rfl

theorem sweep_swept (h : Swept m b) (hle : m ≤ n) (script : Script) (hclock : script.clock = []) (hnow : script.now = n) :
    Swept n (step L b (.sweep, script)) := by
  let b₀ : MqttBroker := {b with env := b.env.arm script}
  have hat : b₀.env.At n := ⟨hclock, hnow⟩
  show Swept n (sweep b₀).2
  rw [sweep_eq hat, show b₀.orphanLastExpireCheck = m from h.checked]
  split
  · have hages : Ages n Eq b₀ (expireLoop n b₀.orphanSessions.length b₀).2 := expireLoop_ages _ _ b₀ hat
    have hsince : ∀ t ∈ (expireLoop n b₀.orphanSessions.length b₀).2.terms, t.since ≤ n := by
      intro t ht
      rcases hages.orphans t ht with ht | ⟨hsince, -⟩
      · exact Nat.le_trans (h.current.since t ht) hle
      · exact Nat.le_of_eq hsince
    refine ⟨⟨hsince, fun t ht => ?_⟩, rfl⟩
    obtain ⟨o, ho, rfl⟩ := List.mem_map.mp ht
    exact orphanExpired_false (expireLoop_clears _ (Nat.le_refl _) o ho) (hsince _ (List.mem_map_of_mem ho))
  · obtain rfl : m = n := by omega
    exact ⟨⟨h.current.since, h.current.live⟩, h.checked⟩

/-- The sweep is not about Wills. -/
theorem sweep_wills (script : Script) (hclock : script.clock = []) (hnow : script.now = n) :
    (step L b (.sweep, script)).pendingWills = b.pendingWills := by
  let b₀ : MqttBroker := {b with env := b.env.arm script}
  have hat : b₀.env.At n := ⟨hclock, hnow⟩
  show (sweep b₀).2.pendingWills = b₀.pendingWills
  rw [sweep_eq hat]
  split
  · have hages : Ages n Eq b₀ (expireLoop n b₀.orphanSessions.length b₀).2 := expireLoop_ages _ _ b₀ hat
    exact hages.wills.symm
  · rfl

end sweep

/-! ### Delayed Wills that fall due -/

section due
variable {n : Nat} {L : Limits} {b : MqttBroker}

/-- The loop publishes what is due, and takes it off the list. -/
theorem pendingWillLoop_ages (ws pre : List PendingWill) (hat : b.env.At n) (hlist : b.pendingWills = pre ++ ws)
    (hpre : ∀ w ∈ pre, n < w.publishTime) :
    Ages n (fun _ ws' => ws' = pre ++ ws.filter (fun w => n < w.publishTime)) b (pendingWillLoop L n ws b).2 := by
  induction ws generalizing pre b with
  | nil => exact ⟨hat, fun _ ht => .inl ht, hlist, rfl⟩
  | cons w rest ih =>
    by_cases hdue : n ≥ w.publishTime
    · have hpublish := publishWillImmediate_ages (L := L) (W := Eq) w.topic w.payload w.qos w.retain b hat
      let b₁ : MqttBroker := {(publishWillImmediate L w.topic w.payload w.qos w.retain b).2 with
        pendingWills := (publishWillImmediate L w.topic w.payload w.qos w.retain b).2.pendingWills.erase w}
      have hrun : (pendingWillLoop L n (w :: rest) b).2 = (pendingWillLoop L n rest b₁).2 := by
        simp only [pendingWillLoop, run_bind, whenDo, if_pos hdue]
        rfl
      have hnot : w ∉ pre := fun hw => absurd (hpre w hw) (by omega)
      have hlist₁ : b₁.pendingWills = pre ++ rest := by
        show (publishWillImmediate L w.topic w.payload w.qos w.retain b).2.pendingWills.erase w = _
        rw [← hpublish.wills, hlist, List.erase_append_right _ hnot, List.erase_cons_head]
      have hrest := ih pre (b := b₁) ⟨hpublish.standing.clock, hpublish.standing.now⟩ hlist₁ hpre
      rw [hrun, List.filter_cons_of_neg (by simpa using hdue)]
      refine ⟨hrest.standing, fun t ht => ?_, hrest.wills, hrest.checked.trans hpublish.checked⟩
      rcases hrest.orphans t ht with ht | ht
      · exact hpublish.orphans t ht
      · exact .inr ht
    · have hrun : (pendingWillLoop L n (w :: rest) b).2 = (pendingWillLoop L n rest b).2 := by
        simp only [pendingWillLoop, run_bind, whenDo, if_neg hdue]
        rfl
      have hrest := ih (pre ++ [w]) hat (by rw [hlist, List.append_assoc]; rfl) fun x hx => by
        rcases List.mem_append.mp hx with hx | hx
        · exact hpre x hx
        · rw [List.mem_singleton.mp hx]
          omega
      rw [hrun, List.filter_cons_of_pos (by simpa using hdue)]
      refine ⟨hrest.standing, hrest.orphans, ?_, hrest.checked⟩
      exact hrest.wills.trans (List.append_assoc _ _ _)

/-- What is left after the look at the delayed Wills is not due. -/
theorem pendingWills_ages (script : Script) (hclock : script.clock = []) (hnow : script.now = n) :
    Ages n (fun ws ws' => ws' = ws.filter (fun w => n < w.publishTime)) b (step L b (.pendingWills, script)) := by
  let b₀ : MqttBroker := {b with env := b.env.arm script}
  have hat : b₀.env.At n := ⟨hclock, hnow⟩
  have hrun : (pendingWillProcess L b₀).2 = (pendingWillLoop L n b.pendingWills b₀).2 := by
    simp only [pendingWillProcess, run_bind, getTime_at hat, run_get]
    rfl
  have h := pendingWillLoop_ages (L := L) (b := b₀) b.pendingWills [] hat rfl (fun _ hw => absurd hw List.not_mem_nil)
  rw [← hrun] at h
  exact ⟨h.standing, h.orphans, h.wills, h.checked⟩

end due

/-! ### Runs -/

/-- One `MqttBroker_Step`: the reading of the clock, and what is done after the sweep, with the
answers of the allocator and of the transport. -/
structure Poll where
  now : Nat
  turns : List (Event × List Bool × List Int) := []

/-- A turn with what the outside world answers. -/
def Poll.answered (p : Poll) (t : Event × List Bool × List Int) : Event × Script :=
  (t.1, {now := p.now, allocs := t.2.1, writes := t.2.2})

def Poll.events (p : Poll) : List (Event × Script) := (.sweep, {now := p.now}) :: p.turns.map p.answered

/-- The clock never goes back. -/
def Forward (polls : List Poll) : Prop := (polls.map Poll.now).Pairwise (· ≤ ·)

instance : DecidablePred Forward := fun polls => inferInstanceAs (Decidable ((polls.map Poll.now).Pairwise (· ≤ ·)))

section polls
variable {L : Limits} {b : MqttBroker}

theorem Poll.at_ (p : Poll) (t : Event × List Bool × List Int) (env : Env) : (env.arm (p.answered t).2).At p.now := ⟨rfl, rfl⟩

theorem run_append (es es' : List (Event × Script)) : run L b (es ++ es') = run L (run L b es) es' := List.foldl_append

/-- Nothing is said of the Wills. -/
instance : IsPreorder (List PendingWill) (fun _ _ => True) where
  refl _ := trivial
  trans _ _ _ _ _ := trivial

/-- Nothing has expired between the events of a step. -/
theorem turns_swept {n : Nat} (p : Poll) (hn : p.now = n) (turns : List (Event × List Bool × List Int)) (h : Swept n b) :
    Swept n (run L b (turns.map p.answered)) := by
  induction turns generalizing b with
  | nil => exact h
  | cons t rest ih =>
    refine ih (b := step L b (p.answered t)) ?_
    obtain ⟨ev, answers⟩ := t
    subst hn
    cases ev with
    | sweep => exact sweep_swept h (Nat.le_refl _) _ rfl rfl
    | pendingWills =>
      have hages := pendingWills_ages (L := L) (b := b) (p.answered (.pendingWills, answers)).2 rfl rfl
      exact ⟨h.current.ages hages, hages.checked.trans h.checked⟩
    | accept =>
      have hages := step_ages (W := fun _ _ => True) (L := L) (b := b) (e := p.answered (.accept, answers)) (fun _ _ _ => trivial)
        (p.at_ _ _) (by rintro ⟨⟩) (by rintro ⟨⟩) fun _ _ _ _ _ => trivial
      exact ⟨h.current.ages hages, hages.checked.trans h.checked⟩
    | process a rx =>
      have hages := step_ages (W := fun _ _ => True) (L := L) (b := b) (e := p.answered (.process a rx, answers)) (fun _ _ _ => trivial)
        (p.at_ _ _) (by rintro ⟨⟩) (by rintro ⟨⟩) fun _ _ _ _ _ => trivial
      exact ⟨h.current.ages hages, hages.checked.trans h.checked⟩

theorem poll_swept {m : Nat} (p : Poll) (hle : m ≤ p.now) (h : Swept m b) : Swept p.now (run L b p.events) :=
  turns_swept p rfl p.turns (sweep_swept h hle _ rfl rfl)

theorem polls_swept (polls : List Poll) {m : Nat} (h : Swept m b) (hle : ∀ p ∈ polls, m ≤ p.now) (hforward : Forward polls)
    (last : Poll) (hlast : last ∈ polls.getLast?) : Swept last.now (run L b (polls.flatMap Poll.events)) := by
  induction polls generalizing b m with
  | nil => cases hlast
  | cons p rest ih =>
    have hp := poll_swept (L := L) p (hle p List.mem_cons_self) h
    obtain ⟨hfirst, hrest⟩ := List.pairwise_cons.mp hforward
    rw [List.flatMap_cons, run_append]
    cases rest with
    | nil =>
      obtain rfl : p = last := by simpa using hlast
      exact hp
    | cons q rest =>
      refine ih hp (fun x hx => hfirst x.now (List.mem_map_of_mem hx)) hrest ?_
      rwa [List.getLast?_cons_cons] at hlast

/-- No packet finds an expired session: in every step of every run, whatever the broker has done
since the sweep, each session in the pool has begun its wait by now and has not outlived its expiry,
and so it is when the next packet is handled. -/
theorem run_current (authUser authPass : Option Bytes) (polls : List Poll) (p : Poll) (hforward : Forward (polls ++ [p])) :
    let b := run L (initial authUser authPass) ((polls ++ [p]).flatMap Poll.events)
    Current p.now b ∧ ∀ t a packet b', dispatched L b (p.answered t) = some (a, packet, b') → Current p.now b' := by
  have hstart : Swept 0 (initial authUser authPass) :=
    ⟨⟨fun _ ht => absurd ht List.not_mem_nil, fun _ ht => absurd ht List.not_mem_nil⟩, rfl⟩
  have hswept : Swept p.now (run L (initial authUser authPass) ((polls ++ [p]).flatMap Poll.events)) :=
    polls_swept (polls ++ [p]) hstart (fun _ _ => Nat.zero_le _) hforward p (by simp)
  refine ⟨hswept.current, fun t a packet b' hdisp => ?_⟩
  exact hswept.current.ages (dispatched_ages (W := fun _ _ => True) (fun _ _ _ => trivial) (p.at_ _ _) hdisp)

/-- A session whose connection left at second 10 waits at second 109, with a hundred seconds to
wait, and is gone at second 110. -/
def farewell (n : Nat) : List Poll := [{now := 10, turns := departure.map (fun e => (e.1, [], []))}] ++ [{now := n}]

theorem run_current_farewell :
    (run {} (initial none none) ((farewell 109).flatMap Poll.events)).terms = [⟨[0x73], 10, 100⟩] ∧
      Current 109 (run {} (initial none none) ((farewell 109).flatMap Poll.events)) ∧
      (run {} (initial none none) ((farewell 110).flatMap Poll.events)).terms = [] :=
  ⟨by decide +kernel, (run_current (L := {}) none none _ {now := 109} (by decide)).1, by decide +kernel⟩

/-! ### Every delayed Will -/

/-- The step ends with the look at the delayed Wills. -/
def Poll.Whole (p : Poll) : Prop := ∃ t, p.turns.getLast? = some t ∧ t.1 = .pendingWills

theorem eraseP_turnover {n : Nat} {w : PendingWill} {clientId : Bytes} (hid : w.clientId ≠ clientId) (ws : List PendingWill) :
    Turnover L n (· ≠ w) ws (ws.eraseP (fun x => x.clientId = clientId)) := by
  refine ⟨fun x hx => .inl (List.mem_of_mem_eraseP hx), fun x hx => ?_⟩
  by_cases hxw : x = w
  · subst hxw
    exact .inl ((List.mem_eraseP_of_neg (by simpa using hid)).mpr hx)
  · exact .inr hxw

/-- What one event does to the delayed Wills: `w` stays, unless they are looked at when it is due. -/
theorem event_turnover (p : Poll) (t : Event × List Bool × List Int) {w : PendingWill}
    (hdue : t.1 = .pendingWills → p.now < w.publishTime)
    (hquiet : OnPacket L (fun _ _ packet => ¬packet.Claims w.clientId) b (p.answered t)) :
    Turnover L p.now (· ≠ w) b.pendingWills (step L b (p.answered t)).pendingWills := by
  have hadd : ∀ x ws, PendingWill.Delayed L p.now x → Turnover L p.now (· ≠ w) ws (x :: ws) := fun x ws hx =>
    ⟨fun y hy => (List.mem_cons.mp hy).elim (fun heq => .inr (heq ▸ hx)) .inl, fun y hy => .inl (List.mem_cons_of_mem _ hy)⟩
  have hcancel : OnPacket L (fun _ _ packet => ∀ id ws, packet.Claims id →
      Turnover L p.now (· ≠ w) ws (ws.eraseP (fun x => x.clientId = id))) b (p.answered t) := by
    intro x hx id ws hclaims
    exact eraseP_turnover (fun hid => hquiet x hx (hid ▸ hclaims)) ws
  obtain ⟨ev, answers⟩ := t
  cases ev with
  | sweep =>
    rw [show (step L b (p.answered (.sweep, answers))).pendingWills = _ from sweep_wills _ rfl rfl]
    exact refl _
  | pendingWills =>
    have hages := pendingWills_ages (L := L) (b := b) (p.answered (.pendingWills, answers)).2 rfl rfl
    rw [show (step L b (p.answered (.pendingWills, answers))).pendingWills = _ from hages.wills]
    refine ⟨fun x hx => .inl (List.mem_filter.mp hx).1, fun x hx => ?_⟩
    by_cases hxw : x = w
    · subst hxw
      exact .inl (List.mem_filter.mpr ⟨hx, decide_eq_true (hdue rfl)⟩)
    · exact .inr hxw
  | accept => exact (step_ages hadd (p.at_ _ _) (by rintro ⟨⟩) (by rintro ⟨⟩) hcancel).wills
  | process a rx => exact (step_ages hadd (p.at_ _ _) (by rintro ⟨⟩) (by rintro ⟨⟩) hcancel).wills

/-- A Will stays as long as the delayed Wills are not looked at when it is due, unless a CONNECT may be
under its client id. -/
theorem turns_keep (p : Poll) {w : PendingWill} (turns : List (Event × List Bool × List Int))
    (hdue : ∀ t ∈ turns, t.1 = .pendingWills → p.now < w.publishTime) (hw : w ∈ b.pendingWills)
    (hquiet : Along (step L) (OnPacket L fun _ _ packet => ¬packet.Claims w.clientId) b (turns.map p.answered)) :
    w ∈ (run L b (turns.map p.answered)).pendingWills := by
  induction turns generalizing b with
  | nil => exact hw
  | cons t rest ih =>
    obtain ⟨hquiet, hrest⟩ := hquiet
    refine ih (fun t ht => hdue t (List.mem_cons_of_mem _ ht)) ?_ hrest
    exact ((event_turnover p t (hdue t List.mem_cons_self) hquiet).kept w hw).resolve_right fun hne => hne rfl

/-- After a whole step no delayed Will is due. -/
theorem poll_due (p : Poll) (hwhole : p.Whole) : ∀ w ∈ (run L b p.events).pendingWills, p.now < w.publishTime := by
  obtain ⟨⟨ev, answers⟩, hlast, hev⟩ := hwhole
  obtain ⟨init, hturns⟩ := List.getLast?_eq_some_iff.mp hlast
  dsimp only at hev
  subst hev
  have hevents : p.events = ((.sweep, {now := p.now}) :: init.map p.answered) ++ [p.answered (.pendingWills, answers)] := by
    rw [Poll.events, hturns, List.map_append]
    rfl
  rw [hevents, run_append]
  generalize run L b ((.sweep, {now := p.now}) :: init.map p.answered) = b₁
  have hages := pendingWills_ages (L := L) (b := b₁) (p.answered (.pendingWills, answers)).2 rfl rfl
  intro w hw
  rw [show (run L b₁ [p.answered (.pendingWills, answers)]).pendingWills = _ from hages.wills] at hw
  exact of_decide_eq_true (List.mem_filter.mp hw).2

/-- So it does from the sweep on. -/
theorem swept_keep (p : Poll) {w : PendingWill} (turns : List (Event × List Bool × List Int))
    (hdue : ∀ t ∈ turns, t.1 = .pendingWills → p.now < w.publishTime) (hw : w ∈ b.pendingWills)
    (hquiet : Along (step L) (OnPacket L fun _ _ packet => ¬packet.Claims w.clientId) b
      ((.sweep, {now := p.now}) :: turns.map p.answered)) :
    w ∈ (run L b ((.sweep, {now := p.now}) :: turns.map p.answered)).pendingWills := by
  refine turns_keep p turns hdue (b := step L b (.sweep, {now := p.now})) ?_ hquiet.2
  rw [sweep_wills _ rfl rfl]
  exact hw

/-- No step before its time takes a Will off the list. -/
theorem polls_keep {w : PendingWill} (polls : List Poll) (hdue : ∀ p ∈ polls, p.now < w.publishTime) (hw : w ∈ b.pendingWills)
    (hquiet : Along (step L) (OnPacket L fun _ _ packet => ¬packet.Claims w.clientId) b (polls.flatMap Poll.events)) :
    w ∈ (run L b (polls.flatMap Poll.events)).pendingWills := by
  induction polls generalizing b with
  | nil => exact hw
  | cons p rest ih =>
    rw [List.flatMap_cons] at hquiet ⊢
    obtain ⟨hnow, hrest⟩ := Along.append.mp hquiet
    rw [run_append]
    exact ih (fun x hx => hdue x (List.mem_cons_of_mem _ hx))
      (swept_keep p p.turns (fun _ _ _ => hdue p List.mem_cons_self) hw hnow) hrest

/-- The first look at the delayed Wills. -/
theorem first_look (turns : List (Event × List Bool × List Int)) (h : ∃ t ∈ turns, t.1 = .pendingWills) :
    ∃ init answers rest, turns = init ++ (.pendingWills, answers) :: rest ∧ ∀ t ∈ init, t.1 ≠ .pendingWills := by
  induction turns with
  | nil => exact absurd h.choose_spec.1 List.not_mem_nil
  | cons t turns ih =>
    by_cases ht : t.1 = .pendingWills
    · exact ⟨[], t.2, turns, by rw [List.nil_append, ← ht], fun _ h => absurd h List.not_mem_nil⟩
    · obtain ⟨x, hx, hlook⟩ := h
      obtain ⟨init, answers, rest, rfl, hinit⟩ :=
        ih ⟨x, (List.mem_cons.mp hx).resolve_left fun heq => ht (heq ▸ hlook), hlook⟩
      exact ⟨t :: init, answers, rest, rfl, List.forall_mem_cons.mpr ⟨ht, hinit⟩⟩

/-- A CONNECT with a Will that waits for five seconds. -/
def delayingConnect : InConnect :=
  {departingConnect with will := some {topicName := [0x74], payload := [0x77], qos := .qos1, retain := false,
                                       props := [{type := .willDelayInterval, dataInt := 5}]}}

def watchingConnect : InConnect := {protocolLevel := 4, cleanSession := true, clientId := [0x72]}

/-- Its connection breaks at second 10, and a subscriber to its topic stays. -/
def breakdown : Poll where
  now := 10
  turns := [(.accept, [], []), (.process 1 (.packet true (.connect (.ok watchingConnect))), [], []),
            (.process 1 (.packet true (.subscribe (.ok {packetId := 1, topics := [{filter := [0x74], qos := .qos1}]}))), [], []),
            (.accept, [], []), (.process 4 (.packet true (.connect (.ok delayingConnect))), [], []),
            (.process 4 .failed, [], []), (.pendingWills, [], [])]

/-- The Will it leaves. -/
def delayedWill : PendingWill where
  clientId := [0x73]
  topic := [0x74]
  payload := [0x77]
  qos := .qos1
  retain := false
  publishTime := 15

instance (clientId : Bytes) : DecidablePred (InPacket.Claims clientId)
  | .connect (.ok mc) => inferInstanceAs (Decidable (mc.clientId = clientId ∨ mc.clientId = []))
  | .connect (.error _) | .publish _ | .publishAck _ | .publishRec _ | .publishRel _ | .publishComp _ | .subscribe _
  | .unsubscribe _ | .pingReq _ | .disconnect _ _ | .unhandled => .isFalse id

/-- A step with nothing but a look at the delayed Wills. -/
def idleAt (now : Nat) : Poll := {now, turns := [(.pendingWills, [], [])]}

end polls

end WolfMqtt.Broker
