import WolfMqtt.Broker.Handle

/-! The checks of a CONNECT.

They write to nothing but the connection that sent it: its client id, its credentials
and its parameters. If they pass, these are what the CONNECT asked for; if they do not,
the return code is a refusal. -/
namespace WolfMqtt.Broker

/-! ### Writing to one connection -/

/-- The broker with this record at `a`, this environment, and this counter of assigned ids. -/
def MqttBroker.withClient (b : MqttBroker) (a : Nat) (s : Conn) (n : Nat) : MqttBroker :=
  {b.updateClient a (fun _ => s.c) with nextAutoId := n, env := s.env}

section one
variable {b : MqttBroker} {a n : Nat} {c : BrokerClient} {s : Conn}

theorem withClient_client? (hc : b.client? a = some c) (hs : s.c.addr = a) :
    (b.withClient a s n).client? a = some s.c := Chain.at?_writeAt_self hc hs

theorem withClient_withClient (hs : s.c.addr = a) (t : Conn) (m : Nat) :
    {(b.withClient a s n).updateClient a (fun _ => t.c) with nextAutoId := m, env := t.env} = b.withClient a t m := by
  simp only [MqttBroker.withClient, MqttBroker.updateClient, Chain.writeAt_writeAt (f := fun _ => s.c) fun _ _ => hs]
  rfl

theorem withClient_updateClient (hs : s.c.addr = a) (f : BrokerClient → BrokerClient) :
    (b.withClient a s n).updateClient a f = b.withClient a ⟨f s.c, s.env⟩ n := by
  simp only [MqttBroker.withClient, MqttBroker.updateClient, Chain.writeAt_writeAt (f := fun _ => s.c) fun _ _ => hs]
  rfl

theorem onClient_withClient {α : Type} (hc : b.client? a = some c) (hs : s.c.addr = a) (default : α) (m : ClientM α) :
    onClient a default m (b.withClient a s n) = ((m s).1, b.withClient a (m s).2 n) := by
  rw [onClient_some (withClient_client? hc hs)]
  refine Prod.ext rfl ?_
  exact withClient_withClient hs (m s).2 n

theorem withClient_client?_ne (hs : s.c.addr = a) {x : Nat} (hx : x ≠ a) :
    (b.withClient a s n).client? x = b.client? x := Chain.at?_writeAt_ne (fun _ _ => hs) hx

end one

/-! ### What the checks write -/

/-- The connection without what the checks of a CONNECT write. -/
def BrokerClient.bare (c : BrokerClient) : BrokerClient :=
  {c with clientId := none, username := none, password := none, protocolLevel := 0, keepAliveSec := 0, lastRx := 0,
          cleanSession := false, clientReceiveMax := 0, sessionExpirySec := 0}

/-- `s'` is `s` after checks. -/
structure Checks (s s' : Conn) : Prop where
  bare : s'.c.bare = s.c.bare
  trace : s'.env.trace = s.env.trace
  nextAddr : s.env.nextAddr ≤ s'.env.nextAddr
  spends : s.env.Spends s'.env

instance : IsPreorder Conn Checks where
  refl s := ⟨rfl, rfl, Nat.le_refl _, refl s.env⟩
  trans _ _ _ h h' := ⟨h'.bare.trans h.bare, h'.trace.trans h.trace, Nat.le_trans h.nextAddr h'.nextAddr,
    trans_of Env.Spends h.spends h'.spends⟩

theorem Checks.get {s s' : Conn} (h : Checks s s') {γ : Type} (f : BrokerClient → γ) (hf : ∀ c, f c.bare = f c) :
    f s'.c = f s.c := (hf s'.c).symm.trans ((congrArg f h.bare).trans (hf s.c))

theorem Checks.addr {s s' : Conn} (h : Checks s s') : s'.c.addr = s.c.addr := h.get (·.addr) fun _ => rfl

theorem Checks.of_modify {s : Conn} {f : BrokerClient → BrokerClient} (hf : (f s.c).bare = s.c.bare) :
    Checks s (modifyClient f s).2 := ⟨hf, rfl, Nat.le_refl _, refl s.env⟩

/-- An allocation leaves the connection alone. -/
theorem allocFor_c (s : Conn) : (allocFor s).2.c = s.c := rfl

theorem allocFor_checks : Moves Checks allocFor := fun s =>
  ⟨rfl, (alloc_env s.env).1, (alloc_env s.env).2, .alloc s.env⟩

theorem storeString_eq (str : Bytes) (s : Conn) :
    storeString str s = (if (allocFor s).1 then some str else none, (allocFor s).2) := by
  show (if (allocFor s).1 then _ else _ : ClientM (Option Bytes)) (allocFor s).2 = _
  split <;> rfl

theorem storeString_checks (str : Bytes) : Moves Checks (storeString str) := by
  intro s
  rw [storeString_eq]
  exact allocFor_checks s

theorem storeString_c (str : Bytes) (s : Conn) : (storeString str s).2.c = s.c := by
  rw [storeString_eq]
  rfl

theorem refusalCode_ne {mc : InConnect} {v5 v3 : UInt8} (h5 : v5 ≠ 0) (h3 : v3 ≠ 0) : refusalCode mc v5 v3 ≠ 0 := by
  unfold refusalCode
  split
  · exact h5
  · exact h3

/-! ### One check at a time -/

section spec
variable (mc : InConnect) (s : Conn)

/-- A return code that refuses. -/
def Refuses (r : Option UInt8) : Prop := ∀ code, r = some code → code ≠ 0

/-- The result of a check: what it leaves of the connection if it passes. -/
structure Checked (s : Conn) (Passed : BrokerClient → Prop) (r : Option UInt8 × Conn) : Prop where
  checks : Checks s r.2
  refuses : Refuses r.1
  passed : r.1 = none → Passed r.2.c

theorem Checked.refused {s t : Conn} {Passed : BrokerClient → Prop} {code : UInt8} (h : Checks s t) (hcode : code ≠ 0) :
    Checked s Passed (some code, t) := by
  refine ⟨h, ?_, by rintro ⟨⟩⟩
  rintro _ ⟨⟩
  exact hcode

theorem Checked.pass {s t : Conn} {Passed : BrokerClient → Prop} (h : Checks s t) (hp : Passed t.c) :
    Checked s Passed (none, t) := ⟨h, by rintro _ ⟨⟩, fun _ => hp⟩

theorem checkClientId_spec :
    Checked s (fun c => (mc.protocolLevel = level4 ∨ mc.protocolLevel = level5) ∧
      c = {s.c with clientId := if mc.clientId.isEmpty then s.c.clientId else some mc.clientId}) (checkClientId mc s) := by
  unfold checkClientId
  by_cases hlevel : mc.protocolLevel ≠ level4 ∧ mc.protocolLevel ≠ level5
  · rw [if_pos hlevel]
    exact .refused (refl s) (by decide)
  rw [if_neg hlevel]
  have hlevel' : mc.protocolLevel = level4 ∨ mc.protocolLevel = level5 := by
    by_cases h4 : mc.protocolLevel = level4
    · exact .inl h4
    · exact .inr (not_not.mp fun h5 => hlevel ⟨h4, h5⟩)
  by_cases hempty : mc.clientId.isEmpty = true
  · simp only [hempty, if_true]
    split
    · exact .refused (refl s) (by decide)
    · exact .pass (refl s) ⟨hlevel', rfl⟩
  simp only [hempty]
  have hchecks : Checks s ⟨{s.c with clientId := (storeString mc.clientId s).1}, (storeString mc.clientId s).2.env⟩ := by
    have h := storeString_checks mc.clientId s
    exact ⟨rfl, h.trace, h.nextAddr, h.spends⟩
  show Checked s _ ((if (storeString mc.clientId s).1.isNone then _ else _ : ClientM (Option UInt8))
    ⟨{(storeString mc.clientId s).2.c with clientId := (storeString mc.clientId s).1}, (storeString mc.clientId s).2.env⟩)
  rw [storeString_c]
  cases hstored : (storeString mc.clientId s).1 with
  | none =>
    rw [hstored] at hchecks
    exact .refused hchecks (refusalCode_ne (by decide) (by decide))
  | some str =>
    have hstr : str = mc.clientId := by
      rw [storeString_eq] at hstored
      dsimp only at hstored
      split at hstored
      · exact (Option.some.inj hstored).symm
      · cases hstored
    subst hstr
    rw [hstored] at hchecks
    simp only [Option.isNone_some, Bool.false_eq_true, if_false]
    split
    · exact .refused hchecks (refusalCode_ne (by decide) (by decide))
    · exact .pass hchecks ⟨hlevel', rfl⟩

theorem checkParams_spec :
    Checked s (fun c => ∃ now, c =
      {s.c with protocolLevel := mc.protocolLevel, keepAliveSec := mc.keepAliveSec, lastRx := now,
                clientReceiveMax := (receiveMaxProp mc).getD s.c.clientReceiveMax,
                sessionExpirySec := (expiryProp mc).getD (defaultExpiry mc)}) (checkParams mc s) := by
  obtain ⟨ht, hn⟩ := getTime_env s.env
  let c₁ : BrokerClient := {s.c with protocolLevel := mc.protocolLevel, keepAliveSec := mc.keepAliveSec,
                                     lastRx := s.env.getTime.1, sessionExpirySec := defaultExpiry mc}
  let s₁ : Conn := ⟨c₁, s.env.getTime.2⟩
  have hset : Checks s s₁ := ⟨rfl, ht, Nat.le_of_eq hn.symm, .getTime s.env⟩
  show Checked s _ ((if receiveMaxProp mc = some 0 then _ else _ : ClientM (Option UInt8)) s₁)
  split
  · exact .refused hset (by decide)
  split
  · exact .refused hset (by decide)
  · refine .pass ?_ ⟨s.env.getTime.1, rfl⟩
    exact ⟨rfl, hset.trace, hset.nextAddr, hset.spends⟩

theorem storeCredential_checks (given old : Option Bytes) : Moves Checks (storeCredential given old) := by
  unfold storeCredential
  split
  · exact .pure _
  · exact storeString_checks _

theorem storeCredential_c (given old : Option Bytes) : (storeCredential given old s).2.c = s.c := by
  unfold storeCredential
  split
  · rfl
  · exact storeString_c _ s

theorem checkCredentials_spec (L : Limits) (authUser authPass : Option Bytes) :
    Checked s (fun c => ∃ username password, c =
      {s.c with cleanSession := mc.cleanSession, username := username, password := password})
      (checkCredentials L authUser authPass mc s) := by
  let r₁ := storeCredential mc.username s.c.username s
  let r₂ := storeCredential mc.password (s.c.password.map (fun _ => [])) r₁.2
  let s₃ := (modifyClient (fun c => {c with cleanSession := mc.cleanSession, username := r₁.1, password := r₂.1}) r₂.2).2
  have h₁ : Checks s r₁.2 := storeCredential_checks _ _ s
  have h₂ : Checks r₁.2 r₂.2 := storeCredential_checks _ _ r₁.2
  have h₃ : Checks s s₃ := trans_of Checks (trans_of Checks h₁ h₂) (.of_modify rfl)
  have hc : s₃.c = {s.c with cleanSession := mc.cleanSession, username := r₁.1, password := r₂.1} := by
    have hc₂ : r₂.2.c = s.c := (storeCredential_c r₁.2 _ _).trans (storeCredential_c s _ _)
    show {r₂.2.c with cleanSession := mc.cleanSession, username := r₁.1, password := r₂.1} = _
    rw [hc₂]
  show Checked s _ ((if credentialsOk L authUser authPass r₁.1 r₂.1 then _ else _ : ClientM (Option UInt8)) s₃)
  split
  · exact .pass h₃ ⟨r₁.1, r₂.1, hc⟩
  · exact .refused h₃ (refusalCode_ne (by decide) (by decide))

theorem willRefusal_refuses (L : Limits) : Refuses (willRefusal L mc) := by
  intro code h
  unfold willRefusal at h
  cases hw : mc.will with
  | none =>
    rw [hw] at h
    cases h
  | some w =>
    rw [hw] at h
    dsimp only at h
    split at h
    · cases h
      exact refusalCode_ne (by decide) (by decide)
    · cases h

end spec

/-! ### All of them -/

/-- The client id a CONNECT is handled under: its own, or else one the broker assigns. -/
def connectId (c : BrokerClient) (n : Nat) (mc : InConnect) : Bytes :=
  if mc.clientId.isEmpty then c.clientId.getD (autoId n) else mc.clientId

/-- A connection whose CONNECT passed the checks under the client id `id`. -/
structure Passed (mc : InConnect) (id : Bytes) (c : BrokerClient) : Prop where
  level : mc.protocolLevel = level4 ∨ mc.protocolLevel = level5
  clientId : c.clientId = some id
  protocolLevel : c.protocolLevel = mc.protocolLevel
  expiry : c.sessionExpirySec = (expiryProp mc).getD (defaultExpiry mc)
  cleanSession : c.cleanSession = mc.cleanSession

/-- The result of checks that involve the broker. -/
structure ChecksDone (b : MqttBroker) (a : Nat) (s : Conn) (Q : BrokerClient → Prop) (r : Except UInt8 Bool × MqttBroker) :
    Prop where
  state : ∃ t m, r.2 = b.withClient a t m ∧ Checks s t ∧ ∀ auto, r.1 = .ok auto → Q t.c
  refuses : ∀ code, r.1 = .error code → code ≠ 0

section all
variable {b : MqttBroker} {a n m : Nat} {c : BrokerClient} {s t : Conn} {Q : BrokerClient → Prop}

theorem ChecksDone.refused {code : UInt8} (h : Checks s t) (hcode : code ≠ 0) :
    ChecksDone b a s Q (.error code, b.withClient a t m) := by
  refine ⟨⟨t, m, rfl, h, by rintro _ ⟨⟩⟩, ?_⟩
  rintro _ ⟨⟩
  exact hcode

theorem ChecksDone.pass {auto : Bool} (h : Checks s t) (hQ : Q t.c) :
    ChecksDone b a s Q (.ok auto, b.withClient a t m) :=
  ⟨⟨t, m, rfl, h, fun _ _ => hQ⟩, by rintro _ ⟨⟩⟩

theorem assignClientId_some {id : Bytes} (hc : b.client? a = some c) (hid : c.clientId = some id) (mc : InConnect) :
    assignClientId a mc b = (.ok false, b) := by
  simp only [assignClientId, run_bind, run_get, hc, Option.bind_some, hid, run_pure]

theorem assignClientId_none (hc : b.client? a = some c) (hid : c.clientId = none) (mc : InConnect) :
    assignClientId a mc b =
      if mc.clientId.isEmpty then
        (if (allocFor ⟨c, b.env⟩).1 then .ok true
         else .error (refusalCode mc Reason.serverUnavailable ackCodeRefusedUnavail),
          b.withClient a ⟨{c with clientId := if (allocFor ⟨c, b.env⟩).1 then some (autoId b.nextAutoId) else none},
            (allocFor ⟨c, b.env⟩).2.env⟩ (succAutoId b.nextAutoId))
      else (.ok false, b) := by
  have haddr : c.addr = a := Chain.at?_addr hc
  have hc' : MqttBroker.client? {b with nextAutoId := succAutoId b.nextAutoId} a = some c := hc
  simp only [assignClientId, run_bind, run_get, hc, Option.bind_some, hid, run_ite, run_modify, run_pure,
    onClient_some hc', storeString_eq, allocFor_c]
  split
  · split
    · simp only [Option.isNone_some, Bool.false_eq_true, if_false, MqttBroker.updateClient, MqttBroker.withClient,
        Chain.writeAt_writeAt (f := fun _ => c) fun _ _ => haddr]
      rfl
    · simp only [Option.isNone_none, if_true, MqttBroker.updateClient, MqttBroker.withClient,
        Chain.writeAt_writeAt (f := fun _ => c) fun _ _ => haddr]
      rfl
  · rfl

theorem assignClientId_spec (hc : b.client? a = some c) (hs : s.c.addr = a) (mc : InConnect) :
    ChecksDone b a s (fun c' => ∃ id, c' = {s.c with clientId := id} ∧
      id = if mc.clientId.isEmpty then some (s.c.clientId.getD (autoId n)) else s.c.clientId)
      (assignClientId a mc (b.withClient a s n)) := by
  have hat := withClient_client? (n := n) hc hs
  rcases Option.eq_none_or_eq_some s.c.clientId with hid | ⟨id, hid⟩
  · rw [assignClientId_none hat hid]
    have halloc := allocFor_checks s
    split
    · have hstate : ∀ id, (b.withClient a s n).withClient a ⟨{s.c with clientId := id}, (allocFor s).2.env⟩ (succAutoId n) =
          b.withClient a ⟨{s.c with clientId := id}, (allocFor s).2.env⟩ (succAutoId n) := fun id =>
        withClient_withClient hs ⟨{s.c with clientId := id}, (allocFor s).2.env⟩ _
      have hchecks : ∀ id, Checks s ⟨{s.c with clientId := id}, (allocFor s).2.env⟩ := fun id =>
        ⟨rfl, halloc.trace, halloc.nextAddr, halloc.spends⟩
      show ChecksDone b a s _ (if (allocFor s).1 then .ok true else .error _,
        (b.withClient a s n).withClient a ⟨{s.c with clientId := if (allocFor s).1 then some (autoId n) else none},
          (allocFor s).2.env⟩ (succAutoId n))
      rw [hstate]
      split
      · exact .pass (hchecks _) ⟨some (autoId n), rfl, by rw [hid]; rfl⟩
      · exact .refused (hchecks _) (refusalCode_ne (by decide) (by decide))
    · exact .pass (refl s) ⟨s.c.clientId, rfl, rfl⟩
  · rw [assignClientId_some hat hid]
    refine .pass (refl s) ⟨s.c.clientId, rfl, ?_⟩
    split
    · rw [hid, Option.getD_some]
    · rfl

/-- The checks write to the connection alone, and leave it as the CONNECT asked. -/
theorem connectChecks_done (hc : b.client? a = some c) (L : Limits) (mc : InConnect) :
    ChecksDone b a ⟨c, b.env⟩ (fun c' => Passed mc (connectId c b.nextAutoId mc) c' ∧ c'.keepAliveSec = mc.keepAliveSec)
      (connectChecks L a mc b) := by
  have haddr : c.addr = a := Chain.at?_addr hc
  -- the connection's state after each check, as long as they pass
  let s₀ : Conn := ⟨c, b.env⟩
  let s₁ := (checkClientId mc s₀).2
  let s₂ := (checkParams mc s₁).2
  obtain ⟨h₁, hr₁, hp₁⟩ := checkClientId_spec mc s₀
  obtain ⟨h₂, hr₂, hp₂⟩ := checkParams_spec mc s₁
  have ha₁ : s₁.c.addr = a := h₁.addr.trans haddr
  have ha₂ : s₂.c.addr = a := h₂.addr.trans ha₁
  have h₀₂ : Checks s₀ s₂ := trans_of Checks h₁ h₂
  obtain ⟨⟨s₃, n₃, hb₃, h₃, hp₃⟩, hr₃⟩ := assignClientId_spec (n := b.nextAutoId) hc ha₂ mc
  have ha₃ : s₃.c.addr = a := h₃.addr.trans ha₂
  have h₀₃ : Checks s₀ s₃ := trans_of Checks h₀₂ h₃
  obtain ⟨h₄, hr₄, hp₄⟩ := checkCredentials_spec mc s₃ L b.authUser b.authPass
  have h₀₄ := trans_of Checks h₀₃ h₄
  have e₁ : onClient a none (checkClientId mc) b = ((checkClientId mc s₀).1, b.withClient a s₁ b.nextAutoId) := by
    rw [onClient_some hc]
    rfl
  have e₂ := onClient_withClient (n := b.nextAutoId) hc ha₁ none (checkParams mc)
  have e₄ := onClient_withClient (n := n₃) hc ha₃ none (checkCredentials L b.authUser b.authPass mc)
  unfold connectChecks
  rw [run_bind, e₁]
  cases hres₁ : (checkClientId mc s₀).1 with
  | some code => exact .refused h₁ (hr₁ code hres₁)
  | none =>
    dsimp only
    rw [run_bind, e₂]
    cases hres₂ : (checkParams mc s₁).1 with
    | some code => exact .refused h₀₂ (hr₂ code hres₂)
    | none =>
      dsimp only
      rw [run_bind, hb₃]
      cases hres₃ : (assignClientId a mc (b.withClient a s₂ b.nextAutoId)).1 with
      | error code => exact .refused h₀₃ (hr₃ code hres₃)
      | ok auto =>
        dsimp only
        rw [run_bind, run_get, run_bind]
        dsimp only
        rw [show (b.withClient a s₃ n₃).authUser = b.authUser from rfl, show (b.withClient a s₃ n₃).authPass = b.authPass from rfl, e₄]
        cases hres₄ : (checkCredentials L b.authUser b.authPass mc s₃).1 with
        | some code => exact .refused h₀₄ (hr₄ code hres₄)
        | none =>
          dsimp only
          cases hres₅ : willRefusal L mc with
          | some code => exact .refused h₀₄ (willRefusal_refuses mc L code hres₅)
          | none =>
            obtain ⟨hlevel, hc₁⟩ := hp₁ hres₁
            obtain ⟨now, hc₂⟩ := hp₂ hres₂
            obtain ⟨id, hc₃, hid⟩ := hp₃ auto hres₃
            obtain ⟨username, password, hc₄⟩ := hp₄ hres₄
            refine .pass h₀₄ ?_
            rw [hc₄, hc₃]
            refine ⟨⟨hlevel, ?_, ?_, ?_, rfl⟩, ?_⟩
            · show id = _
              rw [hid]
              show (if mc.clientId.isEmpty then some ((s₂.c.clientId).getD (autoId b.nextAutoId)) else s₂.c.clientId) = _
              rw [hc₂]
              show (if mc.clientId.isEmpty then some ((s₁.c.clientId).getD (autoId b.nextAutoId)) else s₁.c.clientId) = _
              rw [hc₁]
              unfold connectId
              split <;> rfl
            · show s₂.c.protocolLevel = _
              rw [hc₂]
            · show s₂.c.sessionExpirySec = _
              rw [hc₂]
            · show s₂.c.keepAliveSec = _
              rw [hc₂]

theorem connectChecks_spec (hc : b.client? a = some c) (L : Limits) (mc : InConnect) :
    ChecksDone b a ⟨c, b.env⟩ (Passed mc (connectId c b.nextAutoId mc)) (connectChecks L a mc b) := by
  obtain ⟨⟨t, m, hb, hchecks, hpassed⟩, hrefuses⟩ := connectChecks_done hc L mc
  exact ⟨⟨t, m, hb, hchecks, fun auto hok => (hpassed auto hok).1⟩, hrefuses⟩

end all

end WolfMqtt.Broker
