import WolfMqtt.Broker.TableReach

/-! Connections without a session.

Until its CONNECT is accepted a connection is a stranger to the broker: whatever it sends,
however its writes and the broker's allocations go, and whenever it leaves, nothing changes
but its own record. -/
namespace WolfMqtt.Broker

/-! ### One connection's record -/

/-- The broker but for the connection at `a`, the answers of the outside world with what was seen of
it, and the counter of assigned client ids. -/
def MqttBroker.besides (b : MqttBroker) (a : Nat) : MqttBroker :=
  {b with clients := Chain.removeAt a b.clients, nextAutoId := 0, env := {persist := b.env.persist}}

/-- `b'` is `b` but for the connection at `a`. -/
def Apart (a : Nat) : MqttBroker → MqttBroker → Prop := InvImage Eq (·.besides a)

instance (a : Nat) : IsPreorder MqttBroker (Apart a) := inferInstanceAs (IsPreorder MqttBroker (InvImage Eq _))

/-- Nothing is stored. -/
def Unstored : Conn → Conn → Prop := InvImage Eq (fun s => (s.c.addr, s.env.persist))

instance : IsPreorder Conn Unstored := inferInstanceAs (IsPreorder Conn (InvImage Eq _))

section writes
variable {L : Limits} {a : Nat}

theorem Writes.unstored {s s' : Conn} (h : Writes s s') : Unstored s s' := by
  have hquiet : s.quiet = s'.quiet := h
  show (s.quiet.c.addr, s.quiet.env.persist) = (s'.quiet.c.addr, s'.quiet.env.persist)
  rw [hquiet]

theorem modifyClient_unstored {f : BrokerClient → BrokerClient} (hf : ∀ c, (f c).addr = c.addr) :
    Moves Unstored (modifyClient f) := fun s => congrArg (·, s.env.persist) (hf s.c).symm

theorem alloc_persist (env : Env) : env.alloc.2.persist = env.persist := by
  unfold Env.alloc
  split
  · rfl
  · split <;> rfl

theorem getTime_persist (env : Env) : env.getTime.2.persist = env.persist := by
  unfold Env.getTime
  split <;> rfl

theorem allocFor_unstored : Moves Unstored allocFor := fun s => congrArg (s.c.addr, ·) (alloc_persist s.env).symm

theorem storeString_unstored (str : Bytes) : Moves Unstored (storeString str) :=
  .bind allocFor_unstored fun _ => .ite (fun _ => .pure _) (fun _ => .pure _)

theorem sendConnAck_unstored (ack : ConnectAck) : Moves Unstored (sendConnAck L ack) := by
  have hencode : Moves Unstored (encodeInto (encodeConnectAck L.txBufSz ack)) :=
    Moves.mono (fun _ _ h => h.unstored) (encodeInto_writes _)
  have hwrite : ∀ len, Moves Unstored (packetWrite L len) := fun len =>
    Moves.mono (fun _ _ h => h.unstored) (packetWrite_writes L len)
  refine .bind hencode fun rc => .ite (fun _ => .bind (fun _ => rfl) fun _ => .bind (hwrite _) fun wrRc => ?_) (fun _ => .pure _)
  exact .bind (.ite (fun _ => modifyClient_unstored fun _ => rfl) (fun _ => .pure _)) fun _ => .pure _

theorem updateClient_apart {b : MqttBroker} {f : BrokerClient → BrokerClient}
    (hf : ∀ c, b.client? a = some c → (f c).addr = c.addr) : Apart a b (b.updateClient a f) := by
  have hclients : Chain.removeAt a (Chain.writeAt a f b.clients) = Chain.removeAt a b.clients :=
    Chain.removeAt_writeAt fun c hc => (hf c hc).trans (Chain.at?_addr (x := c) hc)
  show b.besides a = {b with clients := Chain.removeAt a (Chain.writeAt a f b.clients), nextAutoId := 0, env := _}
  rw [hclients]
  rfl

theorem env_apart {b : MqttBroker} {env : Env} (h : env.persist = b.env.persist) : Apart a b {b with env := env} := by
  show b.besides a = {b with clients := Chain.removeAt a b.clients, nextAutoId := 0, env := {persist := env.persist}}
  rw [h]
  rfl

theorem getTime_apart : Moves (Apart a) getTime := fun b => env_apart (getTime_persist b.env)

theorem onClient_apart {α : Type} (default : α) {m : ClientM α} (hm : Moves Unstored m) : Moves (Apart a) (onClient a default m) := by
  intro b
  cases hc : b.client? a with
  | none =>
    rw [onClient_none hc]
    exact refl b
  | some c =>
    have hsame : (c.addr, b.env.persist) = _ := hm ⟨c, b.env⟩
    obtain ⟨haddr, hpersist⟩ := Prod.mk.inj hsame
    rw [onClient_some hc]
    have hupdate : Apart a b (b.updateClient a (fun _ => (m ⟨c, b.env⟩).2.c)) := updateClient_apart fun x hx => by
      obtain rfl := Option.some.inj (hc.symm.trans hx)
      exact haddr.symm
    exact trans_of (Apart a) hupdate (env_apart hpersist.symm)

/-! ### A CONNECT that is refused -/

theorem checkClientId_unstored (mc : InConnect) : Moves Unstored (checkClientId mc) := by
  refine .ite (fun _ => .pure _) fun _ => .ite (fun _ => .ite (fun _ => .pure _) (fun _ => .pure _)) fun _ => ?_
  refine .bind (storeString_unstored _) fun _ => .bind (modifyClient_unstored fun _ => rfl) fun _ => ?_
  exact .ite (fun _ => .pure _) fun _ => .ite (fun _ => .pure _) (fun _ => .pure _)

theorem checkParams_unstored (mc : InConnect) : Moves Unstored (checkParams mc) := by
  intro s
  have hset : Unstored s ⟨{s.c with protocolLevel := mc.protocolLevel, keepAliveSec := mc.keepAliveSec,
                                    lastRx := s.env.getTime.1, sessionExpirySec := defaultExpiry mc}, s.env.getTime.2⟩ :=
    congrArg (s.c.addr, ·) (getTime_persist s.env).symm
  refine trans_of Unstored hset ?_
  refine Moves.ite (R := Unstored) (fun _ => .pure _) (fun _ => .ite (fun _ => .pure _) fun _ => ?_) _
  exact .bind (modifyClient_unstored fun _ => rfl) fun _ => .pure _

theorem checkCredentials_unstored (authUser authPass : Option Bytes) (mc : InConnect) :
    Moves Unstored (checkCredentials L authUser authPass mc) := by
  have hstore : ∀ given old, Moves Unstored (storeCredential given old) := by
    intro given old
    cases given with
    | none => exact .pure _
    | some str => exact storeString_unstored str
  refine .bind (fun _ => rfl) fun _ => .bind (hstore _ _) fun _ => .bind (hstore _ _) fun _ => ?_
  exact .bind (modifyClient_unstored fun _ => rfl) fun _ => .ite (fun _ => .pure _) (fun _ => .pure _)

theorem assignClientId_apart (mc : InConnect) : Moves (Apart a) (assignClientId a mc) := by
  refine .bind (fun b => refl b) fun b => ?_
  cases (b.client? a).bind (·.clientId) with
  | some _ => exact .pure _
  | none =>
    refine .ite (fun _ => ?_) (fun _ => .pure _)
    refine .bind (fun b => refl b) fun b => .bind (fun _ => rfl) fun _ => .bind (onClient_apart none (storeString_unstored _)) fun _ => ?_
    exact .bind (fun _ => updateClient_apart fun _ _ => rfl) fun _ => .ite (fun _ => .pure _) (fun _ => .pure _)

theorem connectChecks_apart (mc : InConnect) : Moves (Apart a) (connectChecks L a mc) := by
  refine .bind (onClient_apart none (checkClientId_unstored mc)) fun code => ?_
  cases code with
  | some _ => exact .pure _
  | none =>
  refine .bind (onClient_apart none (checkParams_unstored mc)) fun code => ?_
  cases code with
  | some _ => exact .pure _
  | none =>
  refine .bind (assignClientId_apart mc) fun assigned => ?_
  cases assigned with
  | error _ => exact .pure _
  | ok auto =>
  refine .bind (fun b => refl b) fun b => .bind (onClient_apart none (checkCredentials_unstored _ _ mc)) fun code => ?_
  cases code with
  | some _ => exact .pure _
  | none =>
  cases willRefusal L mc with
  | some _ => exact .pure _
  | none => exact .pure _

end writes

section strangers
variable {L : Limits} {X Y : Nat → Prop} {b b' : MqttBroker} {a : Nat}

/-! ### Leaving -/

/-- The connection at `a`, if there is one, has no session. -/
def Stranger (b : MqttBroker) (a : Nat) : Prop := ∀ c, b.client? a = some c → c.sessionEstablished = false

instance (b : MqttBroker) (a : Nat) : Decidable (Stranger b a) :=
  inferInstanceAs (Decidable (∀ c ∈ b.client? a, c.sessionEstablished = false))

theorem clientRemove_apart (hb : Phase L X b) (cause : Cause) : Apart a b (clientRemove a cause b).2 := by
  cases hc : b.client? a with
  | none =>
    rw [clientRemove_none hc]
    exact refl b
  | some c =>
    have hgone : Chain.removeAt a (Chain.removeAt a b.clients) = Chain.removeAt a b.clients :=
      Chain.removeAt_none (List.find?_eq_none.mpr fun x hx heq => ((Chain.mem_removeAt hb.nodup).mp hx).2 (of_decide_eq_true heq))
    rw [clientRemove_some hc]
    show b.besides a = {b with clients := Chain.removeAt a (Chain.removeAt a b.clients), nextAutoId := 0, env := _}
    rw [hgone]
    rfl

/-- A connection without a session has no subscription to lose, and nothing stored. -/
theorem subsRemoveClient_apart (hb : Phase L X b) (hnew : Stranger b a) : Apart a b (subsRemoveClient a b).2 := by
  cases hc : b.client? a with
  | none =>
    rw [subsRemoveClient_none hb hc]
    exact refl b
  | some c =>
    have hsubs : b.subs.filter (fun s => s.client ≠ some a) = b.subs := by
      refine List.filter_eq_self.mpr fun s hs => decide_eq_true fun hbound => ?_
      obtain ⟨x, hx, he⟩ := hb.owned a ⟨s, hs, hbound⟩
      rw [hnew x hx] at he
      cases he
    have hclients : Chain.removeAt a (Chain.writeAt a (fun _ => {c with subCount := 0}) b.clients) = Chain.removeAt a b.clients :=
      Chain.removeAt_writeAt fun _ _ => Chain.at?_addr (x := c) hc
    rw [subsRemoveClient_some hc, hsubs, quitOps_new (hnew c hc), List.append_nil]
    show b.besides a = {b with
      clients := Chain.removeAt a (Chain.writeAt a (fun _ => {c with subCount := 0}) b.clients), nextAutoId := 0, env := _}
    rw [hclients]
    rfl

theorem dropClient_apart (hb : Phase L X b) (hnew : Stranger b a) : Apart a b (dropClient a b).2 := by
  have hremoved : Advances L (fun _ => True) (fun _ => True) X b (subsRemoveClient a b).2 := subsRemoveClient_advances hb a
  exact trans_of (Apart a) (subsRemoveClient_apart hb hnew) (clientRemove_apart hremoved.phase _)

/-- All of these end a connection without a session. -/
theorem endConnect_stranger (hb : Phase L X b) (hnew : Stranger b a) : (endConnect L a b).2 = (dropClient a b).2 := by
  have hleave : (leaveConnect L a b).2 = (subsRemoveClient a b).2 := by
    simp only [leaveConnect, run_bind, run_get]
    cases hc : b.client? a with
    | none => exact (subsRemoveClient_none hb hc).symm
    | some c =>
      dsimp only
      rw [hnew c hc]
      rfl
  show (clientRemove a .sessionEnd (leaveConnect L a b).2).2 = (clientRemove a .sessionEnd (subsRemoveClient a b).2).2
  rw [hleave]

theorem abnormalClose_stranger (hb : Phase L X b) (hblank : ∀ c, b.client? a = some c → c.Blank ∧ c.connackPendingLen = 0) :
    (abnormalClose L a b).2 = (dropClient a b).2 := by
  have hwill : (publishWill L a b).2 = b := by
    simp only [publishWill, run_bind, run_get]
    cases hc : b.client? a with
    | none => rfl
    | some c =>
      dsimp only
      cases c.willTopic with
      | none => rfl
      | some topic =>
        have hnone : (!c.hasWill) = true := by rw [(hblank c hc).1.willless]; rfl
        simp only [hnone, if_true]
        rfl
  have hleave : (leaveSession L a b).2 = (subsRemoveClient a b).2 := by
    simp only [leaveSession, run_bind, run_get]
    cases hc : b.client? a with
    | none => exact (subsRemoveClient_none hb hc).symm
    | some c =>
      obtain ⟨hblank, hpend⟩ := hblank c hc
      obtain ⟨hid, hexpiry⟩ := hblank.unnamed hpend
      dsimp only
      rw [if_pos hexpiry]
      simp only [subsEndClientSession, run_bind, run_get, subsRemoveClient_client? hc, Option.bind_some, hid]
      rfl
  show (clientRemove a .sessionEnd (leaveSession L a (publishWill L a b).2).2).2 = (clientRemove a .sessionEnd (subsRemoveClient a b).2).2
  rw [hwill, hleave]

/-! ### A stranger's turn -/

/-- Nothing is supposed of a run. -/
def unruled : Terms where
  ordered := False
  named _ _ := False
  sure := False
  grants _ _ := True
  ends _ _ := True
  joins _ := True
  nonempty h := h.elim
  keyed h := h.elim
  watched h := h.elim

theorem unruled_allows (b : MqttBroker) (a : Nat) (p : InPacket) : Allows L unruled b a p := by
  unfold Allows
  split
  · exact False.elim
  · exact fun _ _ => trivial
  · exact fun _ _ => trivial
  · trivial

/-- `b'` is in order, and `b` but for the connection at `a`, which still has no session. -/
structure Estranged (L : Limits) (a : Nat) (b b' : MqttBroker) : Prop where
  after : InOrder L unruled Nowhere b'
  apart : Apart a b b'
  stranger : Stranger b' a

namespace Estranged

theorem refl (hb : InOrder L unruled Nowhere b) (hnew : Stranger b a) : Estranged L a b b := ⟨hb, refl_of (Apart a) b, hnew⟩

theorem bind {α β : Type} {m : BrokerM α} {f : α → BrokerM β} (hm : Estranged L a b (m b).2)
    (hf : InOrder L unruled Nowhere (m b).2 → Stranger (m b).2 a → Estranged L a (m b).2 (f (m b).1 (m b).2).2) :
    Estranged L a b ((m >>= f) b).2 :=
  have h := hf hm.after hm.stranger
  ⟨h.after, trans_of (Apart a) hm.apart h.apart, h.stranger⟩

theorem when_at {p : Prop} [Decidable p] {m : BrokerM Unit} (hb : InOrder L unruled Nowhere b) (hnew : Stranger b a)
    (h : p → Estranged L a b (m b).2) : Estranged L a b (whenDo p m b).2 := by
  unfold whenDo
  by_cases hp : p
  · rw [if_pos hp]
    exact h hp
  · rw [if_neg hp]
    exact .refl hb hnew

end Estranged

theorem getTime_estranged (hb : InOrder L unruled Nowhere b) (hnew : Stranger b a) : Estranged L a b (getTime b).2 :=
  ⟨(getTime_proceeds hb).after, getTime_apart b, hnew⟩

theorem dropClient_estranged (hb : InOrder L unruled X b) (hnew : Stranger b a) (hXY : ∀ x, X x → x ≠ a → Nowhere x) :
    Estranged L a b (dropClient a b).2 := by
  have hremoved : Advances L (fun _ => True) (fun _ => True) X b (subsRemoveClient a b).2 := subsRemoveClient_advances hb.phase a
  refine ⟨(dropClient_proceeds hb (fun c hc he => ?_) hXY).after, dropClient_apart hb.phase hnew, fun c hc => ?_⟩
  · exact absurd ((hnew c hc).symm.trans he) (by decide)
  · have hgone : (dropClient a b).2.client? a = none := clientRemove_gone hremoved.phase a _
    rw [hgone] at hc
    cases hc

theorem abnormalClose_estranged (hb : InOrder L unruled Nowhere b) (hnew : Stranger b a)
    (hpend : ∀ c, b.client? a = some c → c.connackPendingLen = 0) : Estranged L a b (abnormalClose L a b).2 := by
  rw [abnormalClose_stranger hb.phase fun c hc => ⟨hb.blank c (Chain.at?_mem hc) (hnew c hc) id, hpend c hc⟩]
  exact dropClient_estranged hb hnew nowhere

theorem endConnect_estranged (hb : InOrder L unruled X b) (hnew : Stranger b a) (hXY : ∀ x, X x → x ≠ a → Nowhere x) :
    Estranged L a b (endConnect L a b).2 := by
  rw [endConnect_stranger hb.phase hnew]
  exact dropClient_estranged hb hnew hXY

theorem Stranger.updateClient (hnew : Stranger b a) {f : BrokerClient → BrokerClient}
    (hf : ∀ c, (f c).addr = c.addr ∧ (f c).sessionEstablished = c.sessionEstablished) : Stranger (b.updateClient a f) a := by
  intro x hx
  cases hc : b.client? a with
  | none =>
    rw [MqttBroker.client?, MqttBroker.updateClient, Chain.writeAt_none hc, show Chain.at? b.clients a = none from hc] at hx
    cases hx
  | some c =>
    have hself : (b.updateClient a f).client? a = some (f c) :=
      Chain.at?_writeAt_self hc ((hf c).1.trans (Chain.at?_addr (x := c) hc))
    obtain rfl := Option.some.inj (hself.symm.trans hx)
    exact (hf c).2.trans (hnew c hc)

/-- A refusal that is out, or will never be, ends the connection. -/
theorem closeConnAck_estranged (hb : InOrder L unruled Nowhere b) (hnew : Stranger b a) :
    Estranged L a b (closeConnAck L a true b).2 := by
  let settle : BrokerClient → BrokerClient := fun c => {c with connackPendingLen := 0, connackRefused := false}
  have hadv : Advances L (fun _ => True) (fun _ => True) (· = a) b (b.updateClient a settle) := by
    refine handleClient_advances hb.phase (fun c hc => ?_) (fun _ _ => rfl) nowhere
    refine ⟨⟨rfl, rfl, fun _ => ⟨rfl, rfl⟩, .inl ⟨rfl, rfl⟩, fun _ h => ⟨h.1, h.2, h.3, h.4⟩, ?_⟩, fun hY => ?_⟩
    · rintro - ⟨⟩
    · exact absurd (Chain.at?_addr hc) hY
  have hsettled : InOrder L unruled (· = a) (b.updateClient a settle) :=
    (hb.update hadv.phase (fun c _ => ⟨rfl, fun _ _ hno => absurd rfl hno⟩) nowhere).after
  have hend := endConnect_estranged hsettled (hnew.updateClient (f := settle) fun _ => ⟨rfl, rfl⟩) fun x hx hne => absurd hx hne
  exact ⟨hend.after, trans_of (Apart a) (updateClient_apart (f := settle) fun _ _ => rfl) hend.apart, hend.stranger⟩

theorem sends_estranged {α : Type} (hb : InOrder L unruled Nowhere b) (hnew : Stranger b a) (default : α) {m : ClientM α}
    (hm : Moves Writes m) (hdirect : Moves SameDirect m) : Estranged L a b (onClient a default m b).2 := by
  refine ⟨(hb.sends default hm hdirect).after, onClient_apart default (hm.mono fun _ _ h => h.unstored) b, fun x hx => ?_⟩
  cases hc : b.client? a with
  | none =>
    rw [onClient_none hc, hc] at hx
    cases hx
  | some c =>
    have ht := (hm ⟨c, b.env⟩).tended
    rw [onClient_client? hc default ht.addr] at hx
    obtain rfl := Option.some.inj hx
    exact ht.established.trans (hnew c hc)

theorem checkTimeouts_estranged (hb : InOrder L unruled Nowhere b) (hnew : Stranger b a) :
    Estranged L a b (checkTimeouts L a b).2 := by
  simp only [checkTimeouts, run_bind, run_get]
  cases hc : b.client? a with
  | none => exact .refl hb hnew
  | some c =>
    have hblank := hb.blank c (Chain.at?_mem hc) (hnew c hc) id
    dsimp only
    split
    · rename_i hpend
      rw [hblank.refused hpend]
      exact .bind (getTime_estranged hb hnew) fun hb₁ hnew₁ => .when_at hb₁ hnew₁ fun _ => closeConnAck_estranged hb₁ hnew₁
    rename_i hpend
    rw [if_neg (Nat.not_lt.mpr (Nat.le_of_eq (hblank.unwatched (not_not.mp hpend))))]
    split
    · exact .bind (getTime_estranged hb hnew) fun hb₁ hnew₁ => .when_at hb₁ hnew₁ fun _ => dropClient_estranged hb₁ hnew₁ nowhere
    · exact .refl hb hnew

theorem resumeConnAck_estranged (hb : InOrder L unruled Nowhere b) (hnew : Stranger b a)
    (hpend : ∀ c, b.client? a = some c → c.connackPendingLen ≠ 0) : Estranged L a b (resumeConnAck L a b).2 := by
  simp only [resumeConnAck, run_bind, run_get]
  cases hc : b.client? a with
  | none => exact .refl hb hnew
  | some c =>
    have hrefused := (hb.blank c (Chain.at?_mem hc) (hnew c hc) id).refused (hpend c hc)
    refine .bind (sends_estranged hb hnew Code.badArg (packetWrite_writes L _) (packetWrite_sameDirect _)) fun hb₁ hnew₁ => ?_
    rw [hrefused]
    split
    · exact .refl hb₁ hnew₁
    split
    · exact .bind (closeConnAck_estranged hb₁ hnew₁) fun hb₂ hnew₂ => .refl hb₂ hnew₂
    · exact .bind (closeConnAck_estranged hb₁ hnew₁) fun hb₂ hnew₂ => .refl hb₂ hnew₂


theorem finishWrites_estranged (hb : InOrder L unruled Nowhere b) (hnew : Stranger b a) :
    Estranged L a b (finishWrites L a b).2 := by
  have hdirect : finishDirect L a b = ((b.client? a).isSome, b) := by
    simp only [finishDirect, run_bind, run_get]
    cases hc : b.client? a with
    | none => rfl
    | some c =>
      have hblank := hb.blank c (Chain.at?_mem hc) (hnew c hc) id
      dsimp only
      rw [if_neg (not_not.mpr hblank.direct)]
      rfl
  have hqueued : Estranged L a b (finishQueued L a b).2 := by
    simp only [finishQueued, run_bind, run_get]
    cases hc : b.client? a with
    | none => exact .refl hb hnew
    | some c =>
      dsimp only
      split
      · rename_i hpend
        refine .bind (resumeConnAck_estranged hb hnew fun x hx => ?_) fun hb₁ hnew₁ =>
          .bind (.when_at hb₁ hnew₁ fun _ => checkTimeouts_estranged hb₁ hnew₁) fun hb₂ hnew₂ => .refl hb₂ hnew₂
        obtain rfl := Option.some.inj (hc.symm.trans hx)
        exact hpend
      split
      · rename_i hlive
        have he := ((hb.phase.sound c (Chain.at?_mem hc)).live hlive.1).1
        exact absurd ((hnew c hc).symm.trans he) (by decide)
      · exact .refl hb hnew
  simp only [finishWrites, run_bind, hdirect]
  split
  · exact hqueued
  · exact .refl hb hnew

theorem stampRx_estranged (hb : InOrder L unruled Nowhere b) (hnew : Stranger b a) : Estranged L a b (stampRx a b).2 :=
  ⟨(stampRx_proceeds hb a).after,
    trans_of (Apart a) (getTime_apart b) (updateClient_apart (f := fun c => {c with lastRx := (getTime b).1}) fun _ _ => rfl),
    Stranger.updateClient (b := (getTime b).2) (f := fun c => {c with lastRx := (getTime b).1}) hnew fun _ => ⟨rfl, rfl⟩⟩

/-- A CONNECT that is not accepted. -/
theorem connect_estranged (hb : InOrder L unruled Nowhere b) {c : BrokerClient} (hc : b.client? a = some c)
    (hnew : c.sessionEstablished = false) (hopen : c.sockOpen = true) (hconn : c.connected = false)
    (hpend : c.connackPendingLen = 0) (decoded : Except DecodeError InConnect)
    (hrefuses : ∀ mc, decoded = .ok mc → ¬Accepts L b a mc) : Estranged L a b (dispatch L a (.connect decoded) b).2 := by
  have hafter := (connect_proceeds hb hc hopen hconn hpend decoded (unruled_allows b a _)).after
  obtain ⟨hhandled, -⟩ := handleConnect_proceeds hb hc hnew hpend decoded (unruled_allows b a _)
  have hkept : Apart a b (handleConnect L a decoded b).2 ∧ Stranger (handleConnect L a decoded b).2 a := by
    cases decoded with
    | error e =>
      refine ⟨refl_of (Apart a) b, fun x hx => ?_⟩
      obtain rfl := Option.some.inj (hc.symm.trans hx)
      exact hnew
    | ok mc =>
      have happart := connectChecks_apart (L := L) (a := a) mc b
      obtain ⟨⟨t, n, hstate, hchecks, -⟩, -⟩ := connectChecks_done hc L mc
      have hnot := hrefuses mc rfl
      simp only [handleConnect, run_bind]
      rw [Accepts] at hnot
      generalize connectChecks L a mc b = r at hstate happart hnot ⊢
      obtain ⟨res, b₁⟩ := r
      cases res with
      | ok auto => exact absurd rfl hnot
      | error code =>
        have hrefuse : Moves Unstored (refuseConnect L mc code) := .bind (sendConnAck_unstored _) fun _ => .pure _
        refine ⟨trans_of (Apart a) happart (onClient_apart 0 hrefuse b₁), fun x hx => ?_⟩
        dsimp only at hstate
        subst hstate
        have hc₁ : (b.withClient a t n).client? a = some t.c := withClient_client? hc (hchecks.addr.trans (Chain.at?_addr hc))
        have hkeeps : Keeps ⟨t.c, (b.withClient a t n).env⟩ (refuseConnect L mc code ⟨t.c, (b.withClient a t n).env⟩).2 :=
          sendConnAck_keeps (refusal mc code) ⟨t.c, (b.withClient a t n).env⟩
        rw [onClient_client? hc₁ (0 : Int) hkeeps.addr] at hx
        obtain rfl := Option.some.inj hx
        have hnew₁ : t.c.sessionEstablished = false := (hchecks.get (·.sessionEstablished) fun _ => rfl).trans hnew
        exact (congrArg SConn.established hkeeps.sconn).trans hnew₁
  obtain ⟨happart, hstill⟩ := hkept
  show Estranged L a b (afterConnect L a (handleConnect L a decoded b).1 (handleConnect L a decoded b).2).2
  have hafter : InOrder L unruled Nowhere (afterConnect L a (handleConnect L a decoded b).1 (handleConnect L a decoded b).2).2 := hafter
  generalize handleConnect L a decoded b = r at happart hstill hhandled hafter ⊢
  obtain ⟨rc, b₁⟩ := r
  dsimp only at happart hstill hhandled hafter ⊢
  simp only [afterConnect, run_bind, run_get] at hafter ⊢
  cases hc₁ : b₁.client? a with
  | none =>
    rw [hc₁] at hafter
    exact ⟨hafter, happart, hstill⟩
  | some x =>
    simp only [hc₁] at hafter
    dsimp only
    split
    · have hend := endConnect_estranged hhandled.after hstill fun x hx hne => absurd hx hne
      exact ⟨hend.after, trans_of (Apart a) happart hend.apart, hend.stranger⟩
    · rename_i hans
      rw [if_neg hans] at hafter
      refine ⟨hafter, ?_, ?_⟩
      · refine trans_of (Apart a) happart ?_
        cases x.connackRefused with
        | true => exact refl_of (Apart a) b₁
        | false => exact updateClient_apart fun _ _ => rfl
      · cases x.connackRefused with
        | true => exact hstill
        | false => exact hstill.updateClient (f := fun c => {c with connected := true}) fun _ => ⟨rfl, rfl⟩

theorem receivePacket_estranged (hb : InOrder L unruled Nowhere b) (hnew : Stranger b a) {c : BrokerClient}
    (hc : b.client? a = some c) (hopen : c.sockOpen = true) (hpend : c.connackPendingLen = 0) (valid : Bool) (p : InPacket)
    (hrefuses : valid = true → c.hears p = true → ∀ mc, p = .connect (.ok mc) → ¬Accepts L (stampRx a b).2 a mc) :
    Estranged L a b (receivePacket L a valid p b).2 := by
  refine .bind (stampRx_estranged hb hnew) fun hb₁ hnew₁ => ?_
  have hc₁ := stampRx_client? hc
  have hconn : c.connected = false := by
    by_contra hlive
    have he := ((hb.phase.sound c (Chain.at?_mem hc)).live (by simpa using hlive)).1
    exact absurd ((hnew c hc).symm.trans he) (by decide)
  generalize (stampRx a b).2 = b₁ at hb₁ hnew₁ hc₁ hrefuses ⊢
  have hdrop : Estranged L a b₁ (dropClient a b₁).2 := dropClient_estranged hb₁ hnew₁ nowhere
  simp only [run_bind, run_get, hc₁, hconn]
  cases valid with
  | false => exact hdrop
  | true =>
    cases hp : p.isConnect with
    | false => exact hdrop
    | true =>
      have hhears : c.hears p = true := by simp [BrokerClient.hears, hopen, hconn, hp]
      simp only [Bool.not_true, Bool.false_eq_true, and_false, false_and, if_false]
      cases p with
      | connect decoded =>
        have hgo : Estranged L a b₁ (dispatch L a (.connect decoded) b₁).2 :=
          connect_estranged hb₁ hc₁ (hnew c hc) hopen hconn hpend decoded fun mc hmc => hrefuses rfl hhears mc (by rw [hmc])
        have htimed := Estranged.bind (f := fun go => if go = true then checkTimeouts L a else pure ()) hgo fun hb₂ hnew₂ => ?_
        · exact htimed
        split
        · exact checkTimeouts_estranged hb₂ hnew₂
        · exact .refl hb₂ hnew₂
      | _ => cases hp

theorem receive_estranged (hb : InOrder L unruled Nowhere b) (hnew : Stranger b a)
    (hpend : ∀ c, b.client? a = some c → c.connackPendingLen = 0) (rx : Rx)
    (hrefuses : ∀ p, rx = .packet true p → (b.client? a).any (·.hears p) = true →
      ∀ mc, p = .connect (.ok mc) → ¬Accepts L (stampRx a b).2 a mc) : Estranged L a b (receive L a rx b).2 := by
  have hclose : Estranged L a b (abnormalClose L a b).2 := abnormalClose_estranged hb hnew hpend
  simp only [receive, run_bind, run_get]
  cases hc : b.client? a with
  | none => exact .refl hb hnew
  | some c =>
    dsimp only
    cases hopen : c.sockOpen with
    | false => exact hclose
    | true =>
      cases rx with
      | nothing => exact checkTimeouts_estranged hb hnew
      | failed => exact hclose
      | packet valid p =>
        refine receivePacket_estranged hb hnew hc hopen (hpend c hc) valid p fun hvalid hhears => ?_
        subst hvalid
        exact hrefuses p rfl (by rw [hc]; exact hhears)

/-! ### Runs of a stranger -/

/-- Not a CONNECT that is accepted. -/
def TurnsAway (L : Limits) (b : MqttBroker) (a : Nat) : InPacket → Prop
  | .connect (.ok mc) => ¬Accepts L b a mc
  | _ => True

instance (L : Limits) (b : MqttBroker) (a : Nat) : (p : InPacket) → Decidable (TurnsAway L b a p)
  | .connect (.ok _) => inferInstanceAs (Decidable (¬_))
  | .connect (.error _) | .publish _ | .publishAck _ | .publishRec _ | .publishRel _ | .publishComp _ | .subscribe _
  | .unsubscribe _ | .pingReq _ | .disconnect _ _ | .unhandled => isTrue trivial

/-- One turn of the connection at `a`. -/
theorem step_estranged (hb : InOrder L unruled Nowhere b) (hnew : Stranger b a) (rx : Rx) (script : Script)
    (hrefused : OnPacket L (TurnsAway L) b (.process a rx, script)) :
    Estranged L a b (step L b (.process a rx, script)) := by
  have harm : InOrder L unruled Nowhere {b with env := b.env.arm script} := ⟨{hb.phase with}, hb.blank, False.elim, False.elim⟩
  suffices h : Estranged L a {b with env := b.env.arm script} (step L b (.process a rx, script)) from
    ⟨h.after, trans_of (Apart a) (env_apart rfl) h.apart, h.stranger⟩
  have hpend := @finishWrites_true L {b with env := b.env.arm script} a
  refine .bind (finishWrites_estranged harm hnew) fun hb₁ hnew₁ => ?_
  have hdisp : ∀ p, rx = .packet true p → (finishWrites L a {b with env := b.env.arm script}).1 = true →
      ((finishWrites L a {b with env := b.env.arm script}).2.client? a).any (·.hears p) = true →
      ∀ mc, p = .connect (.ok mc) → ¬Accepts L (stampRx a (finishWrites L a {b with env := b.env.arm script}).2).2 a mc := by
    rintro p rfl hgo hhears mc rfl
    refine hrefused (a, .connect (.ok mc), (stampRx a (finishWrites L a {b with env := b.env.arm script}).2).2) ?_
    simp only [dispatched, hgo, hhears, Bool.and_self, if_true]
    rfl
  generalize finishWrites L a {b with env := b.env.arm script} = r at hb₁ hnew₁ hpend hdisp ⊢
  obtain ⟨go, b₁⟩ := r
  cases go with
  | false => exact .refl hb₁ hnew₁
  | true => exact receive_estranged hb₁ hnew₁ (fun c hc => hpend rfl hc) rx fun p hrx hhears => hdisp p hrx rfl hhears

theorem Reachable.inOrder (h : Reachable L b) : InOrder L unruled Nowhere b := by
  obtain ⟨authUser, authPass, es, rfl⟩ := h
  have hfollows : ∀ b e, Follows L unruled b e := fun b e => ⟨fun x _ => unruled_allows _ _ _, fun _ => trivial, False.elim⟩
  exact (run_proceeds (initial_inOrder L unruled authUser authPass) (Along.imp (fun b e _ => hfollows b e) (Along.trivial es _))).after

/-- A connection without a session stands by itself: whatever it sends and however often it has its
turn, as long as no CONNECT of it is accepted, the broker is as it was but for its own record. -/
theorem run_apart (hreach : Reachable L b) (hnew : Stranger b a) (es : List (Event × Script))
    (hown : ∀ e ∈ es, ∃ rx, e.1 = .process a rx)
    (h : Along (step L) (OnPacket L (TurnsAway L)) b es) :
    (run L b es).besides a = b.besides a ∧ Stranger (run L b es) a := by
  suffices hrun : ∀ b₁, Estranged L a b b₁ → (∀ e ∈ es, ∃ rx, e.1 = .process a rx) → Along (step L) _ b₁ es →
      Estranged L a b (run L b₁ es) by
    have hend := hrun b (.refl hreach.inOrder hnew) hown h
    exact ⟨hend.apart.symm, hend.stranger⟩
  clear hown h
  induction es with
  | nil => exact fun _ hb₁ _ _ => hb₁
  | cons e rest ih =>
    intro b₁ hb₁ hown h
    obtain ⟨ev, script⟩ := e
    obtain ⟨rx, hrx⟩ := hown _ List.mem_cons_self
    obtain rfl : ev = .process a rx := hrx
    have hstep : Estranged L a b₁ (step L b₁ (.process a rx, script)) := step_estranged hb₁.after hb₁.stranger rx script h.1
    refine ih _ ⟨hstep.after, trans_of (Apart a) hb₁.apart hstep.apart, hstep.stranger⟩ ?_ h.2
    exact fun e he => hown e (List.mem_cons_of_mem _ he)

end strangers

/-- A connection beside the subscriber's: it is refused, and what it waits for never comes. -/
def strangerTurns : List (Event × Script) :=
  [packetFrom 3 (.connect (.ok {subscriberReturns with protocolLevel := 5, props := [{type := .receiveMax, dataShort := 0}]})),
   (.process 3 .nothing, {now := 1000})]

theorem run_apart_subscriber :
    (run {} (run {} (initial none none) (lingeringRefusal.take 3)) strangerTurns).besides 3 =
      (run {} (initial none none) (lingeringRefusal.take 3)).besides 3 := by
  have hown : ∀ e ∈ strangerTurns, ∃ rx, e.1 = .process 3 rx := by
    intro e he
    rcases List.mem_cons.mp he with rfl | he
    · exact ⟨_, rfl⟩
    · rw [List.mem_singleton.mp he]
      exact ⟨_, rfl⟩
  have hsubscriber : Reachable {} (run {} (initial none none) (lingeringRefusal.take 3)) := ⟨none, none, _, rfl⟩
  exact (run_apart hsubscriber (by decide +kernel) strangerTurns hown (by decide +kernel)).1

end WolfMqtt.Broker
