import WolfMqtt.Broker.Owner
import WolfMqtt.Broker.TableAnswer

/-! One connection's turn in the session table.

What keeps the sessions in order is asked of one packet only: an accepted CONNECT has to find
the connection that has the session, and leave no subscription behind (`FindsSession`). All
else a turn does is a run of the table in any case. -/
namespace WolfMqtt.Broker

/-! ### What is asked of a packet -/

/-- The connection that an accepted CONNECT finds under its client id has a session, or it leaves no
subscription behind when it goes. -/
def TakesWhole (L : Limits) (b : MqttBroker) (a : Nat) : InPacket → Prop
  | .connect (.ok mc) => Accepts L b a mc → ∀ c ∈ b.client? a,
      ∀ old ∈ findByClientId b (connectId c b.nextAutoId mc) a, old.sessionEstablished = true ∨ mc.cleanSession = true ∨
        old.sessionExpirySec ≠ 0 ∨ ∀ s ∈ b.subs, s.clientId ≠ some (connectId c b.nextAutoId mc)
  | _ => True

instance (L : Limits) (b : MqttBroker) (a : Nat) : (p : InPacket) → Decidable (TakesWhole L b a p)
  | .connect (.ok mc) => inferInstanceAs (Decidable (Accepts L b a mc → ∀ c ∈ b.client? a, ∀ old ∈ _, _ ∨ _))
  | .connect (.error _) | .publish _ | .publishAck _ | .publishRec _ | .publishRel _ | .publishComp _ | .subscribe _
  | .unsubscribe _ | .pingReq _ | .disconnect _ _ | .unhandled => isTrue trivial

/-- An accepted CONNECT finds the session under its client id, and all of it. -/
def FindsSession (L : Limits) (b : MqttBroker) (a : Nat) (p : InPacket) : Prop := FindsOwner L b a p ∧ TakesWhole L b a p

instance (L : Limits) (b : MqttBroker) (a : Nat) (p : InPacket) : Decidable (FindsSession L b a p) :=
  inferInstanceAs (Decidable (_ ∧ _))

/-- What is asked of a packet for the table to be followed while it is handled. -/
def Allows (L : Limits) (R : Terms) (b : MqttBroker) (a : Nat) : InPacket → Prop
  | .connect (.ok mc) => R.ordered → Accepts L b a mc → FindsSession L b a (.connect (.ok mc)) ∧
      ∀ c ∈ b.client? a, c.clientId = none → R.named (connectId c b.nextAutoId mc) mc.keepAliveSec
  | .subscribe (.ok sub) => ∀ t ∈ sub.topics.take maxTopics, R.grants a t.filter
  | .unsubscribe (.ok unsub) => ∀ f ∈ unsub.filters.take maxTopics, R.ends a f
  | _ => True

section turn
variable {L : Limits} {R : Terms} {X Y : Nat → Prop} {b b' : MqttBroker} {a : Nat}

/-! ### A CONNECT -/

/-- Whatever the answer, the session stays established. -/
theorem establishSession_established (hb : Phase L (· = a) b) {x : BrokerClient} (hx : b.client? a = some x)
    (hna : ¬b.Subscribed a) {mc : InConnect} {clientId : Bytes} (hid : x.clientId = some clientId) (auto : Bool) {y : BrokerClient}
    (hy : (establishSession L a mc auto b).2.client? a = some y) : y.sessionEstablished = true := by
  have h₁ : Advances L (fun _ => True) (fun _ => True) (· = a) b (b.updateClient a BrokerClient.establish) :=
    establish_advances hb trivial rfl
  have hx₁ : (b.updateClient a BrokerClient.establish).client? a = some x.establish :=
    Chain.at?_writeAt_self hx (Chain.at?_addr (x := x) hx)
  obtain ⟨orphan, -, -, z, hz, hmine⟩ := adoptSession_spec (L := L) h₁.phase hx₁ rfl hna mc hid
  have hzlive : z.sessionEstablished = true := by
    show z.unclaimed.sessionEstablished = true
    rw [hmine]
    cases orphan with
    | none => rfl
    | some o => rfl
  rw [establishSession_eq hx mc auto hid] at hy
  obtain ⟨w, hw, hwkept⟩ := onClient_kept hz () (storeWill_keeps (L := L) mc)
  obtain ⟨v, hv, hvkept⟩ := acceptConnect_kept (L := L) hw mc auto
    (adoptSession L a mc clientId (b.updateClient a BrokerClient.establish)).1
  obtain rfl := Option.some.inj (hv.symm.trans hy)
  show v.kept.sessionEstablished = true
  rw [hvkept]
  have hwlive : w.kept.sessionEstablished = true := by
    rw [hwkept]
    exact hzlive
  split
  · exact hwlive
  · exact hwlive

/-- A connection whose CONNECT is handled is blank, and goes on without a session only if it is refused. -/
theorem handleConnect_proceeds (hb : InOrder L R Nowhere b) {c : BrokerClient} (hc : b.client? a = some c)
    (hnew : c.sessionEstablished = false) (hpend : c.connackPendingLen = 0) (decoded : Except DecodeError InConnect)
    (hallows : Allows L R b a (.connect decoded)) :
    Proceeds L R (· = a) b (handleConnect L a decoded b).2 ∧
      ∀ x, (handleConnect L a decoded b).2.client? a = some x → x.sessionEstablished = false → x.connackPendingLen ≠ 0 → x.Blank := by
  have hb₀ : InOrder L R (· = a) b := hb.mono fun _ h => h.elim
  have hblank : c.Blank := hb.blank c (Chain.at?_mem hc) hnew id
  have hsound := hb.phase.sound c (Chain.at?_mem hc)
  have hrefused : c.connackRefused = false := by
    by_contra h
    exact hsound.refused (by simpa using h) hpend
  cases decoded with
  | error e =>
    refine ⟨.refl hb₀, fun x hx _ hout => absurd ?_ hout⟩
    obtain rfl := Option.some.inj (hc.symm.trans hx)
    exact hpend
  | ok mc =>
    obtain ⟨⟨t, n, hstate, hchecks, hpassed⟩, hrefuses⟩ := connectChecks_done hc L mc
    have haddr : t.c.addr = a := hchecks.addr.trans (Chain.at?_addr hc)
    have hchecked : Proceeds L R (· = a) b (b.withClient a t n) := Checks.proceeds hb₀ hc hnew hchecks n
    have hc₁ : (b.withClient a t n).client? a = some t.c := withClient_client? hc haddr
    have hpend₁ : t.c.connackPendingLen = 0 := (hchecks.get (·.connackPendingLen) fun _ => rfl).trans hpend
    have hrefused₁ : t.c.connackRefused = false := (hchecks.get (·.connackRefused) fun _ => rfl).trans hrefused
    simp only [handleConnect, run_bind]
    have haccepts : ∀ auto, (connectChecks L a mc b).1 = .ok auto → Accepts L b a mc := fun auto h => by
      rw [Accepts, h]
      rfl
    generalize connectChecks L a mc b = r at hstate hpassed hrefuses haccepts ⊢
    obtain ⟨res, b₁⟩ := r
    dsimp only at hstate hpassed hrefuses haccepts ⊢
    subst hstate
    cases res with
    | error code =>
      refine ⟨hchecked.trans fun hb₁ => refuseConnect_proceeds hb₁ mc code, fun x hx _ hout => ?_⟩
      have hdirect₁ : t.c.directPendingLen = 0 := (hchecks.get (·.directPendingLen) fun _ => rfl).trans hblank.direct
      have hwill₁ : t.c.hasWill = false := (hchecks.get (·.hasWill) fun _ => rfl).trans hblank.willless
      exact refuseConnect_blank hc₁ hpend₁ hrefused₁ ⟨hdirect₁, hwill₁⟩ mc (hrefuses code rfl) hx hout
    | ok auto =>
      obtain ⟨hpassed, hkeep⟩ := hpassed auto rfl
      have hnew₁ : t.c.sessionEstablished = false := (hchecks.get (·.sessionEstablished) fun _ => rfl).trans hnew
      have hna : ¬(b.withClient a t n).Subscribed a := by
        intro hs
        obtain ⟨y, hy, he⟩ := hb.phase.owned a hs
        obtain rfl := Option.some.inj (hc.symm.trans hy)
        rw [hnew] at he
        cases he
      refine ⟨hchecked.trans fun hb₁ => establishSession_proceeds hb₁ hc₁ hnew₁ hpend₁ hrefused₁ hpassed hkeep auto fun hR => ?_,
        fun x hx he => ?_⟩
      · obtain ⟨⟨hfinds, hwhole⟩, hnamed⟩ := hallows hR (haccepts auto rfl)
        have hfound : findByClientId (b.withClient a t n) (connectId c b.nextAutoId mc) a =
            findByClientId b (connectId c b.nextAutoId mc) a := findByClientId_withClient haddr n _
        refine ⟨hnamed c hc (hblank.unnamed hpend).1, fun y hy he hid => ?_, ?_⟩
        · obtain ⟨o, ho, rfl⟩ := List.mem_map.mp hy
          rcases Chain.mem_writeAt_nodup hb.phase.nodup ho with ⟨ho, hne⟩ | ⟨z, -, rfl⟩
          · rw [hfound, hfinds (haccepts auto rfl) c hc o ho hne he hid]
            rfl
          · rw [show t.c.sconn.established = false from hnew₁] at he
            cases he
        · rw [hfound]
          exact hwhole (haccepts auto rfl) c hc
      · rw [establishSession_established hchecked.after.phase hc₁ hna hpassed.clientId auto hx] at he
        cases he

theorem afterConnect_proceeds (hb : InOrder L R (· = a) b) {rc : Int} (hadm : Admitted L b a rc)
    (hblank : ∀ x, b.client? a = some x → x.sessionEstablished = false → x.connackPendingLen ≠ 0 → x.Blank) :
    Proceeds L R Nowhere b (afterConnect L a rc b).2 := by
  have hadv : Advances L (fun _ => True) (fun _ => True) Nowhere b (afterConnect L a rc b).2 :=
    afterConnect_advances ⟨trivial, trivial⟩ trivial hb.phase hadm
  have hXY : ∀ x, x = a → x ≠ a → Nowhere x := fun x hx hne => absurd hx hne
  simp only [afterConnect, run_bind, run_get] at hadv ⊢
  cases hc : b.client? a with
  | none => exact .refl (hb.absent hc hXY)
  | some c =>
    simp only [hc] at hadv
    dsimp only
    split
    · exact .bind (endConnect_proceeds hb hXY) fun hb₁ => .refl hb₁
    rename_i hans
    rw [if_neg hans] at hadv
    have hans : rc > 0 ∨ c.connackPendingLen ≠ 0 := by
      by_contra hno
      exact hans ⟨Int.not_lt.mp fun h => hno (.inl h), not_not.mp fun h => hno (.inr h)⟩
    cases hrefused : c.connackRefused with
    | true =>
      rw [hrefused] at hadv
      have hout : c.connackPendingLen ≠ 0 := (hb.phase.sound c (Chain.at?_mem hc)).refused hrefused
      refine .quiet hb hadv.phase rfl (fun x hx he _ => ?_) (List.suffix_refl _)
      by_cases hxa : x.addr = a
      · have hx' : b.client? a = some x := hxa ▸ hb.phase.client?_of_mem hx
        obtain rfl := Option.some.inj (hc.symm.trans hx')
        exact hblank c hc he hout
      · exact hb.blank x hx he hxa
    | false =>
      rw [hrefused] at hadv
      have hlive : c.sessionEstablished = true := (hadm c hc hrefused hans).1
      refine hb.update (f := fun c => {c with connected := true}) hadv.phase (fun x hx => ⟨rfl, fun he => ?_⟩) hXY
      obtain rfl := Option.some.inj (hc.symm.trans hx)
      rw [hlive] at he
      cases he

theorem connect_proceeds (hb : InOrder L R Nowhere b) {c : BrokerClient} (hc : b.client? a = some c) (hopen : c.sockOpen = true)
    (hconn : c.connected = false) (hpend : c.connackPendingLen = 0) (decoded : Except DecodeError InConnect)
    (hallows : Allows L R b a (.connect decoded)) : Proceeds L R Nowhere b (dispatch L a (.connect decoded) b).2 := by
  have hnew : c.sessionEstablished = false := by
    by_contra h
    exact (hb.phase.settled c (Chain.at?_mem hc) id hopen hconn (by simpa using h)).1 hpend
  obtain ⟨hhandled, hblank⟩ := handleConnect_proceeds hb hc hnew hpend decoded hallows
  have hadm := (handleConnect_advances (L := L) (P := fun _ => True) (X := (· = a)) (Z := fun _ => True) ⟨trivial, trivial⟩ trivial
    (hb.phase.mono fun _ h => h.elim) rfl trivial hc hnew hpend decoded fun mc _ _ =>
      ⟨fun _ _ _ => .inl trivial, fun _ _ _ => .inr (.inr trivial)⟩).2
  have hafter := afterConnect_proceeds hhandled.after hadm hblank
  exact ⟨hafter.after, fun hR => Relation.ReflTransGen.trans (hhandled.run hR) (hafter.run hR)⟩

/-! ### What is half written -/

/-- A connection whose CONNACK is pending has a session, or is being refused. -/
theorem closeConnAck_proceeds (hb : InOrder L R X b) {refused : Bool}
    (hverdict : ∀ c, b.client? a = some c → c.sessionEstablished = false → refused = true) (hXY : ∀ x, X x → x ≠ a → Y x) :
    Proceeds L R Y b (closeConnAck L a refused b).2 := by
  let b₁ := b.updateClient a (fun c => {c with connackPendingLen := 0, connackRefused := false})
  have hadv : Advances L (fun _ => True) (fun _ => True) (fun x => X x ∨ x = a) b b₁ := by
    refine handleClient_advances hb.phase (fun c hc => ?_) (fun _ _ => rfl) (fun x hx _ => .inl hx)
    refine ⟨⟨rfl, rfl, fun _ => ⟨rfl, rfl⟩, .inl ⟨rfl, rfl⟩, fun _ h => ⟨h.1, h.2, h.3, h.4⟩, ?_⟩, fun hY => ?_⟩
    · rintro - ⟨⟩
    · exact absurd (Or.inr (Chain.at?_addr hc)) hY
  have h₁ : Proceeds L R (fun x => X x ∨ x = a) b b₁ :=
    hb.update hadv.phase (fun c _ => ⟨rfl, fun _ _ hno => absurd (.inr rfl) hno⟩) fun x hx _ => .inl hx
  have hXY' : ∀ x, (X x ∨ x = a) → x ≠ a → Y x := fun x hx hne => hXY x (hx.resolve_right hne) hne
  refine h₁.trans fun hb₁ => ?_
  show Proceeds L R Y b₁ ((if refused then _ else _ : BrokerM Unit) b₁).2
  cases refused with
  | true => exact endConnect_proceeds hb₁ hXY'
  | false =>
    refine abnormalClose_proceeds hb₁ (fun c hc he => ?_) hXY'
    obtain ⟨y, hy, he'⟩ : ∃ y, b.client? a = some y ∧ y.sessionEstablished = false := by
      cases hy : b.client? a with
      | none =>
        have hsame : b₁ = b := by
          show b.updateClient a _ = b
          rw [MqttBroker.updateClient, Chain.writeAt_none hy]
        rw [hsame, hy] at hc
        cases hc
      | some y =>
        have hc' : b₁.client? a = some {y with connackPendingLen := 0, connackRefused := false} :=
          Chain.at?_writeAt_self hy (Chain.at?_addr (x := y) hy)
        obtain rfl := Option.some.inj (hc'.symm.trans hc)
        exact ⟨y, rfl, he⟩
    cases hverdict y hy he'

/-- What is known of a connection without a session before its CONNECT. -/
theorem InOrder.unnamed (hb : InOrder L R Nowhere b)
    (hpend : ∀ c, b.client? a = some c → c.sessionEstablished = false → c.connackPendingLen = 0) : Unnamed b a :=
  fun c hc he => (hb.blank c (Chain.at?_mem hc) he id).unnamed (hpend c hc he)

/-- A packet is written, whether there is a session or not. -/
theorem InOrder.sends {α : Type} (hb : InOrder L R X b) (default : α) {m : ClientM α} (hm : Moves Writes m)
    (hdirect : Moves SameDirect m) : Proceeds L R X b (onClient a default m b).2 := by
  have hadv : Advances L (fun _ => True) (fun _ => True) X b (onClient a default m b).2 := onClient_writes a hb.phase default hm
  cases hc : b.client? a with
  | none =>
    rw [onClient_none hc]
    exact .refl hb
  | some c =>
    have hw := hm ⟨c, b.env⟩
    have hquiet : ∀ {γ : Type} (f : Conn → γ), (∀ s, f s.quiet = f s) → f (m ⟨c, b.env⟩).2 = f ⟨c, b.env⟩ := fun f hf =>
      (hf _).symm.trans ((congrArg f hw).symm.trans (hf _))
    rw [onClient_some hc] at hadv ⊢
    refine hb.write hc rfl ⟨rfl, rfl, rfl⟩ hw.spends hadv.phase hw.sconn (fun he hX => ?_) fun x hX _ => hX
    have hnew : c.sessionEstablished = false := (hquiet (·.c.sessionEstablished) fun _ => rfl).symm.trans he
    have haddr : c.addr = a := Chain.at?_addr hc
    obtain ⟨hd, hwill, hrefused, hunnamed, hunwatched⟩ := hb.blank c (Chain.at?_mem hc) hnew (haddr ▸ hX)
    have hpending := hquiet (·.c.connackPendingLen) fun _ => rfl
    have hsame : (c.directPendingLen, c.hasWill) = _ := hdirect ⟨c, b.env⟩
    obtain ⟨hlen, hsamewill⟩ := Prod.mk.inj hsame
    refine ⟨hlen.symm.trans hd, hsamewill.symm.trans hwill, fun h => ?_, fun h => ?_, fun h => ?_⟩
    · exact (hquiet (·.c.connackRefused) fun _ => rfl).trans (hrefused (hpending ▸ h))
    · exact ⟨(hquiet (·.c.clientId) fun _ => rfl).trans (hunnamed (hpending ▸ h)).1,
        (hquiet (·.c.sessionExpirySec) fun _ => rfl).trans (hunnamed (hpending ▸ h)).2⟩
    · exact (hquiet (·.c.keepAliveSec) fun _ => rfl).trans (hunwatched (hpending ▸ h))

theorem InOrder.established (hb : InOrder L R Nowhere b) {c : BrokerClient} (hc : b.client? a = some c) (hnot : ¬c.Blank) :
    b.Established a := by
  refine ⟨c, hc, ?_⟩
  by_contra he
  exact hnot (hb.blank c (Chain.at?_mem hc) (by simpa using he) id)

theorem resumeConnAck_proceeds (hb : InOrder L R Nowhere b) (hpend : ∀ c, b.client? a = some c → c.connackPendingLen ≠ 0) :
    Proceeds L R Nowhere b (resumeConnAck L a b).2 := by
  have hadv : Advances L (fun _ => True) (fun _ => True) Nowhere b (resumeConnAck L a b).2 :=
    resumeConnAck_advances ⟨trivial, trivial⟩ trivial hb.phase
  simp only [resumeConnAck, run_bind, run_get] at hadv ⊢
  cases hc : b.client? a with
  | none => exact .refl hb
  | some c =>
    simp only [hc] at hadv
    have hwrites := packetWrite_writes L c.connackPendingLen ⟨c, b.env⟩
    have hc₁ := onClient_client? hc Code.badArg hwrites.tended.addr
    have hverdict : c.sessionEstablished = false → c.connackRefused = true := fun he =>
      (hb.blank c (Chain.at?_mem hc) he id).refused (hpend c hc)
    refine .bind (hb.sends Code.badArg (packetWrite_writes L _) (packetWrite_sameDirect _)) fun hb₁ => ?_
    generalize onClient a Code.badArg (packetWrite L c.connackPendingLen) b = r at hb₁ hc₁ hadv ⊢
    obtain ⟨rc, b₁⟩ := r
    dsimp only at hb₁ hc₁ hadv ⊢
    have hverdict₁ : ∀ x, b₁.client? a = some x → x.sessionEstablished = false → c.connackRefused = true := by
      intro x hx he
      obtain rfl := Option.some.inj (hc₁.symm.trans hx)
      exact hverdict (hwrites.tended.established.symm.trans he)
    split
    · exact .refl hb₁
    split
    · exact .bind (closeConnAck_proceeds hb₁ hverdict₁ nowhere) fun hb₂ => .refl hb₂
    split
    · exact .bind (closeConnAck_proceeds hb₁ (fun _ _ _ => rfl) nowhere) fun hb₂ => .refl hb₂
    rename_i hnot
    have hrefused : c.connackRefused = false := by simpa using hnot
    have hlive : c.sessionEstablished = true := by
      by_contra he
      exact hnot (hverdict (by simpa using he))
    refine .bind (getTime_proceeds hb₁) fun hb₂ => ?_
    have hc₂ : (getTime b₁).2.client? a = b₁.client? a := rfl
    rw [hc₁] at hc₂
    generalize getTime b₁ = r at hb₂ hc₂ ⊢
    obtain ⟨now, b₂⟩ := r
    dsimp only at hb₂ hc₂ ⊢
    have hlive₂ : (packetWrite L c.connackPendingLen ⟨c, b.env⟩).2.c.sessionEstablished = true := hwrites.tended.established.trans hlive
    have hrefused₂ : (packetWrite L c.connackPendingLen ⟨c, b.env⟩).2.c.connackRefused = false :=
      hwrites.tended.connack.2.trans hrefused
    have hout : Advances L (fun _ => True) (fun _ => True) Nowhere b₂
        (b₂.updateClient a (fun c => {c with connackPendingLen := 0, lastRx := now})) := by
      refine handleClient_advances (f := fun c => {c with connackPendingLen := 0, lastRx := now}) hb₂.phase (fun x hx => ?_)
        (fun _ _ => rfl) nowhere
      obtain rfl := Option.some.inj (hc₂.symm.trans hx)
      refine ⟨⟨rfl, rfl, fun _ => ⟨rfl, rfl⟩, .inl ⟨rfl, rfl⟩, fun _ h => ⟨h.1, h.2, h.3, h.4⟩, fun _ h => ?_⟩,
        fun _ hopen hconn he => ?_⟩
      · exact absurd (hrefused₂.symm.trans h) (by decide)
      · have hset := (hb₂.phase.settled _ (Chain.at?_mem hc₂) id hopen hconn he).2
        rw [hrefused₂] at hset
        cases hset
    have haddr : (packetWrite L c.connackPendingLen ⟨c, b.env⟩).2.c.addr = a := hwrites.tended.addr.trans (Chain.at?_addr hc)
    have hc₃ := Chain.at?_writeAt_self (f := fun c => {c with connackPendingLen := 0, lastRx := now}) hc₂ haddr
    refine .bind (hb₂.update hout.phase (fun x hx => ⟨rfl, fun he => ?_⟩) nowhere) fun hb₃ =>
      .bind (hb₃.serves ⟨_, hc₃, hlive₂⟩ () fun x _ => drainResumed_serves trivial ⟨x, _⟩) fun hb₄ => .refl hb₄
    obtain rfl := Option.some.inj (hc₂.symm.trans hx)
    exact absurd (hlive₂.symm.trans he) (by decide)

/-- A connection with a session leaves it behind as its expiry says. -/
theorem MqttBroker.Established.unnamed (ha : b.Established a) : Unnamed b a := by
  obtain ⟨c, hc, hlive⟩ := ha
  intro x hx he
  obtain rfl := Option.some.inj (hc.symm.trans hx)
  exact absurd (hlive.symm.trans he) (by decide)

theorem onClient_established {α : Type} (ha : b.Established a) (default : α) {m : ClientM α} (hm : Moves Writes m) :
    (onClient a default m b).2.Established a := by
  obtain ⟨x, hx, he⟩ := ha
  have ht := (hm ⟨x, b.env⟩).tended
  exact ⟨_, onClient_client? hx default ht.addr, ht.established.trans he⟩

theorem resumeDirect_proceeds (hb : InOrder L R Nowhere b) (hpend : ∀ c, b.client? a = some c → c.directPendingLen ≠ 0) :
    Proceeds L R Nowhere b (resumeDirect L a b).2 := by
  simp only [resumeDirect, run_bind, run_get]
  cases hc : b.client? a with
  | none => exact .refl hb
  | some c =>
    have ha : b.Established a := hb.established hc fun h => hpend c hc h.direct
    have hwrites := writeDirect_writes L c.directPendingLen
    refine .bind (hb.writes ha Code.badArg hwrites) fun hb₁ => ?_
    have ha₁ := onClient_established ha Code.badArg hwrites
    generalize onClient a Code.badArg (writeDirect L c.directPendingLen) b = r at hb₁ ha₁ ⊢
    obtain ⟨rc, b₁⟩ := r
    dsimp only at hb₁ ha₁ ⊢
    split
    · exact .refl hb₁
    refine .bind (hb₁.writes ha₁ () (zeroTxBuf_writes _)) fun hb₂ => ?_
    split
    · have ha₂ := onClient_established ha₁ () (zeroTxBuf_writes c.directPendingLen)
      exact .bind (abnormalClose_proceeds hb₂ ha₂.unnamed nowhere) fun hb₃ => .refl hb₃
    · exact .refl hb₂

/-! ### The clock -/

theorem keepAliveTimeout_proceeds (hb : InOrder L R Nowhere b) (ha : b.Established a) (c : BrokerClient) :
    Proceeds L R Nowhere b (keepAliveTimeout L a c b).2 := by
  have hsend := sendDisconnect_writes L Reason.keepAliveTimeout
  show Proceeds L R Nowhere b (abnormalClose L a (whenDo _ _ b).2).2
  unfold whenDo
  split
  · exact (hb.writes ha (0 : Int) hsend).trans fun hb₁ =>
      abnormalClose_proceeds hb₁ (onClient_established ha (0 : Int) hsend).unnamed nowhere
  · exact abnormalClose_proceeds hb ha.unnamed nowhere

theorem checkTimeouts_proceeds (hb : InOrder L R Nowhere b) : Proceeds L R Nowhere b (checkTimeouts L a b).2 := by
  simp only [checkTimeouts, run_bind, run_get]
  cases hc : b.client? a with
  | none => exact .refl hb
  | some c =>
    dsimp only
    split
    · rename_i hpend
      refine .bind (getTime_proceeds hb) fun hb₁ => .when_at hb₁ fun _ => closeConnAck_proceeds hb₁ (fun x hx he => ?_) nowhere
      obtain rfl := Option.some.inj (hc.symm.trans hx)
      exact (hb.blank c (Chain.at?_mem hc) he id).refused hpend
    rename_i hpend
    have hpend : c.connackPendingLen = 0 := not_not.mp hpend
    split
    · rename_i hkeep
      have ha : b.Established a := hb.established hc fun h => Nat.ne_of_gt hkeep (h.unwatched hpend)
      exact .bind (getTime_proceeds hb) fun hb₁ => .when_at hb₁ fun _ => keepAliveTimeout_proceeds hb₁ ha c
    rename_i hkeep
    split
    · refine .bind (getTime_proceeds hb) fun hb₁ => .when_at hb₁ fun _ => dropClient_proceeds hb₁ (fun x hx _ => ?_) nowhere
      obtain rfl := Option.some.inj (hc.symm.trans hx)
      exact Nat.eq_zero_of_not_pos hkeep
    · exact .refl hb

/-! ### Packets of a connection with a session -/

variable (L R) in
/-- The broker goes on in order, and the connection at `a` keeps its session. -/
structure Continues (a : Nat) (b b' : MqttBroker) : Prop extends Proceeds L R Nowhere b b' where
  established : b'.Established a

namespace Continues

theorem refl (hb : InOrder L R Nowhere b) (ha : b.Established a) : Continues L R a b b := ⟨.refl hb, ha⟩

theorem bind {α β : Type} {m : BrokerM α} {f : α → BrokerM β} (hm : Continues L R a b (m b).2)
    (hf : InOrder L R Nowhere (m b).2 → (m b).2.Established a → Continues L R a (m b).2 (f (m b).1 (m b).2).2) :
    Continues L R a b ((m >>= f) b).2 :=
  have h := hf hm.after hm.established
  ⟨hm.toProceeds.trans fun _ => h.toProceeds, h.established⟩

theorem when_at {p : Prop} [Decidable p] {m : BrokerM Unit} (hb : InOrder L R Nowhere b) (ha : b.Established a)
    (h : p → Continues L R a b (m b).2) : Continues L R a b (whenDo p m b).2 := by
  unfold whenDo
  by_cases hp : p
  · rw [if_pos hp]
    exact h hp
  · rw [if_neg hp]
    exact .refl hb ha

end Continues

theorem Fans.continues (hb : InOrder L R Nowhere b) (ha : b.Established a)
    (h : Fans L (fun _ => True) b.Established True b b') : Continues L R a b b' := ⟨h.proceeds hb, h.spread.established ha⟩

theorem InOrder.writesOn {α : Type} (hb : InOrder L R Nowhere b) (ha : b.Established a) (default : α) {m : ClientM α}
    (hm : Moves Writes m) : Continues L R a b (onClient a default m b).2 :=
  ⟨hb.writes ha default hm, onClient_established ha default hm⟩

theorem InOrder.mindsOn {α : Type} (hb : InOrder L R Nowhere b) (ha : b.Established a) (default : α) {m : ClientM α}
    (hm : Moves (Minds L (fun _ => True)) m) : Continues L R a b (onClient a default m b).2 := by
  refine ⟨hb.minds ha default hm, ?_⟩
  obtain ⟨x, hx, he⟩ := ha
  have hsame := (hm ⟨x, b.env⟩).same
  exact ⟨_, onClient_client? hx default hsame.addr, hsame.established.trans he⟩

theorem InOrder.servesOn {α : Type} (hb : InOrder L R Nowhere b) (ha : b.Established a) (default : α) {m : ClientM α}
    (hm : ∀ c, b.client? a = some c → Serves L (fun _ => True) ⟨c, b.env⟩ (m ⟨c, b.env⟩).2) :
    Continues L R a b (onClient a default m b).2 := by
  refine ⟨hb.serves ha default hm, ?_⟩
  obtain ⟨x, hx, he⟩ := ha
  have hserved := (hm x hx).served
  exact ⟨_, onClient_client? hx default hserved.addr, (congrArg SConn.established hserved.sconn).trans he⟩

theorem closeIfFatal_proceeds (hb : InOrder L R Nowhere b) (ha : b.Established a) (rc : Int) :
    Proceeds L R Nowhere b (closeIfFatal L a rc b).2 := by
  unfold closeIfFatal
  split
  · exact .bind (abnormalClose_proceeds hb ha.unnamed nowhere) fun hb₁ => .refl hb₁
  · exact .refl hb

/-- A handler's result is looked at. -/
theorem Continues.closes {m : BrokerM Int} (h : Continues L R a b (m b).2) :
    Proceeds L R Nowhere b ((m >>= closeIfFatal L a) b).2 :=
  .bind h.toProceeds fun hb₁ => closeIfFatal_proceeds hb₁ h.established _

/-! ### PUBLISH -/

theorem acceptPublish_continues (hb : InOrder L R Nowhere b) (ha : b.Established a) (p : InPublish) (duplicate : Bool) :
    Continues L R a b (acceptPublish L a p duplicate b).2 := by
  have hP : Ordinary (fun _ => True) := ⟨trivial, trivial⟩
  refine .bind ((copyTopic_fans hP p.topicName b).continues hb ha) fun hb₁ ha₁ => ?_
  split
  · exact .refl hb₁ ha₁
  refine .bind (.when_at hb₁ ha₁ fun _ => (retainPublish_fans hP p _).continues hb₁ ha₁) fun hb₂ ha₂ => ?_
  refine .bind (.when_at hb₂ ha₂ fun _ => (fanOut_fans hP a p hb₂.phase.owned).continues hb₂ ha₂) fun hb₃ ha₃ => ?_
  exact hb₃.writesOn ha₃ _ (ackPublish_writes p)

theorem handlePublish_continues (hb : InOrder L R Nowhere b) (ha : b.Established a) (decoded : Except DecodeError InPublish) :
    Continues L R a b (handlePublish L a decoded b).2 := by
  simp only [handlePublish, run_bind, run_get]
  cases decoded with
  | error e => exact .refl hb ha
  | ok p =>
    cases b.client? a with
    | none => exact .refl hb ha
    | some c =>
      dsimp only
      split
      · exact .bind (hb.writesOn ha (0 : Int) (sendDisconnect_writes L _)) fun hb₁ ha₁ => .refl hb₁ ha₁
      split
      · exact .bind (hb.writesOn ha (0 : Int) (sendDisconnect_writes L _)) fun hb₁ ha₁ => .refl hb₁ ha₁
      split
      · exact .refl hb ha
      refine .bind (hb.mindsOn ha _ (qos2Admit_minds trivial p)) fun hb₁ ha₁ => ?_
      generalize onClient a (.refused Code.badArg) (qos2Admit L p) b = r at hb₁ ha₁ ⊢
      obtain ⟨verdict, b₁⟩ := r
      cases verdict with
      | refused rc => exact .refl hb₁ ha₁
      | fresh => exact acceptPublish_continues hb₁ ha₁ p false
      | duplicate => exact acceptPublish_continues hb₁ ha₁ p true

theorem onAck_proceeds (hb : InOrder L R Nowhere b) (ha : b.Established a) (decoded : Except DecodeError Nat)
    {handler : Nat → ClientM Unit} (hh : ∀ packetId, Moves (Serves L (fun _ => True)) (handler packetId)) :
    Proceeds L R Nowhere b (onAck L a decoded handler b).2 := by
  cases decoded with
  | error e => exact closeIfFatal_proceeds hb ha _
  | ok packetId => exact .bind (hb.serves ha () fun c _ => hh packetId ⟨c, b.env⟩) fun hb₁ => .refl hb₁

/-! ### SUBSCRIBE and UNSUBSCRIBE -/

/-- The broker with a subscription of the connection at `a` added. -/
def MqttBroker.addSub (b : MqttBroker) (a : Nat) (s : BrokerSub) (env : Env) : MqttBroker :=
  {b.updateClient a (fun c => {c with subCount := c.subCount + 1}) with subs := s :: b.subs, env := env}

theorem subsAdd_old {filter : Bytes} {qos : QoS} (hold : ∃ s ∈ b.subs, s.client = some a ∧ s.filter = filter) :
    (subsAdd L a filter qos b).2 = {b with
      subs := b.subs.replaceF (fun s => if s.client = some a ∧ s.filter = filter then some {s with qos := qos} else none)} := by
  have hany : b.subs.any (fun s => s.client = some a ∧ s.filter = filter) = true := by simpa using hold
  show ((if b.subs.any (fun s => s.client = some a ∧ s.filter = filter) then _ else _ : BrokerM Int) b).2 = _
  rw [if_pos hany]
  rfl

theorem subsAdd_new {filter : Bytes} {qos : QoS} (hnone : ¬∃ s ∈ b.subs, s.client = some a ∧ s.filter = filter) {c : BrokerClient}
    (hc : b.client? a = some c) : (subsAdd L a filter qos b).2 =
      if c.subCount ≥ L.maxSubsPerClient then b
      else match b.env.alloc with
        | (none, env) => {b with env := env}
        | (some _, env) => b.addSub a {filter := filter, clientId := c.clientId, client := some a, qos := qos} env := by
  have hany : ¬b.subs.any (fun s => s.client = some a ∧ s.filter = filter) = true := by simpa using hnone
  show ((if b.subs.any (fun s => s.client = some a ∧ s.filter = filter) then _ else _ : BrokerM Int) b).2 = _
  rw [if_neg hany, hc]
  dsimp only
  split
  · rfl
  · simp only [run_bind, alloc]
    generalize b.env.alloc = r
    obtain ⟨slot, env⟩ := r
    cases slot <;> rfl

/-- A new subscription, or a new QoS on an old one. -/
theorem subsAdd_continues (hb : InOrder L R Nowhere b) (ha : b.Established a) {filter : Bytes} (hgrants : R.grants a filter)
    (qos : QoS) : Continues L R a b (subsAdd L a filter qos b).2 := by
  have hjoins : Joins L (fun _ => True) (fun _ => True) Nowhere a b (subsAdd L a filter qos b).2 :=
    subsAdd_joins ⟨trivial, trivial⟩ hb.phase ha filter qos
  refine ⟨?_, hjoins.established⟩
  have hphase := hjoins.phase
  obtain ⟨c, hc, he⟩ := ha
  by_cases hold : ∃ s ∈ b.subs, s.client = some a ∧ s.filter = filter
  · rw [subsAdd_old hold] at hphase ⊢
    exact .of_run hb hphase hb.blank (List.suffix_refl _) fun _ _ => .single (.resubscribe hgrants)
  rw [subsAdd_new hold hc] at hphase ⊢
  split
  · exact .refl hb
  rename_i hroom
  rw [if_neg hroom] at hphase
  have hspends := Env.Spends.alloc b.env
  generalize b.env.alloc = r at hspends hphase ⊢
  obtain ⟨slot, env⟩ := r
  cases slot with
  | none => exact hb.env hphase hspends
  | some slot =>
    refine .of_run hb hphase (fun x hx hnew _ => ?_) hspends.allocs fun _ _ => .single ?_
    · rcases Chain.mem_writeAt_nodup hb.phase.nodup hx with ⟨hx, -⟩ | ⟨y, hy, rfl⟩
      · exact hb.blank x hx hnew id
      · obtain rfl := Option.some.inj (hc.symm.trans hy)
        exact absurd (he.symm.trans hnew) (by decide)
    · have hfresh : ∀ s ∈ b.table.subs, s.client = some a → s.filter ≠ filter := fun s hs hbound hfilter =>
        hold ⟨s, hs, hbound, hfilter⟩
      have hstep : SStep L R b.table {b.table.setConn a {c.sconn with subCount := c.subCount + 1} with
          subs := {filter, client := some a, clientId := c.clientId, qos} :: b.table.subs} :=
        .subscribe (table_conn?_some hc) he hfresh hgrants
      have hconns := updateClient_conns (b := b) (f := fun c => {c with subCount := c.subCount + 1}) hc rfl
      convert hstep using 1
      show STable.mk (b.updateClient a (fun c => {c with subCount := c.subCount + 1})).table.conns _
        (b.orphanSessions.map OrphanSession.sorphan) b.orphanSessionCount env.sessions = _
      rw [hconns, hspends.sessions]
      rfl

theorem subscribeTopic_continues (hb : InOrder L R Nowhere b) (ha : b.Established a) (level : Nat) {t : SubTopic}
    (hgrants : R.grants a t.filter) : Continues L R a b (subscribeTopic L a level t b).2 := by
  refine .bind (subsAdd_continues hb ha hgrants t.qos) fun hb₁ ha₁ => ?_
  split
  · exact .refl hb₁ ha₁
  split
  · refine .bind ((subscribeRetained_fans ⟨trivial, trivial⟩ ha₁ t _).continues hb₁ ha₁) fun hb₂ ha₂ => ?_
    split
    · exact .refl hb₂ ha₂
    · exact .refl hb₂ ha₂
  · exact .refl hb₁ ha₁

theorem subscribeTopics_continues (level : Nat) (ts : List SubTopic) (codes : List UInt8) (hb : InOrder L R Nowhere b)
    (ha : b.Established a) (hgrants : ∀ t ∈ ts, R.grants a t.filter) :
    Continues L R a b (subscribeTopics L a level ts codes b).2 := by
  induction ts generalizing codes b with
  | nil => exact .refl hb ha
  | cons t rest ih =>
    refine .bind (subscribeTopic_continues hb ha level (hgrants t List.mem_cons_self)) fun hb₁ ha₁ => ?_
    generalize subscribeTopic L a level t b = r at hb₁ ha₁ ⊢
    obtain ⟨code, b₁⟩ := r
    cases code with
    | error rc => exact .refl hb₁ ha₁
    | ok code => exact ih (codes ++ [code]) hb₁ ha₁ fun t' ht' => hgrants t' (List.mem_cons_of_mem _ ht')

/-- What is stored of the subscriptions is no session. -/
theorem storeSubs_continues (hb : InOrder L R Nowhere b) (ha : b.Established a) (rc : Int) :
    Continues L R a b (storeSubs a rc b).2 := by
  have hstored : ∀ clientId, Continues L R a b (persistPutSubs clientId b).2 := by
    intro clientId
    have hphase := (persistPutSubs_advances (P := fun _ => True) (Z := fun _ => True) hb.phase clientId).phase
    refine ⟨hb.env hphase (.persist fun r => ?_), ha⟩
    show PersistOp.onSessions r _ = r
    split <;> rfl
  simp only [storeSubs, run_bind, run_get]
  cases b.client? a with
  | none => exact .refl hb ha
  | some c =>
    dsimp only
    cases c.clientId with
    | none => exact .refl hb ha
    | some clientId => exact .when_at hb ha fun _ => hstored clientId

theorem handleSubscribe_continues (hb : InOrder L R Nowhere b) (ha : b.Established a)
    (decoded : Except DecodeError InSubscribe) (hallows : Allows L R b a (.subscribe decoded)) :
    Continues L R a b (handleSubscribe L a decoded b).2 := by
  simp only [handleSubscribe, run_bind, run_get]
  cases decoded with
  | error e => exact .refl hb ha
  | ok sub =>
    cases b.client? a with
    | none => exact .refl hb ha
    | some c =>
      refine .bind (subscribeTopics_continues c.protocolLevel (sub.topics.take maxTopics) [] hb ha hallows) fun hb₁ ha₁ => ?_
      generalize subscribeTopics L a c.protocolLevel (sub.topics.take maxTopics) [] b = r at hb₁ ha₁ ⊢
      obtain ⟨codes, b₁⟩ := r
      cases codes with
      | error rc => exact .refl hb₁ ha₁
      | ok codes =>
        refine .bind (hb₁.writesOn ha₁ _ (sendSubAck_writes L _ _)) fun hb₂ ha₂ => ?_
        exact .bind (storeSubs_continues hb₂ ha₂ _) fun hb₃ ha₃ => .refl hb₃ ha₃

theorem subsRemove_none {filter : Bytes} (hnone : ¬∃ s ∈ b.subs, s.client = some a ∧ s.filter = filter) :
    (subsRemove a filter b).2 = b := by
  have hany : ¬b.subs.any (fun s => s.client = some a ∧ s.filter = filter) = true := by simpa using hnone
  show (if b.subs.any (fun s => s.client = some a ∧ s.filter = filter) then _ else b) = b
  exact if_neg hany

/-- A subscription ends. -/
theorem subsRemove_continues (hb : InOrder L R Nowhere b) (ha : b.Established a) {filter : Bytes} (hends : R.ends a filter) :
    Continues L R a b (subsRemove a filter b).2 := by
  have hphase := (subsRemove_advances (P := fun _ => True) (Z := fun _ => True) hb.phase a filter).phase
  by_cases hold : ∃ s ∈ b.subs, s.client = some a ∧ s.filter = filter
  · obtain ⟨c, hc, he⟩ := ha
    let less : BrokerClient → BrokerClient := fun c => {c with subCount := if c.subCount > 0 then c.subCount - 1 else c.subCount}
    have hany : b.subs.any (fun s => s.client = some a ∧ s.filter = filter) = true := by simpa using hold
    have heq : (subsRemove a filter b).2 =
        {b.updateClient a less with subs := b.subs.eraseP (fun s => s.client = some a ∧ s.filter = filter)} := by
      show (if b.subs.any (fun s => s.client = some a ∧ s.filter = filter) then _ else b) = _
      exact if_pos hany
    rw [heq] at hphase ⊢
    refine ⟨.of_run hb hphase (fun x hx hnew _ => ?_) (List.suffix_refl _) fun _ _ => .single ?_,
      less c, Chain.at?_writeAt_self hc (Chain.at?_addr (x := c) hc), he⟩
    · rcases Chain.mem_writeAt_nodup hb.phase.nodup hx with ⟨hx, -⟩ | ⟨y, hy, rfl⟩
      · exact hb.blank x hx hnew id
      · obtain rfl := Option.some.inj (hc.symm.trans hy)
        exact absurd (he.symm.trans hnew) (by decide)
    · have hstep := SStep.unsubscribe (L := L) (R := R) (table_conn?_some hc) hold hends
      have hconns := updateClient_conns (b := b) (f := less) hc rfl
      convert hstep using 1
      show STable.mk (b.updateClient a less).table.conns _ (b.orphanSessions.map OrphanSession.sorphan) b.orphanSessionCount
        b.env.sessions = _
      rw [hconns]
      rfl
  · rw [subsRemove_none hold]
    exact .refl hb ha

theorem unsubscribeTopics_continues (filters : List Bytes) (hb : InOrder L R Nowhere b) (ha : b.Established a)
    (hends : ∀ f ∈ filters, R.ends a f) : Continues L R a b (unsubscribeTopics a filters b).2 := by
  induction filters generalizing b with
  | nil => exact .refl hb ha
  | cons f rest ih =>
    refine .bind (subsRemove_continues hb ha (hends f List.mem_cons_self)) fun hb₁ ha₁ => ?_
    exact ih hb₁ ha₁ fun f' hf' => hends f' (List.mem_cons_of_mem _ hf')

theorem handleUnsubscribe_continues (hb : InOrder L R Nowhere b) (ha : b.Established a)
    (decoded : Except DecodeError InUnsubscribe) (hallows : Allows L R b a (.unsubscribe decoded)) :
    Continues L R a b (handleUnsubscribe L a decoded b).2 := by
  cases decoded with
  | error e => exact .refl hb ha
  | ok unsub =>
    refine .bind (unsubscribeTopics_continues _ hb ha hallows) fun hb₁ ha₁ => ?_
    refine .bind (hb₁.writesOn ha₁ _ (sendUnsubAck_writes unsub)) fun hb₂ ha₂ => ?_
    exact .bind (storeSubs_continues hb₂ ha₂ _) fun hb₃ ha₃ => .refl hb₃ ha₃


/-! ### DISCONNECT -/

variable (L) in
/-- `b'` is `b` with the connection at `a` about to leave, perhaps with another expiry. -/
structure Leaving (a : Nat) (b b' : MqttBroker) : Prop where
  phase : Phase L Nowhere b'
  blank : ∀ c ∈ b'.clients, c.sessionEstablished = false → c.addr ≠ a → c.Blank
  allocs : b'.env.allocs <:+ b.env.allocs
  seen : ∃ c, Seen b.table a c b' ∧ c.sessionEstablished = true

theorem Leaving.follows (hb : InOrder L R Nowhere b) (h : Leaving L a b b') : Proceeds L R Nowhere b (followDisconnect L a b').2 := by
  obtain ⟨c, hseen, hlive⟩ := h.seen
  have hleave : Advances L (fun _ => True) (fun _ => True) Nowhere b' (leaveSession L a b').2 :=
    leaveSession_advances ⟨trivial, trivial⟩ trivial h.phase a
  have hgone : Advances L (fun _ => True) (fun _ => True) Nowhere b' (followDisconnect L a b').2 :=
    followDisconnect_advances ⟨trivial, trivial⟩ trivial h.phase nowhere
  have hample : R.sure → ∀ ok ∈ b'.env.allocs, ok = true := fun hsure ok hok => hb.ample hsure ok (h.allocs.subset hok)
  have hdeparts : Departs L R b.table a b' (leaveSession L a b').2 := leaveSession_departs h.phase hample hseen fun he =>
    absurd (hlive.symm.trans he) (by decide)
  obtain ⟨hafter, hrun⟩ := hdeparts.removed hb.tidy (fun x hx hne he _ => h.blank x hx he hne) hample hleave.phase hgone.phase
  exact ⟨hafter, hrun⟩

/-- The expiry of a session that goes is no step of the table. -/
theorem Leaving.expires (hb : InOrder L R Nowhere b) {c : BrokerClient} (hc : b.client? a = some c)
    (hlive : c.sessionEstablished = true) {f : BrokerClient → BrokerClient}
    (hf : ∃ expirySec, (f c).sconn = {c.sconn with expirySec := expirySec}) (hphase : Phase L Nowhere (b.updateClient a f)) :
    Leaving L a b (b.updateClient a f) := by
  obtain ⟨expirySec, hf⟩ := hf
  have haddr : (f c).addr = a := (congrArg SConn.addr hf).trans (Chain.at?_addr (x := c) hc)
  have hconns := updateClient_conns (b := b) hc hf
  refine ⟨hphase, fun x hx he hne => ?_, List.suffix_refl _, f c, ⟨Chain.at?_writeAt_self hc haddr, ?_, ?_, ?_⟩, ?_⟩
  · rcases Chain.mem_writeAt_nodup hb.phase.nodup hx with ⟨hx, -⟩ | ⟨y, hy, rfl⟩
    · exact hb.blank x hx he id
    · obtain rfl := Option.some.inj (hc.symm.trans hy)
      exact absurd haddr hne
  · exact ⟨c.sconn, table_conn?_some hc, (congrArg SConn.established hf).symm, (congrArg SConn.clientId hf).symm⟩
  · rfl
  · rw [hconns]
    exact (Chain.removeAt_writeAt fun x hx => (congrArg SConn.addr hf).symm.trans haddr).symm
  · exact (congrArg SConn.established hf).trans hlive

/-- What the connection publishes as it leaves. -/
theorem Leaving.fans (h : Leaving L a b b') {b'' : MqttBroker} {P : Label → Prop} {O : Prop}
    (hfans : Fans L P (fun x => b'.Subscribed x ∨ x = a) O b' b'') (hphase : Phase L Nowhere b'') : Leaving L a b b'' := by
  obtain ⟨c, hseen, hlive⟩ := h.seen
  have htable := hfans.spread.table
  obtain ⟨y, hy, hsconn⟩ := client?_sconn_of_table htable hseen.client
  obtain ⟨c₀, hat, he, hid⟩ := hseen.at_
  have hblank := hfans.spread.blank (Y := (· = a)) h.phase h.blank fun x hx => hx.imp (h.phase.owned x) id
  refine ⟨hphase, hblank, hfans.spread.spends.allocs.trans h.allocs, y, ⟨hy, ⟨c₀, hat, ?_, ?_⟩, ?_, ?_⟩, ?_⟩
  · exact he.trans (congrArg SConn.established hsconn).symm
  · exact hid.trans (congrArg SConn.clientId hsconn).symm
  · rw [htable]
    exact hseen.table
  · rw [htable]
    exact hseen.conns
  · exact (congrArg SConn.established hsconn).trans hlive

theorem clearWill_leaving (hb : InOrder L R Nowhere b) (ha : b.Established a) :
    Leaving L a b (b.updateClient a BrokerClient.clearWill) := by
  obtain ⟨c, hc, hlive⟩ := ha
  exact .expires hb hc hlive ⟨c.sessionExpirySec, rfl⟩
    (clearWill_advances (P := fun _ => True) (Z := fun _ => True) hb.phase a).phase

/-- A DISCONNECT that is no protocol error sets the expiry and disposes of the Will. -/
theorem applyDisconnect_leaving (hb : InOrder L R Nowhere b) {c : BrokerClient} (hc : b.client? a = some c)
    (hlive : c.sessionEstablished = true) (d : InDisconnect) :
    (applyDisconnect L a c d b = (false, b)) ∨
      (applyDisconnect L a c d b).1 = true ∧ Leaving L a b (applyDisconnect L a c d b).2 := by
  unfold applyDisconnect
  split
  · exact .inl rfl
  refine .inr ⟨rfl, ?_⟩
  generalize (findProp d.props .sessionExpiryInterval).map (·.dataInt) = expiry
  let rewrite : BrokerClient → BrokerClient := fun c => {c with sessionExpirySec := expiry.getD c.sessionExpirySec}
  have hexpiry : Advances L (fun _ => True) (fun _ => True) Nowhere b (b.updateClient a rewrite) := by
    refine updateClient_advances (f := rewrite) hb.phase (fun c _ => ?_) (fun _ _ => rfl)
    exact SameConn.tended ⟨rfl, rfl, ⟨rfl, rfl⟩, ⟨rfl, rfl⟩, .inl ⟨rfl, rfl⟩⟩ fun _ h => ⟨h.1, h.2, h.3, h.4⟩
  have hleaving : Leaving L a b (b.updateClient a rewrite) := .expires hb hc hlive ⟨expiry.getD c.sessionExpirySec, rfl⟩ hexpiry.phase
  show Leaving L a b (disconnectWill L a d.reasonCode (b.updateClient a rewrite)).2
  unfold disconnectWill
  split
  · have hfans := publishWill_fans (L := L) (P := fun _ => True) (O := True) (b := b.updateClient a rewrite)
      (T := fun x => (b.updateClient a rewrite).Subscribed x ∨ x = a) ⟨trivial, trivial⟩ (.inr rfl) fun x hx => .inl hx
    exact hleaving.fans hfans
      (publishWill_advances (P := fun _ => True) (Z := fun _ => True) ⟨trivial, trivial⟩ hleaving.phase a).phase
  · have hclear : (b.updateClient a rewrite).updateClient a BrokerClient.clearWill =
        b.updateClient a (fun c => (rewrite c).clearWill) := by
      show {b with clients := Chain.writeAt a BrokerClient.clearWill (Chain.writeAt a rewrite b.clients)} = _
      rw [Chain.writeAt_writeAt (f := rewrite) fun _ hx => hx]
      rfl
    have hphase := (clearWill_advances (P := fun _ => True) (Z := fun _ => True) hexpiry.phase a).phase
    show Leaving L a b ((b.updateClient a rewrite).updateClient a BrokerClient.clearWill)
    rw [hclear] at hphase ⊢
    exact .expires hb hc hlive ⟨expiry.getD c.sessionExpirySec, rfl⟩ hphase

theorem handleDisconnect_proceeds (hb : InOrder L R Nowhere b) (ha : b.Established a) (remainLen : Nat)
    (decoded : Except DecodeError InDisconnect) : Proceeds L R Nowhere b (handleDisconnect L a remainLen decoded b).2 := by
  have hquiet : Proceeds L R Nowhere b
      ((do modify (·.updateClient a BrokerClient.clearWill); followDisconnect L a : BrokerM Unit) b).2 :=
    (clearWill_leaving hb ha).follows hb
  obtain ⟨c, hc, hlive⟩ := ha
  have hclose : Proceeds L R Nowhere b (abnormalClose L a b).2 :=
    abnormalClose_proceeds hb (MqttBroker.Established.unnamed ⟨c, hc, hlive⟩) nowhere
  simp only [handleDisconnect, run_bind, run_get, hc]
  split
  · exact hclose
  split
  · cases decoded with
    | error e => exact hquiet
    | ok d =>
      rcases applyDisconnect_leaving hb hc hlive d with heq | ⟨hok, hleaving⟩
      · simp only [run_bind, heq]
        exact hclose
      · simp only [run_bind, hok, if_true]
        exact hleaving.follows hb
  · exact hquiet

/-- A packet of a live connection. -/
theorem live_proceeds (hb : InOrder L R Nowhere b) {c : BrokerClient} (hc : b.client? a = some c) (hlive : c.connected = true)
    (p : InPacket) (hp : p.isConnect = false) (hallows : Allows L R b a p) : Proceeds L R Nowhere b (dispatch L a p b).2 := by
  obtain ⟨he, -, hroom⟩ := (hb.phase.sound c (Chain.at?_mem hc)).live hlive
  have ha : b.Established a := ⟨c, hc, he⟩
  cases p with
  | connect decoded => cases hp
  | publish decoded => exact (handlePublish_continues hb ha decoded).closes
  | publishAck decoded => exact onAck_proceeds hb ha decoded fun packetId _ => onPubAck_serves trivial packetId fun _ _ _ => trivial
  | publishRec decoded =>
    exact (hb.servesOn ha _ fun c _ => handlePublishRec_serves trivial hroom decoded ⟨c, b.env⟩).closes
  | publishRel decoded => exact (hb.mindsOn ha _ (handlePublishRel_minds decoded)).closes
  | publishComp decoded => exact onAck_proceeds hb ha decoded fun packetId => onPubComp_serves trivial packetId
  | subscribe decoded => exact (handleSubscribe_continues hb ha decoded hallows).closes
  | unsubscribe decoded => exact (handleUnsubscribe_continues hb ha decoded hallows).closes
  | pingReq remainLen =>
    simp only [dispatch]
    split
    · exact .bind (abnormalClose_proceeds hb ha.unnamed nowhere) fun hb₁ => .refl hb₁
    · exact (hb.writesOn ha _ (sendPingResp_writes L)).closes
  | disconnect remainLen decoded => exact .bind (handleDisconnect_proceeds hb ha remainLen decoded) fun hb₁ => .refl hb₁
  | unhandled => exact .bind (abnormalClose_proceeds hb ha.unnamed nowhere) fun hb₁ => .refl hb₁

/-! ### Before a packet is read -/

theorem finishDirect_proceeds (hb : InOrder L R Nowhere b) : Proceeds L R Nowhere b (finishDirect L a b).2 := by
  simp only [finishDirect, run_bind, run_get]
  cases hc : b.client? a with
  | none => exact .refl hb
  | some c =>
    dsimp only
    split
    · rename_i hpend
      have hresume : Proceeds L R Nowhere b (resumeDirect L a b).2 := by
        refine resumeDirect_proceeds hb fun x hx => ?_
        obtain rfl := Option.some.inj (hc.symm.trans hx)
        exact hpend
      exact .bind hresume fun hb₁ => .bind (.when_at hb₁ fun _ => checkTimeouts_proceeds hb₁) fun hb₂ => .refl hb₂
    · exact .refl hb

theorem finishQueued_proceeds (hb : InOrder L R Nowhere b) : Proceeds L R Nowhere b (finishQueued L a b).2 := by
  simp only [finishQueued, run_bind, run_get]
  cases hc : b.client? a with
  | none => exact .refl hb
  | some c =>
    dsimp only
    split
    · rename_i hpend
      have hresume : Proceeds L R Nowhere b (resumeConnAck L a b).2 := by
        refine resumeConnAck_proceeds hb fun x hx => ?_
        obtain rfl := Option.some.inj (hc.symm.trans hx)
        exact hpend
      exact .bind hresume fun hb₁ => .bind (.when_at hb₁ fun _ => checkTimeouts_proceeds hb₁) fun hb₂ => .refl hb₂
    split
    · rename_i hlive
      have ha : b.Established a := ⟨c, hc, ((hb.phase.sound c (Chain.at?_mem hc)).live hlive.1).1⟩
      have hdrain : Continues L R a b (onClient a 0 (drainOutQueue L) b).2 :=
        hb.servesOn ha (0 : Int) fun c _ => drainOutQueue_serves trivial ⟨c, b.env⟩
      refine .bind hdrain.toProceeds fun hb₁ => ?_
      split
      · exact .bind (checkTimeouts_proceeds hb₁) fun hb₂ => .refl hb₂
      split
      · exact .bind (abnormalClose_proceeds hb₁ hdrain.established.unnamed nowhere) fun hb₂ => .refl hb₂
      · exact .refl hb₁
    · exact .refl hb

theorem finishWrites_proceeds (hb : InOrder L R Nowhere b) : Proceeds L R Nowhere b (finishWrites L a b).2 := by
  refine .bind (finishDirect_proceeds hb) fun hb₁ => ?_
  split
  · exact finishQueued_proceeds hb₁
  · exact .refl hb₁

/-! ### A turn -/

theorem stampRx_proceeds (hb : InOrder L R Nowhere b) (a : Nat) : Proceeds L R Nowhere b (stampRx a b).2 := by
  refine .bind (getTime_proceeds hb) fun hb₁ => ?_
  have hphase := (stampRx_advances (P := fun _ => True) (Z := fun _ => True) hb.phase a).phase
  refine hb₁.update (f := fun c => {c with lastRx := _}) hphase (fun c _ => ⟨rfl, fun _ hblank _ => ?_⟩) nowhere
  have hblank := hblank id
  exact ⟨hblank.direct, hblank.willless, hblank.refused, hblank.unnamed, hblank.unwatched⟩

/-- A packet that arrives on a connection that no CONNACK is pending on. -/
theorem receivePacket_proceeds (hb : InOrder L R Nowhere b) {c : BrokerClient} (hc : b.client? a = some c)
    (hopen : c.sockOpen = true) (hpend : c.connackPendingLen = 0) (valid : Bool) (p : InPacket)
    (hallows : valid = true → c.hears p = true → Allows L R (stampRx a b).2 a p) :
    Proceeds L R Nowhere b (receivePacket L a valid p b).2 := by
  refine .bind (stampRx_proceeds hb a) fun hb₁ => ?_
  have hc₁ := stampRx_client? hc
  generalize (stampRx a b).2 = b₁ at hb₁ hc₁ hallows ⊢
  simp only [run_bind, run_get, hc₁]
  have hnew : c.connected = false → c.sessionEstablished = false := by
    intro hconn
    by_contra h
    exact (hb₁.phase.settled _ (Chain.at?_mem hc₁) id hopen hconn (by simpa using h)).1 hpend
  have hdrop : c.connected = false → Proceeds L R Nowhere b₁ (dropClient a b₁).2 := by
    refine fun hconn => dropClient_proceeds hb₁ (fun x hx he => ?_) nowhere
    obtain rfl := Option.some.inj (hc₁.symm.trans hx)
    exact absurd ((hnew hconn).symm.trans he) (by decide)
  have hclose : Proceeds L R Nowhere b₁ (abnormalClose L a b₁).2 := by
    refine abnormalClose_proceeds hb₁ (hb₁.unnamed fun x hx _ => ?_) nowhere
    obtain rfl := Option.some.inj (hc₁.symm.trans hx)
    exact hpend
  have hgo : Proceeds L R Nowhere b₁ (dispatch L a p b₁).2 → Proceeds L R Nowhere b₁
      ((if (dispatch L a p b₁).1 = true then checkTimeouts L a else pure () : BrokerM Unit) (dispatch L a p b₁).2).2 := by
    refine fun h => h.trans fun hb₂ => ?_
    split
    · exact checkTimeouts_proceeds hb₂
    · exact .refl hb₂
  cases valid with
  | false =>
    simp only [Bool.not_false, if_true]
    cases hconn : c.connected with
    | true => exact hclose
    | false => exact hdrop hconn
  | true =>
    simp only [Bool.not_true, Bool.false_eq_true, if_false]
    cases hconn : c.connected with
    | true =>
      cases hp : p.isConnect with
      | true =>
        simp only [Bool.not_true, Bool.false_eq_true, if_false, and_self, if_true]
        exact hclose
      | false =>
        have hhears : c.hears p = true := by simp [BrokerClient.hears, hopen, hconn, hp]
        simp only [Bool.not_true, Bool.false_eq_true, and_false, false_and, if_false]
        exact hgo (live_proceeds hb₁ hc₁ hconn p hp (hallows rfl hhears))
    | false =>
      cases hp : p.isConnect with
      | true =>
        have hhears : c.hears p = true := by simp [BrokerClient.hears, hopen, hconn, hp]
        simp only [Bool.not_true, Bool.false_eq_true, and_false, false_and, if_false]
        cases p with
        | connect decoded => exact hgo (connect_proceeds hb₁ hc₁ hopen hconn hpend decoded (hallows rfl hhears))
        | _ => cases hp
      | false =>
        simp only [Bool.not_false, and_self, if_true]
        exact hdrop hconn

theorem receive_proceeds (hb : InOrder L R Nowhere b) (hpend : ∀ c, b.client? a = some c → c.connackPendingLen = 0) (rx : Rx)
    (hallows : ∀ p, rx = .packet true p → (b.client? a).any (·.hears p) = true → Allows L R (stampRx a b).2 a p) :
    Proceeds L R Nowhere b (receive L a rx b).2 := by
  have hclose : Proceeds L R Nowhere b (abnormalClose L a b).2 :=
    abnormalClose_proceeds hb (hb.unnamed fun c hc _ => hpend c hc) nowhere
  simp only [receive, run_bind, run_get]
  cases hc : b.client? a with
  | none => exact .refl hb
  | some c =>
    dsimp only
    cases hopen : c.sockOpen with
    | false => exact hclose
    | true =>
      cases rx with
      | nothing => exact checkTimeouts_proceeds hb
      | failed => exact hclose
      | packet valid p =>
        refine receivePacket_proceeds hb hc hopen (hpend c hc) valid p fun hvalid hhears => ?_
        subst hvalid
        exact hallows p rfl (by rw [hc]; exact hhears)

/-! ### An event -/

/-- A connection comes. -/
theorem clientAdd_proceeds (hb : InOrder L R Nowhere b) (hjoins : R.joins b.env.nextAddr) :
    Proceeds L R Nowhere b (clientAdd b).2 := by
  have hadv : Advances L (fun _ => True) (fun _ => True) Nowhere b (clientAdd b).2 := clientAdd_advances ⟨trivial, trivial⟩ hb.phase
  refine alloc_at (R := fun b b' => Phase L Nowhere b' → Proceeds L R Nowhere b b') (fun env _ _ hspends hphase => ?_)
    (fun env _ _ hspends hphase => ?_) hadv.phase
  · exact hb.env hphase hspends
  have htime := trans_of Env.Spends hspends (.getTime env)
  refine .of_run hb hphase (fun c hc he _ => ?_) htime.allocs fun _ _ => .single ?_
  · rcases List.mem_cons.mp hc with rfl | hc
    · exact ⟨rfl, rfl, fun h => absurd rfl h, fun _ => ⟨rfl, rfl⟩, fun _ => rfl⟩
    · exact hb.blank c hc he id
  · have hfresh : ∀ c ∈ b.table.conns, c.addr ≠ b.env.nextAddr := by
      intro c hc
      obtain ⟨x, hx, rfl⟩ := List.mem_map.mp hc
      exact Nat.ne_of_lt (hb.phase.queues.conns_lt x.view (List.mem_map_of_mem hx))
    let b₁ : MqttBroker := {b with
      clients := {addr := b.env.nextAddr, lastRx := env.getTime.1} :: b.clients
      env := env.getTime.2}
    have htable : b₁.table = {b.table with conns := {addr := b.env.nextAddr} :: b.table.conns} := by
      simp only [MqttBroker.table, b₁, htime.sessions, List.map_cons]
      rfl
    show SStep L R b.table b₁.table
    rw [htable]
    exact .join hfresh hjoins

theorem sweep_proceeds (hb : InOrder L R Nowhere b) : Proceeds L R Nowhere b (sweep b).2 := by
  refine .bind (getTime_proceeds hb) fun hb₁ => Moves.get_at (R := Proceeds L R Nowhere) (.when_at hb₁ fun _ => ?_)
  refine .bind (orphanExpireSweep_proceeds hb₁) fun hb₂ => ?_
  exact .quiet hb₂ {hb₂.phase with} rfl hb₂.blank (List.suffix_refl _)

/-- What is supposed of an event for the table to be followed through it. -/
structure Follows (L : Limits) (R : Terms) (b : MqttBroker) (e : Event × Script) : Prop where
  allows : OnPacket L (Allows L R) b e
  joins : e.1 = .accept → R.joins b.env.nextAddr
  ample : R.sure → ∀ ok ∈ e.2.allocs, ok = true

/-- One event of the broker, in the session table. -/
theorem step_proceeds (hb : InOrder L R Nowhere b) (e : Event × Script) (hfollows : Follows L R b e) :
    Proceeds L R Nowhere b (step L b e) := by
  obtain ⟨ev, script⟩ := e
  obtain ⟨hallows, hjoins, hample⟩ := hfollows
  have harm : InOrder L R Nowhere {b with env := b.env.arm script} := ⟨{hb.phase with}, hb.blank, hample, hb.tidy⟩
  suffices h : Proceeds L R Nowhere {b with env := b.env.arm script} (step L b (ev, script)) from ⟨h.after, h.run⟩
  cases ev with
  | sweep => exact sweep_proceeds harm
  | accept => exact clientAdd_proceeds harm (hjoins rfl)
  | pendingWills => exact (pendingWillProcess_fans ⟨trivial, trivial⟩ harm.phase.owned).proceeds harm
  | process a rx =>
    have hpend := @finishWrites_true L {b with env := b.env.arm script} a
    refine .bind (finishWrites_proceeds harm) fun hb₂ => ?_
    have hdisp : ∀ p, rx = .packet true p → (finishWrites L a {b with env := b.env.arm script}).1 = true →
        ((finishWrites L a {b with env := b.env.arm script}).2.client? a).any (·.hears p) = true →
        Allows L R (stampRx a (finishWrites L a {b with env := b.env.arm script}).2).2 a p := by
      rintro p rfl hgo hhears
      refine hallows (a, p, (stampRx a (finishWrites L a {b with env := b.env.arm script}).2).2) ?_
      simp only [dispatched, hgo, hhears, Bool.and_self, if_true]
      rfl
    generalize finishWrites L a {b with env := b.env.arm script} = r at hb₂ hpend hdisp ⊢
    obtain ⟨go, b₂⟩ := r
    cases go with
    | false => exact .refl hb₂
    | true => exact receive_proceeds hb₂ (fun c hc => hpend rfl hc) rx fun p hrx hhears => hdisp p hrx rfl hhears

end turn

end WolfMqtt.Broker
