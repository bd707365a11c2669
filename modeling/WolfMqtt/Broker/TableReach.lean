import WolfMqtt.Broker.FanOut
import WolfMqtt.Broker.TableTurn

/-! The session table in every state of a run.

The broker's runs are runs of the session table, as long as an accepted CONNECT finds the
session under its client id. Then every session stays in one place, what a connection is
subscribed to is up to its own packets, and where allocations succeed the stored sessions
are those that would outlive their connection. -/
namespace WolfMqtt.Broker

section runs
variable {L : Limits} {R : Terms} {b : MqttBroker}

/-! ### Runs of the broker -/

theorem initial_inOrder (L : Limits) (R : Terms) (authUser authPass : Option Bytes) :
    InOrder L R Nowhere (initial authUser authPass) where
  phase := initial_phase L authUser authPass
  blank c hc := by cases hc
  ample _ ok hok := by cases hok
  tidy _ := by
    constructor
    case nodup | orphanNodup | distinct => exact List.nodup_nil
    case unique => exact List.Pairwise.nil
    case count => rfl
    case bounded => exact Nat.zero_le _
    all_goals
      intro x hx
      cases hx

/-- A run of the broker, in the session table. -/
theorem run_proceeds (hb : InOrder L R Nowhere b) {es : List (Event × Script)} (h : Along (step L) (Follows L R) b es) :
    Proceeds L R Nowhere b (run L b es) :=
  Along.invariant (I := Proceeds L R Nowhere b)
    (fun _ e hs hfollows => hs.trans fun hin => step_proceeds hin e hfollows) es b h (.refl hb)

/-! ### What is supposed of a run -/

/-- The store is left out, and anything may be subscribed to. -/
def orderly : Terms where
  ordered := True
  named clientId _ := clientId ≠ []
  sure := False
  grants _ _ := True
  ends _ _ := True
  joins _ := True
  nonempty h := h
  keyed h := h.elim
  watched h := h.elim

theorem autoId_ne_nil (n : Nat) : autoId n ≠ [] := by
  simp [autoId, autoPrefix]

theorem connectId_ne_nil {c : BrokerClient} (hid : c.clientId = none) (n : Nat) (mc : InConnect) : connectId c n mc ≠ [] := by
  unfold connectId
  split
  · rw [hid]
    exact autoId_ne_nil n
  · rename_i hempty
    exact fun hnil => hempty (by rw [hnil]; rfl)

theorem FindsSession.allows {a : Nat} {p : InPacket} (h : FindsSession L b a p) : Allows L orderly b a p := by
  unfold Allows
  split
  · exact fun _ _ => ⟨h, fun c _ hid => connectId_ne_nil hid _ _⟩
  · exact fun _ _ => trivial
  · exact fun _ _ => trivial
  · trivial

theorem OnPacket.follows {e : Event × Script} (h : OnPacket L (FindsSession L) b e) : Follows L orderly b e :=
  ⟨h.imp fun _ _ _ hp => hp.allows, fun _ => trivial, False.elim⟩

/-- In a run whose accepted CONNECTs find their session, every session is in one place between two
events: with the one connection that has it or with the one orphan, and its subscriptions with it. -/
theorem run_tidy (authUser authPass : Option Bytes) (es : List (Event × Script))
    (h : Along (step L) (OnPacket L (FindsSession L)) (initial authUser authPass) es) :
    Tidy L (fun clientId _ => clientId ≠ []) (run L (initial authUser authPass) es).table :=
  (run_proceeds (initial_inOrder L orderly authUser authPass) (h.imp fun _ _ hfinds => hfinds.follows)).after.tidy trivial

/-- The subscriber's second connection takes its first one over. -/
theorem run_tidy_takeover :
    Tidy {} (fun clientId _ => clientId ≠ []) (run {} (initial none none) (subscriberAndPublisher ++
      [(.accept, {}), packetFrom 6 (.connect (.ok subscriberReturns))])).table :=
  run_tidy none none _ (by decide +kernel)

/-! ### What is stored -/

/-- Every allocation succeeds, and no CONNECT is without a Keep Alive. -/
def stored : Terms where
  ordered := True
  named clientId keepAlive := (clientId ≠ [] ∧ clientId.length < 65536) ∧ keepAlive ≠ 0
  sure := True
  grants _ _ := True
  ends _ _ := True
  joins _ := True
  nonempty h := h.1.1
  keyed _ _ _ h := by rw [sessionKey, Nat.mod_eq_of_lt h.1.2, List.take_length]
  watched _ _ _ h := h.2

/-- A CONNECT with a Keep Alive, and a client id as long as its length field can say. -/
def InPacket.Storable : InPacket → Prop
  | .connect (.ok mc) => mc.clientId.length < 65536 ∧ mc.keepAliveSec ≠ 0
  | _ => True

instance : (p : InPacket) → Decidable p.Storable
  | .connect (.ok _) => inferInstanceAs (Decidable (_ ∧ _))
  | .connect (.error _) | .publish _ | .publishAck _ | .publishRec _ | .publishRel _ | .publishComp _ | .subscribe _
  | .unsubscribe _ | .pingReq _ | .disconnect _ _ | .unhandled => isTrue trivial

theorem hexDigits_length (digits n : Nat) : (hexDigits digits n).length = digits := by
  induction digits generalizing n with
  | zero => rfl
  | succ digits ih => rw [hexDigits, List.length_append, ih, List.length_singleton]

theorem FindsSession.stores {a : Nat} {p : InPacket} (h : FindsSession L b a p) (hp : p.Storable) : Allows L stored b a p := by
  unfold Allows
  split
  · rename_i mc
    refine fun _ _ => ⟨h, fun c _ hid => ⟨⟨connectId_ne_nil hid _ _, ?_⟩, hp.2⟩⟩
    unfold connectId
    split
    · rw [hid, Option.getD_none, autoId, List.length_append, hexDigits_length]
      decide
    · exact hp.1
  · exact fun _ _ => trivial
  · exact fun _ _ => trivial
  · trivial

/-- In a run in which every allocation succeeds, accepted CONNECTs find their session and have a
Keep Alive, the stored sessions are those of the connections and orphans that would outlive a
restart, each with its level, its expiry and the moment its connection ended. -/
theorem run_mirrors (authUser authPass : Option Bytes) (es : List (Event × Script))
    (h : Along (step L) (fun b e => OnPacket L (fun b a p => FindsSession L b a p ∧ p.Storable) b e ∧ ∀ ok ∈ e.2.allocs, ok = true)
      (initial authUser authPass) es) : Mirrors (run L (initial authUser authPass) es).table := by
  have hstart : InOrder L stored Nowhere (initial authUser authPass) := initial_inOrder L stored authUser authPass
  have hrun : SRun L stored _ _ := (run_proceeds hstart (h.imp fun b e hQ =>
    ⟨hQ.1.imp fun _ _ _ hp => hp.1.stores hp.2, fun _ => trivial, fun _ => hQ.2⟩)).run trivial
  refine hrun.mirrors trivial (hstart.tidy trivial) ⟨?_, ?_, fun _ _ _ => rfl⟩
  · intro c hc
    cases hc
  · intro o ho
    cases ho


/-- A CONNECT for a session that lasts a hundred seconds without a connection. -/
def departingConnect : InConnect where
  protocolLevel := 5
  cleanSession := false
  clientId := [0x73]
  keepAliveSec := 60
  props := [{type := .sessionExpiryInterval, dataInt := 100}]

/-- Its connection leaves. -/
def departure : List (Event × Script) :=
  [(.accept, {}), packetFrom 1 (.connect (.ok departingConnect)), packetFrom 1 (.disconnect 0 (.ok {reasonCode := 0}))]

theorem run_mirrors_departure : (run {} (initial none none) departure).table.records [0x73] = some ⟨5, 100, 0⟩ := by
  have hmirrors := run_mirrors (L := {}) none none departure (by decide +kernel)
  exact hmirrors.orphans ⟨6, [0x73], 5, 100, 0⟩ (by decide +kernel)

/-! ### What a connection is subscribed to -/

section lists
variable {α : Type} {p q : α → Bool} {l : List α}

theorem filter_eraseP_of_disjoint (h : ∀ x, q x → p x = false) : (l.eraseP q).filter p = l.filter p := by
  induction l with
  | nil => rfl
  | cons x rest ih =>
    rw [List.eraseP_cons]
    cases hq : q x with
    | true => rw [cond_true, List.filter_cons_of_neg (by simp [h x hq])]
    | false => rw [cond_false, List.filter_cons, List.filter_cons, ih]

theorem filter_replaceF_of_disjoint {f : α → Option α} (h : ∀ x y, f x = some y → p x = false ∧ p y = false) :
    (l.replaceF f).filter p = l.filter p := by
  induction l with
  | nil => rfl
  | cons x rest ih =>
    rw [List.replaceF]
    cases hx : f x with
    | none => rw [List.filter_cons, List.filter_cons, ih]
    | some y =>
      obtain ⟨hpx, hpy⟩ := h x y hx
      rw [List.filter_cons_of_neg (by simp [hpy]), List.filter_cons_of_neg (by simp [hpx])]

theorem filter_filter_of_inside (h : ∀ x ∈ l, p x = true → q x = true) : (l.filter q).filter p = l.filter p := by
  rw [List.filter_filter]
  refine List.filter_congr fun x hx => ?_
  cases hp : p x with
  | true => rw [h x hx hp, Bool.and_self]
  | false => rw [Bool.false_and]

theorem filter_map_of_outside {f : α → α} (h : ∀ x ∈ l, f x = x ∨ p x = false ∧ p (f x) = false) :
    (l.map f).filter p = l.filter p := by
  induction l with
  | nil => rfl
  | cons x rest ih =>
    have ih := ih fun y hy => h y (List.mem_cons_of_mem _ hy)
    rw [List.map_cons, List.filter_cons, List.filter_cons, ih]
    rcases h x List.mem_cons_self with hx | ⟨hx, hfx⟩
    · rw [hx]
    · rw [hx, hfx]
      rfl

end lists

namespace STable

/-- The entries of the connection at `a` for a filter. -/
def grant (t : STable) (a : Nat) (filter : Bytes) : List BrokerSub :=
  t.subs.filter (fun s => s.client = some a ∧ s.filter = filter)

/-- The connection at `a` is gone, or it has a session and these entries for the filter. -/
def Holds (t : STable) (a : Nat) (filter : Bytes) (g : List BrokerSub) : Prop :=
  t.conn? a = none ∨ (∃ c, t.conn? a = some c ∧ c.established = true) ∧ t.grant a filter = g

end STable

theorem conn?_none_iff {t : STable} {a : Nat} : t.conn? a = none ↔ ∀ c ∈ t.conns, c.addr ≠ a := by
  refine ⟨fun h => Chain.addr_ne_of_at?_none h, fun h => List.find?_eq_none.mpr fun c hc heq => ?_⟩
  exact h c hc (of_decide_eq_true heq)

section holds
variable {t t' : STable} {a : Nat} {filter : Bytes} {g : List BrokerSub}

/-- No connection comes back. -/
theorem SStep.gone (hjoins : ¬R.joins a) (hstep : SStep L R t t') (ht : Tidy L R.named t) (h : t.conn? a = none) :
    t'.conn? a = none := by
  rw [conn?_none_iff] at h ⊢
  have hset : ∀ {x : Nat} {c c' : SConn}, t.conn? x = some c → c'.addr = x → ∀ y ∈ (t.setConn x c').conns, y.addr ≠ a := by
    intro x c c' hx haddr y hy
    rcases ht.mem_setConn hy with ⟨hy, -⟩ | rfl
    · exact h y hy
    · rw [haddr, ← show c.addr = x from Chain.at?_addr hx]
      exact h c (Chain.at?_mem hx)
  have hdrop : ∀ x, ∀ y ∈ (t.dropConn x).conns, y.addr ≠ a := fun x y hy => h y (Chain.mem_of_mem_removeAt hy)
  cases hstep with
  | join _ may =>
    intro y hy
    rcases List.mem_cons.mp hy with rfl | hy
    · rintro rfl
      exact hjoins may
    · exact h y hy
  | name at_ _ addr _ _ => exact hset at_ addr
  | @«open» x c c' _ _ _ _ at_ _ addr _ _ _ owner _ _ =>
    intro y hy
    rcases ht.mem_opened owner hy with ⟨hy, -⟩ | rfl
    · exact h y hy
    · rw [addr, ← show c.addr = x from Chain.at?_addr at_]
      exact h c (Chain.at?_mem at_)
  | subscribe at_ _ _ _ => exact hset at_ (Chain.at?_addr at_)
  | resubscribe _ => exact h
  | unsubscribe at_ _ _ => exact hset at_ (Chain.at?_addr at_)
  | close _ _ => exact hdrop _
  | finish _ _ _ _ => exact hdrop _
  | orphan _ _ _ _ _ _ => exact hdrop _
  | expire _ _ => exact h

/-- What a connection is subscribed to stays, but for its own packets. -/
theorem SStep.holds (hjoins : ¬R.joins a) (hgrants : ¬R.grants a filter) (hends : ¬R.ends a filter) (hstep : SStep L R t t')
    (ht : Tidy L R.named t) (h : t.Holds a filter g) : t'.Holds a filter g := by
  obtain hgone | ⟨⟨c, hc, he⟩, rfl⟩ := h
  · exact .inl (hstep.gone hjoins ht hgone)
  have hself : ∀ {x : Nat} {y : SConn}, t.conn? x = some y → y.established = false → x ≠ a := by
    rintro x y hx hnew rfl
    obtain rfl := Option.some.inj (hc.symm.trans hx)
    exact absurd (he.symm.trans hnew) (by decide)
  have hset : ∀ {x : Nat} {y y' : SConn}, t.conn? x = some y → y'.addr = x → (x = a → y'.established = true) →
      ∃ c, (t.setConn x y').conn? a = some c ∧ c.established = true := by
    intro x y y' hx haddr hlive
    by_cases hxa : x = a
    · subst hxa
      exact ⟨y', Chain.at?_writeAt_self (f := fun _ => y') hx haddr, hlive rfl⟩
    · exact ⟨c, (Chain.at?_writeAt_ne_of (fun _ _ => haddr) (Ne.symm hxa)).trans hc, he⟩
  have hdrop : ∀ {x : Nat}, x ≠ a → ∃ c, (t.dropConn x).conn? a = some c ∧ c.established = true := fun hxa =>
    ⟨c, (Chain.at?_removeAt_ne (Ne.symm hxa)).trans hc, he⟩
  have hdropped : ∀ {u : STable}, u.conns = (t.dropConn a).conns → u.conn? a = none := by
    intro u hu
    rw [conn?_none_iff, hu]
    exact fun y hy => (ht.mem_dropConn.mp hy).2
  cases hstep with
  | @join x fresh _ =>
    have hxa : x ≠ a := fun hxa => fresh c (Chain.at?_mem hc) ((Chain.at?_addr hc).trans hxa.symm)
    exact .inr ⟨⟨c, (Chain.at?_cons_ne (x := ({addr := x} : SConn)) hxa t.conns).trans hc, he⟩, rfl⟩
  | name at_ new addr _ _ => exact .inr ⟨hset at_ addr fun hxa => absurd hxa (hself at_ new), rfl⟩
  | @«open» x y c' clientId old keep records at_ new addr named _ other owner _ _ =>
    have hxa := hself at_ new
    by_cases hold : old = some a
    · subst hold
      refine .inl (conn?_none_iff.mpr fun z hz => ?_)
      rcases Chain.mem_writeAt hz with hz | ⟨w, -, rfl⟩
      · exact ((Chain.mem_removeAt ht.nodup).mp hz).2
      · rwa [addr]
    -- the session that is opened is another one
    have hown : ∀ s ∈ t.subs, s.client = some a → s.clientId ≠ some clientId := by
      intro s hs hbound hid
      have haddr : c.addr = a := Chain.at?_addr hc
      have hcid : s.clientId = c.clientId := (ht.bound_iff (Chain.at?_mem hc) he hs).mp (haddr ▸ hbound)
      exact hold (haddr ▸ owner c (Chain.at?_mem hc) he (hcid.symm.trans hid))
    refine .inr ⟨⟨c, ?_, he⟩, ?_⟩
    · refine (Chain.at?_writeAt_ne_of (fun _ _ => addr) (Ne.symm hxa)).trans ?_
      cases old with
      | none => exact hc
      | some w => exact (Chain.at?_removeAt_ne fun haw => hold (congrArg some haw.symm)).trans hc
    · cases keep with
      | false =>
        refine filter_filter_of_inside fun s hs hbound => decide_eq_true (hown s hs ?_)
        exact (of_decide_eq_true hbound).1
      | true =>
        refine filter_map_of_outside fun s hs => ?_
        by_cases hid : s.clientId = some clientId
        · rw [if_pos hid]
          refine .inr ⟨decide_eq_false fun h => hown s hs h.1 hid, decide_eq_false fun h => hxa ?_⟩
          exact Option.some.inj h.1
        · exact .inl (if_neg hid)
  | @subscribe x y f qos at_ live _ may =>
    have hother : ¬(some x = some a ∧ f = filter) := by
      rintro ⟨hx, rfl⟩
      exact hgrants (Option.some.inj hx ▸ may)
    exact .inr ⟨hset at_ (Chain.at?_addr at_) fun _ => live, List.filter_cons_of_neg (by simpa using hother)⟩
  | @resubscribe x f qos may =>
    refine .inr ⟨⟨c, hc, he⟩, filter_replaceF_of_disjoint fun s s' hs => ?_⟩
    split at hs
    · rename_i hold
      have hother : ¬(s.client = some a ∧ s.filter = filter) := by
        rintro ⟨hbound, rfl⟩
        exact hgrants (Option.some.inj (hold.1.symm.trans hbound) ▸ hold.2 ▸ may)
      obtain rfl := Option.some.inj hs
      exact ⟨decide_eq_false hother, decide_eq_false hother⟩
    · cases hs
  | @unsubscribe x y f at_ old may =>
    refine .inr ⟨hset at_ (Chain.at?_addr at_) fun hxa => ?_, filter_eraseP_of_disjoint fun s hs => decide_eq_false ?_⟩
    · subst hxa
      obtain rfl := Option.some.inj (hc.symm.trans at_)
      exact he
    · rintro ⟨hbound, rfl⟩
      obtain ⟨hx, hf⟩ := of_decide_eq_true hs
      exact hends (Option.some.inj (hx.symm.trans hbound) ▸ hf ▸ may)
  | close at_ new => exact .inr ⟨hdrop (hself at_ new), rfl⟩
  | @finish x y _ at_ live _ _ _ =>
    by_cases hxa : x = a
    · subst hxa
      exact .inl (hdropped rfl)
    · refine .inr ⟨hdrop hxa, filter_filter_of_inside fun s _ hbound => decide_eq_true fun hx => hxa ?_⟩
      exact Option.some.inj (hx.symm.trans (of_decide_eq_true hbound).1)
  | @orphan x y o at_ live _ _ _ _ _ =>
    by_cases hxa : x = a
    · subst hxa
      exact .inl (hdropped rfl)
    · refine .inr ⟨hdrop hxa, filter_map_of_outside fun s _ => ?_⟩
      by_cases hx : s.client = some x
      · rw [if_pos hx]
        refine .inr ⟨decide_eq_false fun h => hxa (Option.some.inj (hx.symm.trans h.1)), decide_eq_false ?_⟩
        rintro ⟨⟨⟩, -⟩
      · exact .inl (if_neg hx)
  | expire _ _ =>
    refine .inr ⟨⟨c, hc, he⟩, filter_filter_of_inside fun s _ hbound => ?_⟩
    rw [(of_decide_eq_true hbound).1]
    rfl

theorem SRun.holds (hjoins : ¬R.joins a) (hgrants : ¬R.grants a filter) (hends : ¬R.ends a filter) (hrun : SRun L R t t')
    (ht : Tidy L R.named t) (h : t.Holds a filter g) : t'.Holds a filter g := by
  induction hrun with
  | refl => exact h
  | tail hrun hstep ih => exact hstep.holds hjoins hgrants hends (SRun.tidy hrun ht) ih

end holds

/-- A SUBSCRIBE or an UNSUBSCRIBE that names a filter. -/
def InPacket.Names (filter : Bytes) : InPacket → Prop
  | .subscribe (.ok sub) => ∃ t ∈ sub.topics.take maxTopics, t.filter = filter
  | .unsubscribe (.ok unsub) => filter ∈ unsub.filters.take maxTopics
  | _ => False

instance (filter : Bytes) : (p : InPacket) → Decidable (p.Names filter)
  | .subscribe (.ok _) => inferInstanceAs (Decidable (∃ t ∈ _, _))
  | .unsubscribe (.ok _) => inferInstanceAs (Decidable (_ ∈ _))
  | .connect _ | .publish _ | .publishAck _ | .publishRec _ | .publishRel _ | .publishComp _ | .subscribe (.error _)
  | .unsubscribe (.error _) | .pingReq _ | .disconnect _ _ | .unhandled => isFalse id

/-- No packet of the connection at `a` names the filter, and no other connection comes to `a`. -/
def hushed (a : Nat) (filter : Bytes) : Terms where
  ordered := True
  named clientId _ := clientId ≠ []
  sure := False
  grants x f := ¬(x = a ∧ f = filter)
  ends x f := ¬(x = a ∧ f = filter)
  joins x := x ≠ a
  nonempty h := h
  keyed h := h.elim
  watched h := h.elim

theorem FindsSession.allows_hushed {x a : Nat} {filter : Bytes} {p : InPacket} (h : FindsSession L b x p)
    (hnames : x = a → ¬p.Names filter) : Allows L (hushed a filter) b x p := by
  unfold Allows
  split
  · exact fun _ _ => ⟨h, fun c _ hid => connectId_ne_nil hid _ _⟩
  · rintro t ht ⟨rfl, rfl⟩
    exact hnames rfl ⟨t, ht, rfl⟩
  · rintro f hf ⟨rfl, rfl⟩
    exact hnames rfl hf
  · trivial

theorem step_nextAddr_le (hb : Phase L Nowhere b) (e : Event × Script) : b.env.nextAddr ≤ (step L b e).env.nextAddr := by
  have h : Advances L (fun _ => True) (fun _ => True) Nowhere b (step L b e) :=
    step_advances ⟨trivial, trivial⟩ trivial trivial hb e fun a p b' _ => ⟨.all b' a p, fun _ => trivial⟩
  exact h.run.nextAddr_le

/-- The entries of the connection at `a` for a filter. -/
def MqttBroker.grant (b : MqttBroker) (a : Nat) (filter : Bytes) : List BrokerSub :=
  b.subs.filter (fun s => s.client = some a ∧ s.filter = filter)

/-- What a connection with a session is subscribed to is up to its own SUBSCRIBEs and UNSUBSCRIBEs: as
long as none of them names a filter, no other packet, timeout, takeover or expiry adds, takes
or changes its entry for it while the connection stays. -/
theorem run_grant (authUser authPass : Option Bytes) (es es' : List (Event × Script)) {a : Nat} {filter : Bytes} {c : BrokerClient}
    (hbefore : Along (step L) (OnPacket L (FindsSession L)) (initial authUser authPass) es)
    (hc : (run L (initial authUser authPass) es).client? a = some c) (hlive : c.sessionEstablished = true)
    (h : Along (step L) (OnPacket L fun b x p => FindsSession L b x p ∧ (x = a → ¬p.Names filter))
      (run L (initial authUser authPass) es) es') :
    (run L (initial authUser authPass) (es ++ es')).client? a = none ∨
      (run L (initial authUser authPass) (es ++ es')).grant a filter = (run L (initial authUser authPass) es).grant a filter := by
  let b₁ := run L (initial authUser authPass) es
  let R := hushed a filter
  have hall : InOrder L orderly Nowhere b₁ :=
    (run_proceeds (initial_inOrder L orderly authUser authPass) (hbefore.imp fun _ _ hfinds => hfinds.follows)).after
  have hstart : InOrder L R Nowhere b₁ := ⟨hall.phase, hall.blank, False.elim, fun _ => hall.tidy trivial⟩
  have hlt : a < b₁.env.nextAddr := by
    have haddr : c.addr = a := Chain.at?_addr hc
    exact haddr ▸ hstart.phase.queues.conns_lt c.view (List.mem_map_of_mem (Chain.at?_mem hc))
  have hend : Proceeds L R Nowhere b₁ (run L b₁ es') ∧ a < (run L b₁ es').env.nextAddr := by
    refine Along.invariant (I := fun b => Proceeds L R Nowhere b₁ b ∧ a < b.env.nextAddr) (fun b e hb hQ => ?_) es' b₁ h
      ⟨.refl hstart, hlt⟩
    have hfollows : Follows L R b e := by
      refine ⟨hQ.imp fun _ _ _ hp => hp.1.allows_hushed hp.2, fun _ => ?_, False.elim⟩
      exact Nat.ne_of_gt hb.2
    exact ⟨hb.1.trans fun hin => step_proceeds hin e hfollows, Nat.lt_of_lt_of_le hb.2 (step_nextAddr_le hb.1.after.phase e)⟩
  have hholds : (run L b₁ es').table.Holds a filter (b₁.table.grant a filter) :=
    SRun.holds (R := R) (fun h => h rfl) (fun h => h ⟨rfl, rfl⟩) (fun h => h ⟨rfl, rfl⟩) (hend.1.run trivial) (hstart.tidy trivial)
      (.inr ⟨⟨c.sconn, table_conn?_some hc, hlive⟩, rfl⟩)
  have happend : run L (initial authUser authPass) (es ++ es') = run L b₁ es' := by rw [run, List.foldl_append]; rfl
  rw [happend]
  refine hholds.imp (fun hgone => ?_) And.right
  rw [table_conn?] at hgone
  exact Option.map_eq_none_iff.mp hgone

/-- The publisher sends what the subscriber asked for, and withdraws a filter it never had. -/
def publisherTurns : List (Event × Script) :=
  [messageFrom 4 .qos1 7, packetFrom 4 (.unsubscribe (.ok {packetId := 8, filters := [[0x74]]}))]

theorem run_grant_publisher :
    (run {} (initial none none) (subscriberAndPublisher ++ publisherTurns)).grant 1 [0x74] =
      (run {} (initial none none) subscriberAndPublisher).grant 1 [0x74] := by
  have hlive : ∃ c ∈ (run {} (initial none none) subscriberAndPublisher).client? 1, c.sessionEstablished = true := by
    decide +kernel
  have hstays : ((run {} (initial none none) (subscriberAndPublisher ++ publisherTurns)).client? 1).isSome = true := by
    decide +kernel
  obtain ⟨c, hc, hc'⟩ := hlive
  obtain hgone | hsame := @run_grant {} none none subscriberAndPublisher publisherTurns 1 [0x74] c (by decide +kernel) hc hc'
    (by decide +kernel)
  · rw [hgone] at hstays
    cases hstays
  · exact hsame

end runs

end WolfMqtt.Broker
