import WolfMqtt.Broker.Reach
import WolfMqtt.Broker.RetainedExpiry
import WolfMqtt.Lib.History

/-! Message expiry in the dynamic-memory build.

A message keeps its address and what it carries from the moment it is queued, whichever queues it
moves through; the drain looks at neither its Message Expiry Interval nor the clock. So a
subscriber is sent the interval the publisher gave, however long the message waited. -/
namespace WolfMqtt.Broker
open History

/-! ### What an entry carries -/

/-- What a subscriber is sent of an entry. -/
structure Cargo where
  addr : Nat
  topic : Bytes
  payload : Bytes
  props : List MqttProp
  level : Nat
deriving Repr, DecidableEq

def OutPub.cargo (e : OutPub) : Cargo := ⟨e.addr, e.topic, e.payload, e.props, e.protocolLevel⟩

/-- The Message Expiry Interval of a message. -/
def Cargo.expiry (m : Cargo) : Option Nat := (findProp m.props .msgExpiryInterval).map (·.dataInt)

/-- A queue of the system has this cargo. -/
def QState.Bears (s : QState) (m : Cargo) : Prop :=
  (∃ c ∈ s.conns, ∃ e ∈ c.outQ.chain, e.cargo = m) ∨ ∃ o ∈ s.orphans, ∃ e ∈ o.outQ.chain, e.cargo = m

/-- What one step does to the cargoes: nothing comes, or one under a new address. -/
inductive Shipped (s t : QState) : Prop where
  | none (obs : List Obs) (htrace : t.trace = s.trace ++ obs) (hle : s.nextAddr ≤ t.nextAddr)
    (hobs : ∀ a, Obs.enqueued a ∉ obs) (hsent : ∀ conn ahead e, Obs.sending conn ahead e ∈ obs → s.Bears e.cargo)
    (hbears : ∀ m, t.Bears m → s.Bears m)
  | one (new : Cargo) (htrace : t.trace = s.trace ++ [.enqueued new.addr]) (haddr : new.addr = s.nextAddr)
    (hnext : t.nextAddr = s.nextAddr + 1) (hbears : ∀ m, t.Bears m → s.Bears m ∨ m = new)

section steps
variable {L : Limits} {ℓ : Label}

/-- The same for one connection. -/
inductive CShipped (s t : CState) : Prop where
  | none (obs : List Obs) (htrace : t.trace = s.trace ++ obs) (hle : s.nextAddr ≤ t.nextAddr)
    (hobs : ∀ a, Obs.enqueued a ∉ obs)
    (hsent : ∀ conn ahead e, Obs.sending conn ahead e ∈ obs → e ∈ s.conn.outQ.chain)
    (hbears : ∀ e ∈ t.conn.outQ.chain, ∃ x ∈ s.conn.outQ.chain, x.cargo = e.cargo)
  | one (new : Cargo) (htrace : t.trace = s.trace ++ [.enqueued new.addr]) (haddr : new.addr = s.nextAddr)
    (hnext : t.nextAddr = s.nextAddr + 1)
    (hbears : ∀ e ∈ t.conn.outQ.chain, (∃ x ∈ s.conn.outQ.chain, x.cargo = e.cargo) ∨ e.cargo = new)

theorem update_bears {q : TailQueue OutPub} {a : Nat} {f : OutPub → OutPub} (hf : ∀ e, (f e).cargo = e.cargo) {e : OutPub}
    (h : e ∈ (q.update a f).chain) : ∃ x ∈ q.chain, x.cargo = e.cargo := by
  rcases Chain.mem_writeAt h with h | ⟨x, hx, rfl⟩
  · exact ⟨e, h, rfl⟩
  · exact ⟨x, Chain.at?_mem hx, (hf x).symm⟩

theorem CStep.shipped {s t : CState} (h : CStep L ℓ s t) : CShipped s t := by
  have hsame : ∀ e ∈ s.conn.outQ.chain, ∃ x ∈ s.conn.outQ.chain, x.cargo = e.cargo := fun e he => ⟨e, he, rfl⟩
  have hissued (q : TailQueue OutPub) (id a : Nat) : Obs.enqueued a ∉ issuedFor q id := by simp [issuedFor]
  have hissued' (q : TailQueue OutPub) (id conn : Nat) (ahead : List OutPub) (e : OutPub) :
      Obs.sending conn ahead e ∉ issuedFor q id := by simp [issuedFor]
  cases h with
  | alloc n hn => exact .none [] (List.append_nil _).symm hn (by simp) (by simp) hsame
  | connack => exact .none _ rfl (Nat.le_refl _) (by simp) (by simp) hsame
  | negotiate => exact .none [] (List.append_nil _).symm (Nat.le_refl _) (by simp) (by simp) hsame
  | enqueue e ha =>
    refine .one e.cargo rfl ha rfl fun x hx => ?_
    rcases mem_enqueue hx with hx | rfl
    · exact .inl ⟨x, hx, rfl⟩
    · exact .inr rfl
  | encode => exact .none _ rfl (Nat.le_refl _) (by simp) (by simp) hsame
  | write => exact .none _ rfl (Nat.le_refl _) (by simp) (by simp) hsame
  | send e he =>
    refine .none _ rfl (Nat.le_refl _) (by simp) (fun conn ahead x hx => ?_) hsame
    cases List.mem_singleton.mp hx
    exact he
  | sent e =>
    exact .none _ rfl (Nat.le_refl _) (by simp) (by simp) fun x hx => update_bears (f := OutPub.toSent) (fun _ => rfl) hx
  | sentQos0 e =>
    refine .none [.publishSent e.addr, .left e .qos0Sent] ?_ (Nat.le_refl _) (by simp) (by simp) fun x hx =>
      ⟨x, Chain.mem_of_mem_removeAt hx, rfl⟩
    simp [CState.drop, CState.note, CState.setQueue]
  | unsent e cause =>
    exact .none _ rfl (Nat.le_refl _) (by simp) (by simp) fun x hx => ⟨x, Chain.mem_of_mem_removeAt hx, rfl⟩
  | markDup e dup =>
    exact .none [] (List.append_nil _).symm (Nat.le_refl _) (by simp) (by simp) fun x hx =>
      update_bears (f := OutPub.setDup dup) (fun _ => rfl) hx
  | reissue => exact .none _ rfl (Nat.le_refl _) (by simp) (by simp) hsame
  | received e =>
    exact .none _ rfl (Nat.le_refl _) (hissued _ _) (fun conn ahead x hx => absurd hx (hissued' _ _ _ _ _)) fun x hx =>
      update_bears (f := OutPub.toReleased) (fun _ => rfl) hx
  | receivedMute e =>
    exact .none [] (List.append_nil _).symm (Nat.le_refl _) (by simp) (by simp) fun x hx =>
      update_bears (f := OutPub.toReleased) (fun _ => rfl) hx
  | respond =>
    exact .none _ rfl (Nat.le_refl _) (hissued _ _) (fun conn ahead x hx => absurd hx (hissued' _ _ _ _ _)) hsame
  | acked e cause =>
    exact .none _ rfl (Nat.le_refl _) (by simp) (by simp) fun x hx => ⟨x, Chain.mem_of_mem_removeAt hx, rfl⟩

variable {s t : QState}

/-- The queue of one connection is another. -/
theorem withConn_bears {a : Nat} {u : CState} {m : Cargo} (h : (s.withConn a u).Bears m) :
    s.Bears m ∨ ∃ e ∈ u.conn.outQ.chain, e.cargo = m := by
  rcases h with ⟨c, hc, e, he, hm⟩ | ho
  · rcases Chain.mem_writeAt hc with hc | ⟨_, -, rfl⟩
    · exact .inl (.inl ⟨c, hc, e, he, hm⟩)
    · exact .inr ⟨e, he, hm⟩
  · exact .inl (.inr ho)

theorem setOrphan_bears {a : Nat} {q : TailQueue OutPub} {m : Cargo} (h : (s.setOrphan a q).Bears m) :
    s.Bears m ∨ ∃ e ∈ q.chain, e.cargo = m := by
  rcases h with hc | ⟨o, ho, e, he, hm⟩
  · exact .inl (.inl hc)
  · rcases Chain.mem_writeAt ho with ho | ⟨_, -, rfl⟩
    · exact .inl (.inr ⟨o, ho, e, he, hm⟩)
    · exact .inr ⟨e, he, hm⟩

theorem QStep.shipped (h : QStep L ℓ s t) : Shipped s t := by
  have hsame : ∀ m, s.Bears m → s.Bears m := fun _ => id
  have hleft (es : List OutPub) (cause : Cause) (a : Nat) : Obs.enqueued a ∉ es.map (Obs.left · cause) := by simp
  have hleft' (es : List OutPub) (cause : Cause) (conn : Nat) (ahead : List OutPub) (e : OutPub) :
      Obs.sending conn ahead e ∉ es.map (Obs.left · cause) := by simp
  cases h with
  | @conn _ _ u a c hc hstep =>
    have hmem : c ∈ s.conns := Chain.at?_mem hc
    have hown : ∀ x ∈ c.outQ.chain, s.Bears x.cargo := fun x hx => .inl ⟨c, hmem, x, hx, rfl⟩
    cases hstep.shipped with
    | none obs htrace hle hobs hsent hbears =>
      refine .none obs htrace hle hobs (fun conn ahead e he => hown e (hsent conn ahead e he)) fun m hm => ?_
      rcases withConn_bears hm with hm | ⟨e, he, rfl⟩
      · exact hm
      · obtain ⟨x, hx, hcargo⟩ := hbears e he
        exact hcargo ▸ hown x hx
    | one new htrace haddr hnext hbears =>
      refine .one new htrace haddr hnext fun m hm => ?_
      rcases withConn_bears hm with hm | ⟨e, he, rfl⟩
      · exact .inl hm
      · rcases hbears e he with ⟨x, hx, hcargo⟩ | hnew
        · exact .inl (hcargo ▸ hown x hx)
        · exact .inr hnew
  | alloc n hn => exact .none [] (List.append_nil _).symm hn (by simp) (by simp) hsame
  | accept =>
    refine .none [] (List.append_nil _).symm (Nat.le_succ _) (by simp) (by simp) fun m hm => ?_
    rcases hm with ⟨c, hc, e, he, hm⟩ | ho
    · rcases List.mem_cons.mp hc with rfl | hc
      · cases he
      · exact .inl ⟨c, hc, e, he, hm⟩
    · exact .inr ho
  | remove a c cause hc =>
    refine .none _ rfl (Nat.le_refl _) (hleft _ _) (fun _ _ _ hx => absurd hx (hleft' _ _ _ _ _)) fun m hm => ?_
    rcases hm with ⟨c', hc', hm⟩ | ho
    · exact .inl ⟨c', Chain.mem_of_mem_removeAt hc', hm⟩
    · exact .inr ho
  | take a c hc =>
    refine .none [] (List.append_nil _).symm (Nat.le_succ _) (by simp) (by simp) fun m hm => ?_
    have hmem : c ∈ s.conns := Chain.at?_mem hc
    rcases hm with hm | ⟨o, ho, e, he, hm⟩
    · have hbears : (s.withConn a ((s.focus c).setQueue {} 0)).Bears m := .inl hm
      rcases withConn_bears hbears with h | ⟨e, he, -⟩
      · exact h
      · cases he
    · rcases List.mem_cons.mp ho with rfl | ho
      · obtain ⟨x, hx, n, rfl⟩ := mem_renumber he
        exact .inl ⟨c, hmem, x, hx, hm⟩
      · exact .inr ⟨o, ho, e, he, hm⟩
  | reclaim a c o hc hempty ho =>
    refine .none [] (List.append_nil _).symm (Nat.le_refl _) (by simp) (by simp) fun m hm => ?_
    have hmem : o ∈ s.orphans := Chain.at?_mem ho
    have hbears : (s.withConn a {s.focus c with conn := c.resume o}).Bears m := by
      rcases hm with hm | ⟨o', ho', hm⟩
      · exact .inl hm
      · exact .inr ⟨o', Chain.mem_of_mem_removeAt ho', hm⟩
    rcases withConn_bears hbears with h | ⟨e, he, rfl⟩
    · exact h
    · obtain ⟨x, hx, rfl⟩ := List.mem_map.mp he
      refine .inr ⟨o, hmem, x, hx, ?_⟩
      unfold OutPub.resume
      split <;> rfl
  | dropOrphan o ho =>
    refine .none _ rfl (Nat.le_refl _) (hleft _ _) (fun _ _ _ hx => absurd hx (hleft' _ _ _ _ _)) fun m hm => ?_
    rcases hm with hc | ⟨o', ho', hm⟩
    · exact .inl hc
    · exact .inr ⟨o', Chain.mem_of_mem_removeAt ho', hm⟩
  | evict o head ho hhead =>
    refine .none _ rfl (Nat.le_refl _) (by simp) (by simp) fun m hm => ?_
    have hmem : o ∈ s.orphans := Chain.at?_mem ho
    have hbears : (s.setOrphan o.addr (o.outQ.unlink head.addr)).Bears m := hm
    rcases setOrphan_bears hbears with h | ⟨e, he, rfl⟩
    · exact h
    · exact .inr ⟨o, hmem, e, Chain.mem_of_mem_removeAt he, rfl⟩
  | offline o e ho ha =>
    have hmem : o ∈ s.orphans := Chain.at?_mem ho
    refine .one e.cargo rfl ha rfl fun m hm => ?_
    have hbears : (s.setOrphan o.addr (o.outQ.enqueue e)).Bears m := hm
    rcases setOrphan_bears hbears with h | ⟨x, hx, rfl⟩
    · exact .inl h
    · rcases mem_enqueue hx with hx | rfl
      · exact .inl (.inr ⟨o, hmem, x, hx, rfl⟩)
      · exact .inr rfl

end steps

/-! ### Runs of the delivery system -/

/-- Each address is used once, for one message, and what is sent is such a message. -/
structure Told (F : Nat → Cargo) (s : QState) : Prop where
  bears : ∀ m, s.Bears m → F m.addr = m ∧ Obs.enqueued m.addr ∈ s.trace
  sent : Each (fun pre o => ∀ conn ahead e, o = Obs.sending conn ahead e → F e.addr = e.cargo ∧ Obs.enqueued e.addr ∈ pre) s.trace
  once : Each (fun pre o => ∀ a, o = Obs.enqueued a → Obs.enqueued a ∉ pre) s.trace
  lt : ∀ a, Obs.enqueued a ∈ s.trace → a < s.nextAddr

section told
variable {L : Limits} {P : Label → Prop} {F : Nat → Cargo} {s t : QState}

theorem Told.shipped (h : Told F s) (hst : Shipped s t) :
    ∃ F', (∀ a < s.nextAddr, F' a = F a) ∧ s.nextAddr ≤ t.nextAddr ∧ Told F' t ∧ ∃ obs, t.trace = s.trace ++ obs := by
  cases hst with
  | none obs htrace hle hobs hsent hbears =>
    refine ⟨F, fun _ _ => rfl, hle, ⟨fun m hm => ?_, ?_, ?_, fun a ha => ?_⟩, obs, htrace⟩
    · obtain ⟨hF, hmem⟩ := h.bears m (hbears m hm)
      exact ⟨hF, htrace ▸ List.mem_append_left _ hmem⟩
    · rw [htrace]
      refine h.sent.append fun pre o post heq conn ahead e ho => ?_
      have hborne : s.Bears e.cargo := hsent conn ahead e (by rw [heq, ho]; simp)
      obtain ⟨hF, hmem⟩ := h.bears _ hborne
      exact ⟨hF, List.mem_append_left _ hmem⟩
    · rw [htrace]
      refine h.once.append fun pre o post heq a ho => ?_
      exact absurd (by rw [heq, ho]; simp) (hobs a)
    · rw [htrace] at ha
      rcases List.mem_append.mp ha with ha | ha
      · exact Nat.lt_of_lt_of_le (h.lt a ha) hle
      · exact absurd ha (hobs a)
  | one new htrace haddr hnext hbears =>
    have hnew : ∀ a, a < s.nextAddr → Function.update F new.addr new a = F a := fun a ha =>
      Function.update_of_ne (by omega) _ _
    have hold : ∀ a, Obs.enqueued a ∈ s.trace → Function.update F new.addr new a = F a := fun a ha => hnew a (h.lt a ha)
    refine ⟨Function.update F new.addr new, hnew, by omega, ⟨fun m hm => ?_, ?_, ?_, fun a ha => ?_⟩, _, htrace⟩
    · rw [htrace]
      rcases hbears m hm with hm | rfl
      · obtain ⟨hF, hmem⟩ := h.bears m hm
        exact ⟨(hold _ hmem).trans hF, List.mem_append_left _ hmem⟩
      · exact ⟨Function.update_self .., List.mem_append_right _ (List.mem_singleton_self _)⟩
    · rw [htrace]
      refine Each.append (fun pre o post heq conn ahead e ho => ?_) fun pre o post heq conn ahead e ho => ?_
      · obtain ⟨hF, hmem⟩ := h.sent pre o post heq conn ahead e ho
        exact ⟨(hold _ (by rw [heq]; exact List.mem_append_left _ hmem)).trans hF, hmem⟩
      · have hmem : Obs.sending conn ahead e ∈ [Obs.enqueued new.addr] := by rw [heq, ho]; simp
        cases List.mem_singleton.mp hmem
    · rw [htrace]
      refine h.once.append fun pre o post heq a ho hmem => ?_
      have hself : Obs.enqueued a ∈ [Obs.enqueued new.addr] := by rw [heq, ho]; simp
      obtain rfl : a = new.addr := Obs.enqueued.inj (List.mem_singleton.mp hself)
      cases pre with
      | nil =>
        have := h.lt _ (List.append_nil s.trace ▸ hmem)
        omega
      | cons y pre => simp at heq
    · rw [htrace] at ha
      rcases List.mem_append.mp ha with ha | ha
      · have := h.lt a ha
        omega
      · have := Obs.enqueued.inj (List.mem_singleton.mp ha)
        omega

theorem Told.run (h : Told F s) (hrun : QRun L P s t) :
    ∃ F', (∀ a < s.nextAddr, F' a = F a) ∧ s.nextAddr ≤ t.nextAddr ∧ Told F' t ∧ ∃ obs, t.trace = s.trace ++ obs := by
  induction hrun with
  | refl => exact ⟨F, fun _ _ => rfl, Nat.le_refl _, h, [], (List.append_nil _).symm⟩
  | tail _ hstep ih =>
    obtain ⟨ℓ, -, hstep⟩ := hstep
    obtain ⟨F₁, hsame₁, hle₁, htold₁, obs₁, htrace₁⟩ := ih
    obtain ⟨F₂, hsame₂, hle₂, htold₂, obs₂, htrace₂⟩ := htold₁.shipped hstep.shipped
    refine ⟨F₂, fun a ha => ?_, Nat.le_trans hle₁ hle₂, htold₂, obs₁ ++ obs₂, ?_⟩
    · rw [hsame₂ a (Nat.lt_of_lt_of_le ha hle₁), hsame₁ a ha]
    · rw [htrace₂, htrace₁, List.append_assoc]

/-- What is borne or sent in the course of a run was borne before it, or has been queued since. -/
theorem QRun.carried (hrun : QRun L P s t) : ∃ obs, t.trace = s.trace ++ obs ∧
    (∀ m, t.Bears m → s.Bears m ∨ Obs.enqueued m.addr ∈ obs) ∧
    ∀ conn ahead e, Obs.sending conn ahead e ∈ obs → s.Bears e.cargo ∨ Obs.enqueued e.addr ∈ obs := by
  induction hrun with
  | refl => exact ⟨[], (List.append_nil _).symm, fun m hm => .inl hm, nofun⟩
  | tail _ hstep ih =>
    obtain ⟨ℓ, -, hstep⟩ := hstep
    obtain ⟨obs₁, htrace₁, hbears₁, hsent₁⟩ := ih
    have hsent₁' (obs : List Obs) {conn : Nat} {ahead : List OutPub} {e : OutPub} (he : Obs.sending conn ahead e ∈ obs₁) :
        s.Bears e.cargo ∨ Obs.enqueued e.addr ∈ obs₁ ++ obs :=
      (hsent₁ conn ahead e he).imp id fun h => List.mem_append_left _ h
    cases hstep.shipped with
    | none obs htrace hle hobs hsent hbears =>
      refine ⟨obs₁ ++ obs, by rw [htrace, htrace₁, List.append_assoc], fun m hm => ?_, fun conn ahead e he => ?_⟩
      · exact (hbears₁ m (hbears m hm)).imp id fun h => List.mem_append_left _ h
      · rcases List.mem_append.mp he with he | he
        · exact hsent₁' obs he
        · exact (hbears₁ _ (hsent conn ahead e he)).imp id fun h => List.mem_append_left _ h
    | one new htrace haddr hnext hbears =>
      refine ⟨obs₁ ++ [.enqueued new.addr], by rw [htrace, htrace₁, List.append_assoc], fun m hm => ?_, fun conn ahead e he => ?_⟩
      · rcases hbears m hm with hm | rfl
        · exact (hbears₁ m hm).imp id fun h => List.mem_append_left _ h
        · exact .inr (List.mem_append_right _ (List.mem_singleton_self _))
      · rcases List.mem_append.mp he with he | he
        · exact hsent₁' _ he
        · cases List.mem_singleton.mp he

end told

/-! ### Runs of the broker -/

/-- What the steps of a run note, each at the time of its step. -/
def timeline (L : Limits) : MqttBroker → List (Event × Script) → List (Nat × Obs)
  | _, [] => []
  | b, e :: es => ((step L b e).env.trace.drop b.env.trace.length).map (fun o => (e.2.now, o)) ++ timeline L (step L b e) es

section runs
variable {L : Limits} {b : MqttBroker} {F : Nat → Cargo}

theorem timeline_append (p q : List (Event × Script)) :
    timeline L b (p ++ q) = timeline L b p ++ timeline L (run L b p) q := by
  induction p generalizing b with
  | nil => rfl
  | cons e p ih => rw [List.cons_append, timeline, timeline, ih, List.append_assoc]; rfl

/-- What is noted at a time is noted by a step at that time. -/
theorem timeline_time {n : Nat} {o : Obs} {es : List (Event × Script)} (h : (n, o) ∈ timeline L b es) :
    ∃ e ∈ es, e.2.now = n := by
  induction es generalizing b with
  | nil => cases h
  | cons e es ih =>
    rcases List.mem_append.mp h with h | h
    · obtain ⟨_, _, heq⟩ := List.mem_map.mp h
      exact ⟨e, List.mem_cons_self, congrArg Prod.fst heq⟩
    · obtain ⟨e', he', hn⟩ := ih h
      exact ⟨e', List.mem_cons_of_mem e he', hn⟩

/-- The step that notes an observation, and what is noted before it: all of the run up to that step, and then at
the time of the step. -/
theorem timeline_at {r : Nat × Obs} {es : List (Event × Script)} {pre post : List (Nat × Obs)}
    (h : timeline L b es = pre ++ r :: post) : ∃ p e q ahead, es = p ++ e :: q ∧ r.1 = e.2.now ∧
      pre = timeline L b p ++ ahead ∧ (∀ r' ∈ ahead, r'.1 = e.2.now) ∧
      r.2 ∈ (step L (run L b p) e).env.trace.drop (run L b p).env.trace.length := by
  induction es generalizing b pre with
  | nil => simp [timeline] at h
  | cons e es ih =>
    have hlater (mid : List (Nat × Obs))
        (hpre : pre = ((step L b e).env.trace.drop b.env.trace.length).map (fun o => (e.2.now, o)) ++ mid)
        (htail : timeline L (step L b e) es = mid ++ r :: post) : ∃ p e' q ahead, e :: es = p ++ e' :: q ∧ r.1 = e'.2.now ∧
          pre = timeline L b p ++ ahead ∧ (∀ r' ∈ ahead, r'.1 = e'.2.now) ∧
          r.2 ∈ (step L (run L b p) e').env.trace.drop (run L b p).env.trace.length := by
      obtain ⟨p, e', q, ahead, rfl, hnow, rfl, hahead, hmem⟩ := ih htail
      exact ⟨e :: p, e', q, ahead, rfl, hnow, by rw [hpre, timeline, List.append_assoc], hahead, hmem⟩
    rw [timeline] at h
    rcases List.append_eq_append_iff.mp h with ⟨mid, hpre, htail⟩ | ⟨mid, hhead, htail⟩
    · exact hlater mid hpre htail
    · cases mid with
      | nil => exact hlater [] (by rw [hhead, List.append_nil, List.append_nil]) htail.symm
      | cons r' mid =>
        obtain ⟨rfl, -⟩ := List.cons.inj htail
        have hall : ∀ x ∈ pre ++ r :: mid, x.1 = e.2.now ∧ x.2 ∈ (step L b e).env.trace.drop b.env.trace.length := by
          rw [← hhead]
          intro x hx
          obtain ⟨o, ho, rfl⟩ := List.mem_map.mp hx
          exact ⟨rfl, ho⟩
        obtain ⟨hnow, hmem⟩ := hall r (by simp)
        exact ⟨[], e, es, pre, rfl, hnow, rfl, fun x hx => (hall x (List.mem_append_left _ hx)).1, hmem⟩

/-- One message for each address, over a whole run. -/
theorem Told.steps (hb : Phase L Nowhere b) (h : Told F b.view) (es : List (Event × Script)) :
    ∃ F', (∀ a < b.env.nextAddr, F' a = F a) ∧ Told F' (Broker.run L b es).view ∧
      (∀ pre post, es = pre ++ post → ∀ m, (Broker.run L b pre).view.Bears m → F' m.addr = m) ∧
      b.env.trace ++ (timeline L b es).map Prod.snd = (Broker.run L b es).env.trace := by
  induction es generalizing b F with
  | nil =>
    refine ⟨F, fun _ _ => rfl, h, fun pre post heq m hm => ?_, List.append_nil _⟩
    obtain ⟨rfl, -⟩ := List.append_eq_nil_iff.mp heq.symm
    exact (h.bears m hm).1
  | cons e es ih =>
    have hadv : Advances L (fun _ => True) (fun _ => True) Nowhere b (step L b e) :=
      step_advances ⟨trivial, trivial⟩ trivial trivial hb e fun a p b' _ => ⟨.all b' a p, fun _ => trivial⟩
    obtain ⟨F₁, hsame₁, hle, htold₁, obs, htrace⟩ := h.run hadv.run
    obtain ⟨F', hsame', htold', hpre, hline⟩ := ih hadv.phase htold₁
    refine ⟨F', fun a ha => ?_, htold', fun pre post heq m hm => ?_, ?_⟩
    · rw [hsame' a (Nat.lt_of_lt_of_le ha hle), hsame₁ a ha]
    · cases pre with
      | nil =>
        have hlt := h.lt _ (h.bears m hm).2
        rw [hsame' _ (Nat.lt_of_lt_of_le hlt hle), hsame₁ _ hlt]
        exact (h.bears m hm).1
      | cons e' pre =>
        obtain ⟨rfl, hes⟩ := List.cons.inj heq
        exact hpre pre post hes m hm
    · have htrace : (step L b e).env.trace = b.env.trace ++ obs := htrace
      have hmap : ((step L b e).env.trace.drop b.env.trace.length).map (fun o => ((e.2.now, o) : Nat × Obs).2) = obs := by
        rw [htrace, List.drop_left]
        exact List.map_id obs
      rw [timeline, List.map_append, List.map_map, Function.comp_def, hmap, ← List.append_assoc, ← htrace]
      exact hline

end runs

/-! ### Expiry -/

/-- The interval that the PUBLISH of an entry shows; it has properties at level 5. -/
def OutPub.shownExpiry (e : OutPub) : Option Nat :=
  if e.toPublish.protocolLevel ≥ level5 then (findProp e.toPublish.props .msgExpiryInterval).map (·.dataInt) else none

/-- A PUBLISH goes to the transport at `n`, and none of its entry did before. -/
def FirstSending (line : List (Nat × Obs)) (n : Nat) (x : OutPub) : Prop :=
  ∃ pre post conn ahead, line = pre ++ (n, Obs.sending conn ahead x) :: post ∧
    ∀ m conn' ahead' y, (m, Obs.sending conn' ahead' y) ∈ pre → y.addr ≠ x.addr

/-- What a message queued at `t` is owed when it is first sent at `n`, to a subscriber at this level:
its interval is not over, and at level 5 the subscriber sees what is left of it. -/
def Honoured (level t n : Nat) (x : OutPub) : Prop :=
  ∀ e, x.cargo.expiry = some e → n < t + e ∧ (level ≥ level5 → x.shownExpiry = some (e - (n - t)))

/-- The entry whose PUBLISH goes to a transport. -/
def Obs.sentEntry : Obs → Option Nat
  | .sending _ _ e => some e.addr
  | _ => none

/-- The entry at an address stands in a queue, and no PUBLISH of it has gone to a transport. -/
def Waits (b : MqttBroker) (a : Nat) : Prop :=
  (∃ q ∈ b.outQueues, ∃ x ∈ q.chain, x.addr = a) ∧ ∀ o ∈ b.env.trace, o.sentEntry ≠ some a

instance (b : MqttBroker) (a : Nat) : Decidable (Waits b a) := inferInstanceAs (Decidable (_ ∧ _))

/-- A message queued at `t` has an interval, at level 5 in a queue of that level; and as long as it waits, each step is
taken before the interval is over, and at level 5 no step comes after `t`. -/
def InTime (L : Limits) (b : MqttBroker) (es : List (Event × Script)) (level t : Nat) (m : Cargo) : Prop :=
  ∀ i, m.expiry = some i → i ≠ 0 ∧ (level ≥ level5 → m.level ≥ level5) ∧
    Along (step L) (fun b e => Waits b m.addr → e.2.now < t + i ∧ (level ≥ level5 → e.2.now ≤ t)) b es

theorem shownExpiry_eq (x : OutPub) : x.shownExpiry = if x.cargo.level ≥ level5 then x.cargo.expiry else none := rfl

/-- The interval is shown as it was published, so that it is right when no time has passed. -/
theorem honoured_iff {level t n : Nat} {x : OutPub} : Honoured level t n x ↔
    ∀ i, x.cargo.expiry = some i → n < t + i ∧ (level ≥ level5 → x.cargo.level ≥ level5 ∧ n ≤ t) := by
  refine forall_congr' fun i => forall_congr' fun hi => and_congr_right fun hlt => forall_congr' fun _ => ?_
  rw [shownExpiry_eq, hi]
  split
  · next hlevel =>
    rw [Option.some_inj, and_iff_right hlevel]
    omega
  · next hlevel => exact ⟨nofun, fun h => absurd h.1 hlevel⟩

/-- The address of a message tells when it was queued. -/
theorem enqueued_unique {line : List (Nat × Obs)} {a t t' : Nat}
    (h : Each (fun pre o => ∀ a, o = Obs.enqueued a → Obs.enqueued a ∉ pre) (line.map Prod.snd))
    (ht : (t, Obs.enqueued a) ∈ line) (ht' : (t', Obs.enqueued a) ∈ line) : t' = t := by
  obtain ⟨pre, post, rfl⟩ := List.append_of_mem ht
  have hpre : ∀ r, (r, Obs.enqueued a) ∉ pre := by
    intro r hr
    exact h (pre.map Prod.snd) _ (post.map Prod.snd) (by simp) a rfl (List.mem_map_of_mem hr)
  rcases List.mem_append.mp ht' with ht' | ht'
  · exact absurd ht' (hpre t')
  rcases List.mem_cons.mp ht' with heq | ht'
  · exact congrArg Prod.fst heq
  · obtain ⟨pre', post', rfl⟩ := List.append_of_mem ht'
    refine absurd ?_ (h ((pre ++ (t, Obs.enqueued a) :: pre').map Prod.snd) _ (post'.map Prod.snd) (by simp) a rfl)
    simp

theorem initial_told (authUser authPass : Option Bytes) :
    Told (fun _ => ⟨0, [], [], [], 0⟩) (initial authUser authPass).view := by
  refine ⟨fun m hm => ?_, each_nil, each_nil, nofun⟩
  rcases hm with ⟨c, hc, -⟩ | ⟨o, ho, -⟩
  · cases hc
  · cases ho

theorem initial_timeline (L : Limits) (authUser authPass : Option Bytes) (es : List (Event × Script)) :
    (timeline L (initial authUser authPass) es).map Prod.snd = (run L (initial authUser authPass) es).env.trace := by
  obtain ⟨-, -, -, -, hline⟩ := (initial_told authUser authPass).steps (initial_phase L authUser authPass) es
  exact hline

section first
variable {L : Limits} {authUser authPass : Option Bytes} {es : List (Event × Script)} {n t : Nat} {x : OutPub}

/-- The step that sends a message first finds it waiting, or queues it. -/
theorem first_at_step {pre post : List (Nat × Obs)} {conn : Nat} {ahead : List OutPub}
    (heq : timeline L (initial authUser authPass) es = pre ++ (n, Obs.sending conn ahead x) :: post)
    (hfirst : ∀ m conn' ahead' y, (m, Obs.sending conn' ahead' y) ∈ pre → y.addr ≠ x.addr) :
    ∃ p e q, es = p ++ e :: q ∧ e.2.now = n ∧ (∀ r ∈ pre, ∃ e' ∈ p ++ [e], e'.2.now = r.1) ∧
      (∃ o ∈ (step L (run L (initial authUser authPass) p) e).env.trace, o.sentEntry = some x.addr) ∧
      (Waits (run L (initial authUser authPass) p) x.addr ∨
        (n, Obs.enqueued x.addr) ∈ timeline L (initial authUser authPass) es) := by
  obtain ⟨p, e, q, noted, rfl, hnow, rfl, hnoted, hmem⟩ := timeline_at heq
  dsimp only at hnow hmem
  have hstep : Advances L (fun _ => True) (fun _ => True) Nowhere (run L (initial authUser authPass) p)
      (step L (run L (initial authUser authPass) p) e) :=
    step_advances ⟨trivial, trivial⟩ trivial trivial (Reachable.phase ⟨authUser, authPass, p, rfl⟩) e fun a m b' _ =>
      ⟨.all b' a m, fun _ => trivial⟩
  obtain ⟨obs, htrace, -, hsent⟩ := hstep.run.carried
  have htrace : (step L (run L (initial authUser authPass) p) e).env.trace =
      (run L (initial authUser authPass) p).env.trace ++ obs := htrace
  have hdrop : (step L (run L (initial authUser authPass) p) e).env.trace.drop
      (run L (initial authUser authPass) p).env.trace.length = obs := by
    rw [htrace, List.drop_left]
  refine ⟨p, e, q, rfl, hnow.symm, fun r hr => ?_, ⟨_, List.mem_of_mem_drop hmem, rfl⟩, ?_⟩
  · rcases List.mem_append.mp hr with hr | hr
    · obtain ⟨e', he', htime⟩ := timeline_time (o := r.2) hr
      exact ⟨e', List.mem_append_left _ he', htime⟩
    · exact ⟨e, List.mem_append_right _ (List.mem_singleton_self e), (hnoted r hr).symm⟩
  rw [hdrop] at hmem
  rcases hsent conn ahead x hmem with hborne | hqueued
  · refine .inl ⟨?_, fun o ho haddr => ?_⟩
    · rcases hborne with ⟨c, hc, y, hy, hcargo⟩ | ⟨o, ho, y, hy, hcargo⟩
      · obtain ⟨k, hk, rfl⟩ := List.mem_map.mp hc
        exact ⟨k.outQ, List.mem_append_left _ (List.mem_map_of_mem hk), y, hy, congrArg Cargo.addr hcargo⟩
      · obtain ⟨k, hk, rfl⟩ := List.mem_map.mp ho
        exact ⟨k.outQ, List.mem_append_right _ (List.mem_map_of_mem hk), y, hy, congrArg Cargo.addr hcargo⟩
    · -- a PUBLISH that went out before is in the timeline before this one
      rw [← initial_timeline] at ho
      obtain ⟨r, hr, rfl⟩ := List.mem_map.mp ho
      obtain ⟨m, o⟩ := r
      cases o with
      | sending conn' ahead' y => exact hfirst m conn' ahead' y (List.mem_append_left _ hr) (Option.some.inj haddr)
      | connack | enqueued | encoded | writing | publishSent | pubrelIssued | left => cases haddr
  · refine .inr ?_
    rw [timeline_append, timeline, hdrop, ← hnow]
    exact List.mem_append_right _ (List.mem_append_left _ (List.mem_map_of_mem hqueued))

/-- A message that waits has not been sent: the step comes no later than the one that sends it. -/
theorem Waits.before {p p' q q' : List (Event × Script)} {e e' : Event × Script} {a : Nat} (hes : es = p ++ e :: q)
    (hsent : ∃ o ∈ (step L (run L (initial authUser authPass) p) e).env.trace, o.sentEntry = some a)
    (hes' : es = p' ++ e' :: q') (hwaits : Waits (run L (initial authUser authPass) p') a)
    (hclock : es.Pairwise fun x y => x.2.now ≤ y.2.now) : e'.2.now ≤ e.2.now := by
  subst hes
  rcases List.append_eq_append_iff.mp hes' with ⟨mid, rfl, htail⟩ | ⟨mid, rfl, htail⟩
  · cases mid with
    | nil =>
      obtain ⟨rfl, -⟩ := List.cons.inj htail
      exact Nat.le_refl _
    | cons y mid =>
      obtain ⟨rfl, rfl⟩ := List.cons.inj htail
      obtain ⟨o, ho, haddr⟩ := hsent
      refine absurd haddr (hwaits.2 o ?_)
      have hrun : step L (run L (initial authUser authPass) p) e = run L (initial authUser authPass) (p ++ [e]) := by
        rw [run, run, List.foldl_append]
        rfl
      rw [hrun, ← initial_timeline] at ho
      rw [← initial_timeline, List.append_cons, timeline_append, List.map_append]
      exact List.mem_append_left _ ho
  · cases mid with
    | nil =>
      obtain ⟨rfl, -⟩ := List.cons.inj htail
      exact Nat.le_refl _
    | cons y mid =>
      obtain ⟨rfl, rfl⟩ := List.cons.inj htail
      rw [List.append_assoc, List.cons_append] at hclock
      exact (List.pairwise_cons.mp (List.pairwise_append.mp hclock).2.1).1 e (by simp)

end first

/-- A message with an interval of 10. -/
def datedMessage : InPublish where
  len := 15
  topicName := [0x74]
  qos := .qos1
  packetId := 7
  retain := false
  duplicate := false
  buffer := [0x6D]
  totalLen := 1
  props := [{type := .msgExpiryInterval, dataInt := 10}]

/-- A level 5 CONNECT whose session outlives its connection. -/
def lastingConnect (cleanSession : Bool) (clientId : Bytes) : InPacket :=
  .connect (.ok {protocolLevel := 5, cleanSession, clientId, props := [{type := .sessionExpiryInterval, dataInt := 1000}]})

/-- An event at a time. -/
def eventAt (n : Nat) (e : Event × Script) : Event × Script := (e.1, {e.2 with now := n})

/-- A subscriber at level 4 leaves, the message is queued for it at 0, and it comes back at 5. -/
def waitingSubscriber : List (Event × Script) :=
  [(.accept, {}), packetFrom 1 (.connect (.ok {protocolLevel := 4, cleanSession := false, clientId := [0x73]})),
   packetFrom 1 (.subscribe (.ok {packetId := 1, topics := [{filter := [0x74], qos := .qos1}]})),
   packetFrom 1 (.disconnect 0 (.ok {reasonCode := 0})), (.accept, {}), packetFrom 5 (lastingConnect true [0x70]),
   packetFrom 5 (.publish (.ok datedMessage)), eventAt 5 (.accept, {}),
   eventAt 5 (packetFrom 12 (.connect (.ok {protocolLevel := 4, cleanSession := false, clientId := [0x73]})))]

/-- The entry of the message. -/
def waitingEntry : OutPub := newOutPub 11 datedMessage.topicName datedMessage.buffer datedMessage.props .qos1 1 false 4 0 1 0

/-- A subscriber leaves, the message is queued for it at 0, and it comes back at 100. -/
def lateSubscriber : List (Event × Script) :=
  [(.accept, {}), packetFrom 1 (lastingConnect false [0x73]),
   packetFrom 1 (.subscribe (.ok {packetId := 1, topics := [{filter := [0x74], qos := .qos1}]})),
   packetFrom 1 (.disconnect 0 (.ok {reasonCode := 0})), (.accept, {}), packetFrom 8 (lastingConnect true [0x70]),
   packetFrom 8 (.publish (.ok datedMessage)), eventAt 100 (.accept, {}),
   eventAt 100 (packetFrom 15 (lastingConnect false [0x73]))]

/-- The entry of the message. -/
def lateEntry : OutPub := newOutPub 14 datedMessage.topicName datedMessage.buffer datedMessage.props .qos1 1 false 5 0 1 0

theorem lateEntry_sending : FirstSending (timeline {} (initial none none) lateSubscriber) 100 lateEntry :=
  ⟨[(0, .connack 1 0 0), (0, .connack 8 0 0), (0, .enqueued 14), (100, .connack 15 1 0), (100, .encoded 5 5),
    (100, .writing 14 0 16)], [(100, .publishSent 14)], 15, [], by decide +kernel, by simp⟩

end WolfMqtt.Broker
