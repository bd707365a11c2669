import WolfMqtt.Broker.MessageExpiry
import WolfMqtt.Broker.Takeover
import WolfMqtt.Lib.Ordered

/-! The order in which messages go out.

A queue holds its entries in the order in which they were queued, whatever is taken out of it
and wherever it moves. The drain passes over no entry that waits. So when the PUBLISH of an
entry goes to the transport, every entry that was queued before it, and is still in the queue,
has gone out on the same connection, or has its PUBREC; and what went out on an earlier
connection goes out again under its identifier and with DUP. -/
namespace WolfMqtt.Broker
open History

/-! ### What the trace says of an order -/

/-- Entries in the order in which they were queued. -/
abbrev QueuedInOrder (es : List OutPub) : Prop := TailQueue.Ascending OutPub.addr es

/-- The PUBLISH of an entry went to the transport of a connection, and then was out in full. -/
def WentOut (trace : List Obs) (conn : Nat) (e : OutPub) : Prop :=
  ∃ before ahead x after, trace = before ++ Obs.publishSent e.addr :: after ∧ Obs.sending conn ahead x ∈ before ∧
    x.key = e.key

/-- The PUBLISH of `e`, behind `ahead` in the queue of a connection, goes out in its turn, after
what has been noted. -/
structure OnTurn (before : List Obs) (conn : Nat) (ahead : List OutPub) (e : OutPub) : Prop where
  queued : ∀ x ∈ ahead ++ [e], Obs.enqueued x.addr ∈ before
  ascending : QueuedInOrder (ahead ++ [e])
  waiting : ∀ x ∈ ahead, x.state ≠ .queued
  /-- What awaits its acknowledgement went out on this connection. -/
  earlier : ∀ x ∈ ahead, x.state = .publishSent → WentOut before conn x
  /-- Once it went out in full, it carries DUP. -/
  again : Obs.publishSent e.addr ∈ before → e.toPublish.duplicate = true
  /-- It keeps its identifier. -/
  same : ∀ conn' ahead' x, Obs.sending conn' ahead' x ∈ before → x.addr = e.addr → x.key = e.key

/-- Every PUBLISH goes out in its turn. -/
def Orderly (trace : List Obs) : Prop :=
  Each (fun before o => ∀ conn ahead e, o = Obs.sending conn ahead e → OnTurn before conn ahead e) trace

/-- Later entries have higher addresses. -/
def Ranked (trace : List Obs) : Prop :=
  Each (fun before o => ∀ a, o = Obs.enqueued a → ∀ a', Obs.enqueued a' ∈ before → a' < a) trace

/-! ### Queues -/

theorem QueuedInOrder.of_keys {es es' : List OutPub} (h : QueuedInOrder es)
    (hkeys : es'.map OutPub.key = es.map OutPub.key) : QueuedInOrder es' := by
  have hmap : (es'.map OutPub.key).Pairwise (fun x y => x.1 < y.1) := by
    rw [hkeys]
    exact List.pairwise_map.mpr h
  exact (List.pairwise_map (f := OutPub.key)).mp hmap

theorem QueuedInOrder.enqueue {n : Nat} {q : TailQueue OutPub} {e : OutPub} (h : QueuedInOrder q.chain) (hq : QueueOk n q)
    (ha : e.addr = n) : QueuedInOrder (q.enqueue e).chain := by
  rw [TailQueue.enqueue_chain q e hq.wf]
  refine List.pairwise_append.mpr ⟨h, List.pairwise_singleton _ _, fun x hx y hy => ?_⟩
  rw [List.mem_singleton.mp hy, ha]
  exact hq.fresh x hx

theorem QueuedInOrder.unlink {q : TailQueue OutPub} (h : QueuedInOrder q.chain) (a : Nat) :
    QueuedInOrder (q.unlink a).chain :=
  List.Pairwise.sublist List.eraseP_sublist h

theorem QueuedInOrder.update {q : TailQueue OutPub} (h : QueuedInOrder q.chain) (a : Nat) {f : OutPub → OutPub}
    (hf : ∀ x, (f x).key = x.key) : QueuedInOrder (q.update a f).chain :=
  h.of_keys (Chain.map_writeAt OutPub.key fun x _ => hf x)

/-- An entry and those before it are the front of the queue. -/
theorem aheadOf_prefix {es : List OutPub} {e : OutPub} (h : QueuedInOrder es) (he : e ∈ es) :
    aheadOf es e.addr ++ [e] <+: es := by
  induction es with
  | nil => cases he
  | cons x es ih =>
    obtain ⟨hx, hes⟩ := List.pairwise_cons.mp h
    rcases List.mem_cons.mp he with rfl | he
    · simp [aheadOf]
    · have hne : x.addr ≠ e.addr := Nat.ne_of_lt (hx e he)
      have hcons : aheadOf (x :: es) e.addr = x :: aheadOf es e.addr := by simp [aheadOf, hne]
      rw [hcons, List.cons_append]
      exact List.cons_prefix_cons.mpr ⟨rfl, ih hes he⟩

section steps
variable {L : Limits} {ℓ : Label}

theorem CStep.ascending {s t : CState} (h : CStep L ℓ s t) (hs : CInv s) (ha : QueuedInOrder s.conn.outQ.chain) :
    QueuedInOrder t.conn.outQ.chain := by
  cases h with
  | alloc | connack | negotiate | encode | write | send | reissue | respond => exact ha
  | enqueue e haddr => exact ha.enqueue hs.queue haddr
  | sent e => exact ha.update e.addr fun _ => rfl
  | markDup e => exact ha.update e.addr fun _ => rfl
  | received e => exact ha.update e.addr fun _ => rfl
  | receivedMute e => exact ha.update e.addr fun _ => rfl
  | sentQos0 e => exact ha.unlink e.addr
  | unsent e => exact ha.unlink e.addr
  | acked e => exact ha.unlink e.addr

/-- Every queue is in the order of queueing. -/
structure QState.Ascends (s : QState) : Prop where
  conns : ∀ c ∈ s.conns, QueuedInOrder c.outQ.chain
  orphans : ∀ o ∈ s.orphans, QueuedInOrder o.outQ.chain

theorem QStep.ascends {s t : QState} (h : QStep L ℓ s t) (hs : QInv s) (ha : s.Ascends) : t.Ascends := by
  obtain ⟨hc, ho⟩ := ha
  cases h with
  | conn a c hat hstep =>
    have hmem := Chain.at?_mem hat
    exact ⟨Chain.forall_writeAt hc fun _ _ => hstep.ascending (hs.focus hmem) (hc c hmem), ho⟩
  | alloc => exact ⟨hc, ho⟩
  | accept => exact ⟨List.forall_mem_cons.mpr ⟨List.Pairwise.nil, hc⟩, ho⟩
  | remove => exact ⟨fun c hmem => hc c (Chain.mem_of_mem_removeAt hmem), ho⟩
  | take a c hat =>
    have hcopy : QueuedInOrder (renumber 1 c.outQ.chain) := (hc c (Chain.at?_mem hat)).of_keys (renumber_map_key 1 _)
    exact ⟨Chain.forall_writeAt hc fun _ _ => List.Pairwise.nil, List.forall_mem_cons.mpr ⟨hcopy, ho⟩⟩
  | reclaim a c o hat hempty hor =>
    have hcopy : QueuedInOrder (o.outQ.chain.map OutPub.resume) := by
      refine (ho o (Chain.at?_mem hor)).of_keys ?_
      rw [List.map_map]
      exact List.map_congr_left fun e _ => e.resume_key
    exact ⟨Chain.forall_writeAt hc fun _ _ => hcopy, fun x hmem => ho x (Chain.mem_of_mem_removeAt hmem)⟩
  | dropOrphan => exact ⟨hc, fun o hmem => ho o (Chain.mem_of_mem_removeAt hmem)⟩
  | evict o head hor =>
    exact ⟨hc, Chain.forall_writeAt ho fun _ _ => (ho o (Chain.at?_mem hor)).unlink head.addr⟩
  | offline o e hor haddr =>
    have hmem := Chain.at?_mem hor
    exact ⟨hc, Chain.forall_writeAt ho fun _ _ => (ho o hmem).enqueue (hs.orphan o hmem) haddr⟩

/-! ### What has gone out on a connection -/

/-- The PUBLISH of what awaits its acknowledgement on a connection went out on it. -/
def Shown (conn : Nat) (es : List OutPub) (trace : List Obs) : Prop :=
  ∀ e ∈ es, e.state = .publishSent → WentOut trace conn e

theorem WentOut.append {trace : List Obs} {conn : Nat} {e : OutPub} (h : WentOut trace conn e) (obs : List Obs) :
    WentOut (trace ++ obs) conn e := by
  obtain ⟨before, ahead, x, after, rfl, hmem, hkey⟩ := h
  exact ⟨before, ahead, x, after ++ obs, by rw [List.append_assoc, List.cons_append], hmem, hkey⟩

theorem Shown.mono {conn : Nat} {es es' : List OutPub} {trace obs : List Obs} (h : Shown conn es trace)
    (hsub : ∀ e ∈ es', e.state = .publishSent → e ∈ es) : Shown conn es' (trace ++ obs) := fun e he hstate =>
  (h e (hsub e he hstate) hstate).append obs

/-- A write to an entry that says nothing new of the others. -/
theorem Shown.update {conn : Nat} {q : TailQueue OutPub} {e : OutPub} {f : OutPub → OutPub} {trace : List Obs}
    (h : Shown conn q.chain trace) (obs : List Obs) (hq : q.WF) (he : e ∈ q.chain)
    (hf : (f e).state = .publishSent → WentOut (trace ++ obs) conn (f e)) :
    Shown conn (q.update e.addr f).chain (trace ++ obs) := by
  intro e' he' hstate
  rcases Chain.mem_writeAt he' with he' | ⟨x, hx, rfl⟩
  · exact h.mono (fun _ he _ => he) e' he' hstate
  · obtain rfl : e = x := Option.some.inj ((hq.at? he).symm.trans hx)
    exact hf hstate

theorem CStep.shown {s t : CState} (h : CStep L ℓ s t) (hs : CInv s)
    (hshown : Shown s.conn.addr s.conn.outQ.chain s.trace) : Shown t.conn.addr t.conn.outQ.chain t.trace := by
  have hq := hs.queue.wf
  have hsub : ∀ e ∈ s.conn.outQ.chain, e.state = .publishSent → e ∈ s.conn.outQ.chain := fun e he _ => he
  have hrest : ∀ a, ∀ e ∈ (s.conn.outQ.unlink a).chain, e.state = .publishSent → e ∈ s.conn.outQ.chain :=
    fun a e he _ => Chain.mem_of_mem_removeAt he
  cases h with
  | alloc | negotiate => exact hshown
  | connack | encode | write | send | reissue | respond => exact hshown.mono hsub
  | enqueue e ha hstate =>
    refine hshown.mono fun x hx hsent => ?_
    rcases mem_enqueue hx with hx | rfl
    · exact hx
    · exact absurd (hstate.symm.trans hsent) (by decide)
  | sent e he hstate hqos hsend =>
    obtain ⟨ahead, hmem⟩ := hsend
    exact hshown.update _ hq he fun _ => ⟨s.trace, ahead, e, [], rfl, hmem, rfl⟩
  | markDup e dup he =>
    have hkept := hshown.update (f := OutPub.setDup dup) [] hq he fun hstate => (hshown e he hstate).append []
    rwa [List.append_nil] at hkept
  | received e he => exact hshown.update _ hq he nofun
  | receivedMute e he =>
    have hkept := hshown.update (f := OutPub.toReleased) [] hq he nofun
    rwa [List.append_nil] at hkept
  | sentQos0 e =>
    have hgrown : Shown s.conn.addr s.conn.outQ.chain (s.trace ++ [.publishSent e.addr]) := hshown.mono hsub
    exact hgrown.mono (hrest e.addr)
  | unsent e => exact hshown.mono (hrest e.addr)
  | acked e => exact hshown.mono (hrest e.addr)

theorem QStep.shown {s t : QState} (h : QStep L ℓ s t) (hs : QInv s)
    (hshown : ∀ c ∈ s.conns, Shown c.addr c.outQ.chain s.trace) : ∀ c ∈ t.conns, Shown c.addr c.outQ.chain t.trace := by
  have hsame : ∀ obs, ∀ c ∈ s.conns, Shown c.addr c.outQ.chain (s.trace ++ obs) := fun obs c hc =>
    (hshown c hc).mono fun _ he _ => he
  cases h with
  | conn a c hat hstep =>
    have hmem := Chain.at?_mem hat
    obtain ⟨obs, htrace, -⟩ := hstep.notes (hs.focus hmem)
    have hgrown : ∀ x ∈ s.conns, Shown x.addr x.outQ.chain _ := htrace ▸ hsame obs
    exact Chain.forall_writeAt hgrown fun _ _ => hstep.shown (hs.focus hmem) (hshown c hmem)
  | alloc => exact hshown
  | offline => exact hsame _
  | accept => exact List.forall_mem_cons.mpr ⟨nofun, hshown⟩
  | remove => exact fun c hmem => hsame _ c (Chain.mem_of_mem_removeAt hmem)
  | take => exact Chain.forall_writeAt hshown fun _ _ => nofun
  | reclaim a c o hat =>
    refine Chain.forall_writeAt hshown fun _ _ e he hstate => ?_
    obtain ⟨x, -, rfl⟩ := List.mem_map.mp he
    have hne : x.resume.state ≠ .publishSent := by
      unfold OutPub.resume
      split <;> simp_all
    exact absurd hstate hne
  | dropOrphan | evict => exact hsame _

/-! ### What a step notes of PUBLISHes -/

/-- What a step of a connection notes of PUBLISHes. -/
structure CSends (s t : CState) (obs : List Obs) : Prop where
  sending : ∀ conn ahead e, Obs.sending conn ahead e ∈ obs → obs = [.sending conn ahead e] ∧ conn = s.conn.addr ∧
    e ∈ s.conn.outQ.chain ∧ e.state = .queued ∧ ahead = aheadOf s.conn.outQ.chain e.addr ∧ ∀ x ∈ ahead, x.state ≠ .queued
  sent : ∀ a, Obs.publishSent a ∈ obs → (∃ x ∈ s.conn.outQ.chain, x.addr = a) ∧
    ∀ e ∈ t.conn.outQ.chain, e.addr = a → e.state = .publishSent

theorem CSends.nothing {s t : CState} {obs : List Obs} (h : ∀ o ∈ obs, (∀ conn ahead e, o ≠ .sending conn ahead e) ∧
    ∀ a, o ≠ .publishSent a) : CSends s t obs where
  sending conn ahead e hmem := absurd rfl ((h _ hmem).1 conn ahead e)
  sent a hmem := absurd rfl ((h _ hmem).2 a)

theorem CSends.issuedFor {s t : CState} (q : TailQueue OutPub) (packetId : Nat) : CSends s t (issuedFor q packetId) := by
  refine .nothing fun o ho => ?_
  obtain ⟨e, -, rfl⟩ := List.mem_map.mp ho
  simp

theorem CStep.sends {s t : CState} (h : CStep L ℓ s t) (hs : CInv s) : ∃ obs, t.trace = s.trace ++ obs ∧ CSends s t obs := by
  have hq := hs.queue.wf
  cases h with
  | alloc | negotiate | markDup | receivedMute => exact ⟨[], (List.append_nil _).symm, .nothing (by simp)⟩
  | connack | enqueue | encode | write | reissue | unsent | acked => exact ⟨_, rfl, .nothing (by simp)⟩
  | received | respond => exact ⟨_, rfl, .issuedFor _ _⟩
  | send e he hstate hahead =>
    refine ⟨_, rfl, fun conn ahead x hmem => ?_, by simp⟩
    cases List.mem_singleton.mp hmem
    exact ⟨rfl, rfl, he, hstate, rfl, hahead hq⟩
  | sent e he hstate =>
    refine ⟨_, rfl, by simp, fun a hmem => ?_⟩
    cases List.mem_singleton.mp hmem
    refine ⟨⟨e, he, rfl⟩, fun x hx haddr => ?_⟩
    rcases Chain.mem_writeAt_nodup hq.nodup hx with ⟨-, hne⟩ | ⟨y, -, rfl⟩
    · exact absurd haddr hne
    · rfl
  | sentQos0 e he =>
    refine ⟨[.publishSent e.addr, .left e .qos0Sent], by simp [CState.drop, CState.note, CState.setQueue], by simp, ?_⟩
    intro a hmem
    obtain rfl : a = e.addr := by simpa using hmem
    refine ⟨⟨e, he, rfl⟩, fun x hx haddr => ?_⟩
    exact absurd haddr ((TailQueue.mem_unlink s.conn.outQ e.addr hq x).mp hx).2

/-- What a step of the system notes of PUBLISHes. -/
structure Sends (s t : QState) (obs : List Obs) : Prop where
  sending : ∀ conn ahead e, Obs.sending conn ahead e ∈ obs → obs = [.sending conn ahead e] ∧
    ∃ c, s.conn? conn = some c ∧ e ∈ c.outQ.chain ∧ e.state = .queued ∧ ahead = aheadOf c.outQ.chain e.addr ∧
      ∀ x ∈ ahead, x.state ≠ .queued
  sent : ∀ a, Obs.publishSent a ∈ obs → a < s.nextAddr ∧
    ∀ p level e, t.Holds p level e → e.addr = a → e.state = .publishSent

theorem Sends.nothing {s t : QState} {obs : List Obs} (h : ∀ o ∈ obs, (∀ conn ahead e, o ≠ .sending conn ahead e) ∧
    ∀ a, o ≠ .publishSent a) : Sends s t obs where
  sending conn ahead e hmem := absurd rfl ((h _ hmem).1 conn ahead e)
  sent a hmem := absurd rfl ((h _ hmem).2 a)

theorem QStep.sends {s t : QState} (h : QStep L ℓ s t) (hs : QInv s) (hplaced : Placed s) :
    ∃ obs, t.trace = s.trace ++ obs ∧ Sends s t obs := by
  cases h with
  | @conn _ _ u a c hc hstep =>
    have hmem := Chain.at?_mem hc
    have haddr : u.conn.addr = a := hstep.addr_eq.trans (Chain.at?_addr hc)
    obtain ⟨obs, htrace, hsends⟩ := hstep.sends (hs.focus hmem)
    refine ⟨obs, htrace, fun conn ahead e hmem => ?_, fun x hx => ?_⟩
    · obtain ⟨halone, rfl, he, hstate, hahead, hnone⟩ := hsends.sending conn ahead e hmem
      have hself : (s.focus c).conn.addr = a := Chain.at?_addr (x := c) hc
      exact ⟨halone, c, hself ▸ hc, he, hstate, hahead, hnone⟩
    · obtain ⟨⟨y, hy, rfl⟩, hstate⟩ := hsends.sent x hx
      have hold : s.Holds (.conn a) c.level y := .conn hc hy
      refine ⟨hold.lt hs, fun p level e he hea => ?_⟩
      rcases withConn_holds hc haddr he with ⟨he, hne⟩ | ⟨-, -, he⟩
      · exact absurd (hplaced _ _ _ _ _ _ he hold hea) hne
      · exact hstate e he hea
  | alloc | accept | take | reclaim => exact ⟨[], (List.append_nil _).symm, .nothing (by simp)⟩
  | remove | dropOrphan | evict | offline => exact ⟨_, rfl, .nothing (by simp)⟩

end steps

/-! ### Runs of the delivery system -/

/-- What a run keeps of the order of messages. -/
structure OrderInv (s : QState) : Prop where
  placed : Placed s
  told : ∃ F, Told F s
  ascends : s.Ascends
  shown : ∀ c ∈ s.conns, Shown c.addr c.outQ.chain s.trace
  /-- What went out in full and waits again will carry DUP. -/
  dup : ∀ p level e, s.Holds p level e → e.state = .queued → Obs.publishSent e.addr ∈ s.trace → e.retransmitDup = true
  sent_lt : ∀ a, Obs.publishSent a ∈ s.trace → a < s.nextAddr
  key : ∀ p level e, s.Holds p level e → ∀ conn ahead x, Obs.sending conn ahead x ∈ s.trace → x.addr = e.addr → x.key = e.key
  sending_lt : ∀ conn ahead x, Obs.sending conn ahead x ∈ s.trace → x.addr < s.nextAddr
  orderly : Orderly s.trace
  ranked : Ranked s.trace

section runs
variable {L : Limits} {ℓ : Label} {s t : QState}

/-- Every entry in a queue was noted when it was queued. -/
theorem OrderInv.enqueued (h : OrderInv s) {p : Place} {level : Nat} {e : OutPub} (he : s.Holds p level e) :
    Obs.enqueued e.addr ∈ s.trace := by
  obtain ⟨F, hF⟩ := h.told
  have hbears : s.Bears e.cargo := by
    cases he with
    | conn hc hmem => exact .inl ⟨_, Chain.at?_mem hc, e, hmem, rfl⟩
    | orphan ho hmem => exact .inr ⟨_, Chain.at?_mem ho, e, hmem, rfl⟩
  exact (hF.bears _ hbears).2

/-- An entry that the drain comes to goes out in its turn. -/
theorem OrderInv.onTurn (h : OrderInv s) {conn : Nat} {c : QConn} (hc : s.conn? conn = some c) {e : OutPub}
    (he : e ∈ c.outQ.chain) (hstate : e.state = .queued) (hnone : ∀ x ∈ aheadOf c.outQ.chain e.addr, x.state ≠ .queued) :
    OnTurn s.trace conn (aheadOf c.outQ.chain e.addr) e := by
  have hmem : c ∈ s.conns := Chain.at?_mem hc
  have haddr : c.addr = conn := Chain.at?_addr (x := c) hc
  have hfront := aheadOf_prefix (h.ascends.conns c hmem) he
  have hholds : ∀ x ∈ c.outQ.chain, s.Holds (.conn conn) c.level x := fun x hx => .conn hc hx
  refine ⟨fun x hx => h.enqueued (hholds x (hfront.subset hx)), ?_, hnone, fun x hx hsent => ?_,
    fun hsent => h.dup _ _ _ (hholds e he) hstate hsent,
    fun conn' ahead' x hx => h.key _ _ _ (hholds e he) conn' ahead' x hx⟩
  · exact List.Pairwise.sublist hfront.sublist (h.ascends.conns c hmem)
  · have hin : x ∈ c.outQ.chain := hfront.subset (List.mem_append_left _ hx)
    exact haddr ▸ h.shown c hmem x hin hsent

theorem OrderInv.ranked_shipped (h : OrderInv s) (hst : Shipped s t) : Ranked t.trace := by
  obtain ⟨F, hF⟩ := h.told
  cases hst with
  | none obs htrace _ hobs =>
    rw [htrace]
    exact h.ranked.append fun pre o post heq a ho => absurd (by rw [heq, ho]; simp) (hobs a)
  | one new htrace haddr =>
    rw [htrace]
    refine h.ranked.concat fun a ho a' hmem => ?_
    cases ho
    exact haddr ▸ hF.lt a' hmem

/-- An entry is in one queue, once. -/
theorem QState.Holds.unique (hs : QInv s) (hplaced : Placed s) {p p' : Place} {level level' : Nat} {e e' : OutPub}
    (he : s.Holds p level e) (he' : s.Holds p' level' e') (haddr : e.addr = e'.addr) : e = e' := by
  have hp := hplaced _ _ _ _ _ _ he he' haddr
  subst hp
  have hat : ∀ q : TailQueue OutPub, q.WF → e ∈ q.chain → e' ∈ q.chain → e = e' := fun q hq hmem hmem' =>
    Option.some.inj ((hq.at? hmem).symm.trans ((congrArg (Chain.at? _) haddr).trans (hq.at? hmem')))
  cases p with
  | conn a =>
    obtain ⟨c, hc, -, hmem⟩ := he.conn_inv
    obtain ⟨c', hc', -, hmem'⟩ := he'.conn_inv
    cases Option.some.inj (hc.symm.trans hc')
    exact hat c.outQ (hs.queue c (Chain.at?_mem hc)).wf hmem hmem'
  | orphan a =>
    obtain ⟨o, ho, -, hmem⟩ := he.orphan_inv
    obtain ⟨o', ho', -, hmem'⟩ := he'.orphan_inv
    cases Option.some.inj (ho.symm.trans ho')
    exact hat o.outQ (hs.orphan o (Chain.at?_mem ho)).wf hmem hmem'

section step
variable {source : Place → Place} {born : Place} {obs : List Obs}

/-- What a step notes to go out is in a queue. -/
theorem Sends.held (hsends : Sends s t obs) {conn : Nat} {ahead : List OutPub} {x : OutPub}
    (hmem : Obs.sending conn ahead x ∈ obs) : ∃ p level, s.Holds p level x := by
  obtain ⟨-, c, hc, hx, -⟩ := hsends.sending conn ahead x hmem
  exact ⟨_, _, .conn hc hx⟩

theorem OrderInv.dup_step (h : OrderInv s) (hsource : Sourced ℓ s t source born) (htrace : t.trace = s.trace ++ obs)
    (hsends : Sends s t obs) : ∀ p level e, t.Holds p level e → e.state = .queued → Obs.publishSent e.addr ∈ t.trace →
      e.retransmitDup = true := by
  intro p level e he hstate hmem
  rw [htrace] at hmem
  rcases List.mem_append.mp hmem with hmem | hmem
  · rcases hsource.comes p level e he with ⟨level₀, e₀, he₀, hturned, -⟩ | ⟨-, hfresh⟩
    · rcases hturned.dup hstate with hdup | ⟨hstate₀, hdup⟩
      · exact hdup
      · exact hdup.trans (h.dup _ _ _ he₀ hstate₀ (hturned.addr ▸ hmem))
    · exact absurd (h.sent_lt _ hmem) (hfresh.addr ▸ Nat.lt_irrefl _)
  -- what this step notes as out in full no longer waits
  · exact absurd (hstate.symm.trans ((hsends.sent _ hmem).2 p level e he rfl)) (by decide)

theorem OrderInv.sending_lt_step (h : OrderInv s) (hs : QInv s) (htrace : t.trace = s.trace ++ obs)
    (hsends : Sends s t obs) : ∀ conn ahead x, Obs.sending conn ahead x ∈ t.trace → x.addr < s.nextAddr := by
  intro conn ahead x hmem
  rw [htrace] at hmem
  rcases List.mem_append.mp hmem with hmem | hmem
  · exact h.sending_lt conn ahead x hmem
  · obtain ⟨p, level, hx⟩ := hsends.held hmem
    exact hx.lt hs

theorem OrderInv.key_step (h : OrderInv s) (hs : QInv s) (hsource : Sourced ℓ s t source born)
    (htrace : t.trace = s.trace ++ obs) (hsends : Sends s t obs) : ∀ p level e, t.Holds p level e →
      ∀ conn ahead x, Obs.sending conn ahead x ∈ t.trace → x.addr = e.addr → x.key = e.key := by
  intro p level e he conn ahead x hmem haddr
  rcases hsource.comes p level e he with ⟨level₀, e₀, he₀, hturned, -⟩ | ⟨-, hfresh⟩
  · have haddr₀ : x.addr = e₀.addr := haddr.trans hturned.addr
    rw [htrace] at hmem
    rcases List.mem_append.mp hmem with hmem | hmem
    · exact (h.key _ _ _ he₀ conn ahead x hmem haddr₀).trans hturned.key.symm
    · obtain ⟨p', level', hx⟩ := hsends.held hmem
      rw [hx.unique hs h.placed he₀ haddr₀, hturned.key]
  · have hlt := h.sending_lt_step hs htrace hsends conn ahead x hmem
    rw [haddr, hfresh.addr] at hlt
    exact absurd hlt (Nat.lt_irrefl _)

theorem OrderInv.orderly_step (h : OrderInv s) (htrace : t.trace = s.trace ++ obs) (hsends : Sends s t obs) :
    Orderly t.trace := by
  rw [htrace]
  refine h.orderly.append fun before o after heq conn ahead e ho => ?_
  have hmem : Obs.sending conn ahead e ∈ obs := by rw [heq, ho]; simp
  obtain ⟨halone, c, hc, he, hstate, rfl, hnone⟩ := hsends.sending conn ahead e hmem
  obtain rfl : before = [] := by
    rw [halone] at heq
    cases before with
    | nil => rfl
    | cons y before => simp at heq
  rw [List.append_nil]
  exact h.onTurn hc he hstate hnone

theorem QStep.orderInv (h : QStep L ℓ s t) (hs : QInv s) (hmute : ℓ ≠ .mute) (hinv : OrderInv s) : OrderInv t := by
  obtain ⟨source, born, hsource⟩ := h.sourced hs hmute
  obtain ⟨obs, htrace, hsends⟩ := h.sends hs hinv.placed
  obtain ⟨F, hF⟩ := hinv.told
  obtain ⟨F', -, -, htold, -⟩ := hF.shipped h.shipped
  have hle := h.nextAddr_le
  exact {
    placed := h.placed hs hmute hinv.placed
    told := ⟨F', htold⟩
    ascends := h.ascends hs hinv.ascends
    shown := h.shown hs hinv.shown
    dup := hinv.dup_step hsource htrace hsends
    sent_lt := fun a hmem => by
      rw [htrace] at hmem
      rcases List.mem_append.mp hmem with hmem | hmem
      · exact Nat.lt_of_lt_of_le (hinv.sent_lt a hmem) hle
      · exact Nat.lt_of_lt_of_le (hsends.sent a hmem).1 hle
    key := hinv.key_step hs hsource htrace hsends
    sending_lt := fun conn ahead x hmem =>
      Nat.lt_of_lt_of_le (hinv.sending_lt_step hs htrace hsends conn ahead x hmem) hle
    orderly := hinv.orderly_step htrace hsends
    ranked := hinv.ranked_shipped h.shipped }

end step
end runs

/-! ### Runs of the broker -/

theorem initial_orderInv (authUser authPass : Option Bytes) : OrderInv (initial authUser authPass).view := by
  have hnone : ∀ p level e, ¬(initial authUser authPass).view.Holds p level e := by
    intro p level e he
    cases he with
    | conn hc => cases hc
    | orphan ho => cases ho
  exact ⟨fun p _ level _ e _ he => absurd he (hnone p level e), ⟨_, initial_told authUser authPass⟩, ⟨nofun, nofun⟩, nofun,
    fun p level e he => absurd he (hnone p level e), nofun, fun p level e he => absurd he (hnone p level e), nofun,
    each_nil, each_nil⟩

/-- In every run each queue is in the order of queueing, addresses rise in that order, and every
PUBLISH goes out in its turn. -/
theorem reachable_orderly {L : Limits} {b : MqttBroker} (h : Reachable L b) :
    (∀ q ∈ b.outQueues, QueuedInOrder q.chain) ∧ Ranked b.env.trace ∧ Orderly b.env.trace := by
  obtain ⟨authUser, authPass, es, rfl⟩ := h
  have hrun : QRun L (· ≠ Label.mute) (initial authUser authPass).view (run L (initial authUser authPass) es).view :=
    run_qrun ⟨by decide, by decide⟩ (by decide) (by decide) authUser authPass
      ((Along.trivial es _).imp fun _ _ _ (x : Nat × InPacket × MqttBroker) _ => Permits.not_mute x.2.2 x.1 x.2.1)
  have hinv := (QRun.invariant (I := fun s => QInv s ∧ OrderInv s)
    (fun s t ℓ hℓ hstep hs => ⟨hstep.inv hs.1, hstep.orderInv hs.1 hℓ hs.2⟩) hrun
    ⟨(initial_phase L authUser authPass).queues, initial_orderInv authUser authPass⟩).2
  refine ⟨fun q hq => ?_, hinv.ranked, hinv.orderly⟩
  rcases List.mem_append.mp hq with hq | hq
  · obtain ⟨c, hc, rfl⟩ := List.mem_map.mp hq
    exact hinv.ascends.conns c.view (List.mem_map_of_mem hc)
  · obtain ⟨o, ho, rfl⟩ := List.mem_map.mp hq
    exact hinv.ascends.orphans o.view (List.mem_map_of_mem ho)

/-- A message goes out to the subscriber, which leaves; another is queued for it, and it comes back on
a connection at 11. -/
def returning : List (Event × Script) :=
  subscriberAndPublisher ++ [messageFrom 4 .qos1 7, packetFrom 1 (.disconnect 0 (.ok {reasonCode := 0})),
    messageFrom 4 .qos1 8, (.accept, {}),
    packetFrom 11 (.connect (.ok {protocolLevel := 4, cleanSession := false, clientId := [0x73]}))]

/-- The first goes out again, and the second behind it. -/
theorem reachable_orderly_returning :
    (run {} (initial none none) returning).env.trace.any (fun o => match o with
      | .sending 11 [x] e => x.addr = 7 ∧ x.state = .publishSent ∧ e.addr = 10
      | _ => false) = true ∧
    Orderly (run {} (initial none none) returning).env.trace :=
  ⟨by decide +kernel, (reachable_orderly ⟨none, none, _, rfl⟩).2.2⟩

/-- The client on this connection gives its name, and asks for its session. -/
def Resumes (es : List (Event × Script)) (conn : Nat) (clientId : Bytes) : Prop :=
  ∃ mc script, (Event.process conn (.packet true (.connect (.ok mc))), script) ∈ es ∧ mc.clientId = clientId ∧
    mc.cleanSession = false

/-- A handshake that an acknowledgement ended. -/
def Cause.acknowledged (cause : Cause) : Bool := cause = .puback ∨ cause = .pubrecError ∨ cause = .pubcomp

/-- The PUBLISH went out on this connection, and no acknowledgement ended its handshake. -/
structure Unacknowledged (before : List Obs) (conn : Nat) (x : OutPub) : Prop where
  qos : x.qos ≠ .qos0
  sending : ∃ ahead, Obs.sending conn ahead x ∈ before
  sent : Obs.publishSent x.addr ∈ before
  unended : ∀ y cause, Obs.left y cause ∈ before → y.addr = x.addr → cause.acknowledged = false

/-- The two messages. -/
def firstMessage : OutPub := newOutPub 7 [0x74] [0x6D] [] .qos1 1 false 4 0 0 0

def secondMessage : OutPub := newOutPub 10 [0x74] [0x6D] [] .qos1 2 false 4 0 1 0

/-- What goes before the second, where one message fills the queue of a client that is away. -/
def beforeSecond : List Obs :=
  [.connack 1 0 0, .connack 4 0 0, .enqueued 7, .encoded 4 4, .writing 7 0 16, .sending 1 [] firstMessage, .publishSent 7,
   .left {firstMessage with state := .publishSent, enqueueSeq := 1} .evicted, .enqueued 10, .connack 11 1 0, .encoded 4 4,
   .writing 10 0 16]

theorem beforeSecond_unacknowledged : Unacknowledged beforeSecond 1 firstMessage := by
  refine ⟨by decide, ⟨[], by decide⟩, by decide, fun y cause hmem _ => ?_⟩
  simp only [beforeSecond, List.mem_cons, List.not_mem_nil, reduceCtorEq, Obs.left.injEq, false_or, or_false] at hmem
  rw [hmem.2]
  rfl

/-- Where the queue of a client that is away holds one message, the one that went out is gone when
the client comes back, and does not go out again before the next. -/
theorem not_resent_first : ¬∀ (L : Limits) (es : List (Event × Script)) (clientId : Bytes) (conn conn' : Nat)
    (before : List Obs) (ahead : List OutPub) (e : OutPub) (after : List Obs) (x : OutPub),
    Resumes es conn clientId → Resumes es conn' clientId → conn ≠ conn' →
    (run L (initial none none) es).env.trace = before ++ Obs.sending conn' ahead e :: after →
    Unacknowledged before conn x → x.addr < e.addr →
    ∃ ahead' x', Obs.sending conn' ahead' x' ∈ before ∧ x'.key = x.key ∧ x'.toPublish.duplicate = true := by
  intro h
  have hresumes : ∀ conn, conn = 1 ∨ conn = 11 → Resumes returning conn [0x73] := by
    rintro conn (rfl | rfl) <;>
      refine ⟨{protocolLevel := 4, cleanSession := false, clientId := [0x73]}, {}, ?_, rfl, rfl⟩ <;>
      simp [returning, subscriberAndPublisher, packetFrom]
  obtain ⟨ahead', x', hmem, -⟩ := h {maxOfflineMsgsPerSub := 1} returning [0x73] 1 11 beforeSecond [] secondMessage
    [.publishSent 10] firstMessage (hresumes 1 (.inl rfl)) (hresumes 11 (.inr rfl)) (by decide) (by decide +kernel)
    beforeSecond_unacknowledged (by decide)
  simp [beforeSecond] at hmem

end WolfMqtt.Broker
