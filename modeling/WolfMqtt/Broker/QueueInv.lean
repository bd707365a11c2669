import WolfMqtt.Broker.Queues

/-! The invariant of the outbound queues.

Every queue's tail pointer and count are right, its identifiers are usable and distinct,
and its QoS 0 entries wait. A connection's in-flight count is the number of its entries
in flight. Addresses are new, so that an entry is one place only. -/
namespace WolfMqtt.Broker

/-! ### One queue -/

/-- A queue whose nodes lie below `n`. -/
structure QueueOk (n : Nat) (q : TailQueue OutPub) : Prop where
  wf : q.WF
  fresh : ∀ e ∈ q.chain, e.addr < n
  id_ne : ∀ e ∈ q.chain, e.qos ≠ .qos0 → e.packetId ≠ 0
  ids : q.chain.Pairwise (fun x y => x.qos ≠ .qos0 → y.qos ≠ .qos0 → x.packetId ≠ y.packetId)
  qos0 : ∀ e ∈ q.chain, e.qos = .qos0 → e.state = .queued

/-- What no write to an entry in a queue changes. -/
def OutPub.key (e : OutPub) : Nat × QoS × Nat := (e.addr, e.qos, e.packetId)

namespace QueueOk
variable {n m : Nat} {q q' : TailQueue OutPub} {e : OutPub}

theorem empty (n : Nat) : QueueOk n {} :=
  ⟨TailQueue.empty_wf, by simp, by simp, List.Pairwise.nil, by simp⟩

theorem mono (hnm : n ≤ m) (h : QueueOk n q) : QueueOk m q :=
  ⟨h.wf, fun e he => Nat.lt_of_lt_of_le (h.fresh e he) hnm, h.id_ne, h.ids, h.qos0⟩

/-- A queue with the same keys in the same order. -/
theorem of_keys (h : QueueOk n q) (htail : q'.tail = q.tail) (hcount : q'.count = q.count)
    (hkey : q'.chain.map OutPub.key = q.chain.map OutPub.key)
    (hqos0 : ∀ e ∈ q'.chain, e.qos = .qos0 → e.state = .queued) : QueueOk n q' := by
  have haddr : q'.chain.map Node.addr = q.chain.map Node.addr := by
    simpa [Function.comp_def, OutPub.key, Node.addr] using congrArg (List.map Prod.fst) hkey
  have hmem : ∀ e ∈ q'.chain, ∃ x ∈ q.chain, x.key = e.key := by
    intro e he
    have : e.key ∈ q.chain.map OutPub.key := hkey ▸ List.mem_map_of_mem he
    simpa using this
  refine ⟨h.wf.of_addrs htail hcount haddr, ?_, ?_, ?_, hqos0⟩
  · intro e he
    obtain ⟨x, hx, hxe⟩ := hmem e he
    simp only [OutPub.key, Prod.mk.injEq] at hxe
    exact hxe.1 ▸ h.fresh x hx
  · intro e he hq
    obtain ⟨x, hx, hxe⟩ := hmem e he
    simp only [OutPub.key, Prod.mk.injEq] at hxe
    exact hxe.2.2 ▸ h.id_ne x hx (hxe.2.1 ▸ hq)
  · have hpair : (q.chain.map OutPub.key).Pairwise
        (fun x y => x.2.1 ≠ .qos0 → y.2.1 ≠ .qos0 → x.2.2 ≠ y.2.2) := List.pairwise_map.mpr h.ids
    exact List.pairwise_map.mp (hkey ▸ hpair)

theorem enqueue (h : QueueOk n q) (ha : e.addr = n) (hs : e.state = .queued) (hid : FreshId q e) :
    QueueOk (n + 1) (q.enqueue e) := by
  have hchain := TailQueue.enqueue_chain q e h.wf
  have hnew : Node.addr e ∉ q.chain.map Node.addr := by
    intro hmem
    obtain ⟨x, hx, hxe⟩ := List.mem_map.mp hmem
    have := h.fresh x hx
    change x.addr = e.addr at hxe
    omega
  have hid0 : e.qos ≠ .qos0 → e.packetId ≠ 0 ∧ packetIdInQueue q.chain e.packetId = false := by
    intro hq
    simpa [FreshId, hq] using hid
  refine ⟨TailQueue.enqueue_wf q e h.wf hnew, ?_, ?_, ?_, ?_⟩
  · simp only [hchain, List.mem_append, List.mem_singleton]
    rintro x (hx | rfl)
    · exact Nat.lt_succ_of_lt (h.fresh x hx)
    · omega
  · simp only [hchain, List.mem_append, List.mem_singleton]
    rintro x (hx | rfl) hq
    · exact h.id_ne x hx hq
    · exact (hid0 hq).1
  · rw [hchain, List.pairwise_append]
    refine ⟨h.ids, List.pairwise_singleton _ _, ?_⟩
    intro x hx y hy hqx hqy
    rw [List.mem_singleton] at hy
    subst hy
    have hunused := (hid0 hqy).2
    simp only [packetIdInQueue, List.any_eq_false, decide_eq_true_eq] at hunused
    exact hunused x hx
  · simp only [hchain, List.mem_append, List.mem_singleton]
    rintro x (hx | rfl) hq
    · exact h.qos0 x hx hq
    · exact hs

theorem unlink (h : QueueOk n q) (he : e ∈ q.chain) : QueueOk n (q.unlink e.addr) := by
  have hsub : (q.unlink e.addr).chain.Sublist q.chain := List.eraseP_sublist
  have hmem : ∀ x ∈ (q.unlink e.addr).chain, x ∈ q.chain := fun x hx => hsub.subset hx
  exact ⟨TailQueue.unlink_wf q e.addr h.wf (List.mem_map_of_mem he), fun x hx => h.fresh x (hmem x hx),
    fun x hx => h.id_ne x (hmem x hx), h.ids.sublist hsub, fun x hx => h.qos0 x (hmem x hx)⟩

/-- Write to an entry in place. -/
theorem update (h : QueueOk n q) (he : e ∈ q.chain) (f : OutPub → OutPub) (hf : ∀ x, (f x).key = x.key)
    (hq : e.qos = .qos0 → (f e).state = .queued) : QueueOk n (q.update e.addr f) := by
  refine h.of_keys rfl rfl (Chain.map_writeAt OutPub.key (fun x _ => hf x)) ?_
  refine Chain.forall_writeAt h.qos0 (fun x hx hx0 => ?_)
  have hxe : some e = some x := (h.wf.at? he).symm.trans hx
  cases hxe
  have hqos : (f e).qos = e.qos := by
    have := hf e
    simp only [OutPub.key, Prod.mk.injEq] at this
    exact this.2.1
  exact hq (hqos ▸ hx0)

end QueueOk

/-! ### The in-flight count -/

theorem inflightCount_enqueue {q : TailQueue OutPub} (h : q.WF) {e : OutPub} (hs : e.state = .queued) :
    inflightCount (q.enqueue e).chain = inflightCount q.chain := by
  rw [inflightCount, TailQueue.enqueue_chain q e h, List.countP_append]
  simp [inflightCount, hs]

/-- An entry that waits is in no count of what is in flight. -/
theorem inflightCount_unlink_queued {q : TailQueue OutPub} (h : q.WF) {e : OutPub} (he : e ∈ q.chain)
    (hs : e.state = .queued) : inflightCount (q.unlink e.addr).chain = inflightCount q.chain := by
  have := TailQueue.countP_unlink q (fun e => decide (e.state ≠ .queued)) h e he
  simpa [inflightCount, Node.addr, hs] using this

theorem inflightCount_unlink_flight {q : TailQueue OutPub} (h : q.WF) {e : OutPub} (he : e ∈ q.chain)
    (hs : e.state ≠ .queued) : inflightCount (q.unlink e.addr).chain + 1 = inflightCount q.chain := by
  have := TailQueue.countP_unlink q (fun e => decide (e.state ≠ .queued)) h e he
  simpa [inflightCount, Node.addr, hs] using this

/-- A write that leaves an entry in flight, or waiting, leaves the count. -/
theorem inflightCount_update_same {q : TailQueue OutPub} (h : q.WF) {e : OutPub} (he : e ∈ q.chain)
    {f : OutPub → OutPub} (hf : (f e).state = .queued ↔ e.state = .queued) :
    inflightCount (q.update e.addr f).chain = inflightCount q.chain := by
  have := TailQueue.countP_update q (fun e => decide (e.state ≠ .queued)) f h e he
  simpa [inflightCount, Node.addr, hf] using this

theorem inflightCount_update_sent {q : TailQueue OutPub} (h : q.WF) {e : OutPub} (he : e ∈ q.chain)
    {f : OutPub → OutPub} (hs : e.state = .queued) (hf : (f e).state ≠ .queued) :
    inflightCount (q.update e.addr f).chain = inflightCount q.chain + 1 := by
  have := TailQueue.countP_update q (fun e => decide (e.state ≠ .queued)) f h e he
  simpa [inflightCount, Node.addr, hf, hs] using this

/-- A window that is not full leaves room for one more. -/
theorem lt_window {L : Limits} {receiveMax n : Nat} (h : (n : Int) < effectiveCap L receiveMax) :
    n < window L receiveMax := by
  unfold effectiveCap at h
  unfold window
  split at h <;> split <;> omega

/-! ### One connection -/

/-- A write to the transport found the window open. -/
def WritesInWindow (trace : List Obs) : Prop := ∀ e n w, Obs.writing e n w ∈ trace → n < w

theorem WritesInWindow.note {trace obs : List Obs} (h : WritesInWindow trace)
    (ho : ∀ e n w, Obs.writing e n w ∈ obs → n < w) : WritesInWindow (trace ++ obs) := by
  intro e n w hmem
  rcases List.mem_append.mp hmem with hmem | hmem
  · exact h e n w hmem
  · exact ho e n w hmem

structure CInv (s : CState) : Prop where
  addr_lt : s.conn.addr < s.nextAddr
  queue : QueueOk s.nextAddr s.conn.outQ
  inflight : s.conn.inflight = inflightCount s.conn.outQ.chain
  writes : WritesInWindow s.trace

theorem CStep.nextAddr_le {L : Limits} {ℓ : Label} {s t : CState} (h : CStep L ℓ s t) :
    s.nextAddr ≤ t.nextAddr := by
  cases h with
  | alloc n h => exact h
  | enqueue => exact Nat.le_succ _
  | _ => exact Nat.le_refl _

theorem inflightLess_eq {n m : Nat} (h : m + 1 = n) : inflightLess (n : Int) = m := by
  rw [inflightLess, if_pos (by omega)]
  omega

theorem not_mem_writing_issuedFor (q : TailQueue OutPub) (id : Nat) (e : Nat) (n w : Nat) :
    Obs.writing e n w ∉ issuedFor q id := by
  simp [issuedFor]

theorem CStep.inv {L : Limits} {ℓ : Label} {s t : CState} (h : CStep L ℓ s t) (hs : CInv s) : CInv t := by
  obtain ⟨haddr, hq, hi, hw⟩ := hs
  cases h with
  | alloc n hn => exact ⟨Nat.lt_of_lt_of_le haddr hn, hq.mono hn, hi, hw⟩
  | connack => exact ⟨haddr, hq, hi, hw.note (by simp)⟩
  | negotiate => exact ⟨haddr, hq, hi, hw⟩
  | enqueue e ha hstate hl hid =>
    have hcount := inflightCount_enqueue hq.wf hstate
    exact ⟨Nat.lt_succ_of_lt haddr, hq.enqueue ha hstate hid,
      hi.trans (congrArg Nat.cast hcount.symm), hw.note (by simp)⟩
  | encode => exact ⟨haddr, hq, hi, hw.note (by simp)⟩
  | send => exact ⟨haddr, hq, hi, hw.note (by simp)⟩
  | write e he hstate hqos hcap =>
    refine ⟨haddr, hq, hi, hw.note ?_⟩
    simp only [List.mem_singleton, Obs.writing.injEq]
    rintro _ n w ⟨-, rfl, rfl⟩
    exact lt_window (by rw [← hi]; exact hcap)
  | sent e he hstate hqos =>
    have hcount := inflightCount_update_sent hq.wf he (f := OutPub.toSent) hstate (by simp [OutPub.toSent])
    refine ⟨haddr, hq.update he OutPub.toSent (fun _ => rfl) (fun h0 => absurd h0 hqos), ?_, hw.note (by simp)⟩
    change s.conn.inflight + 1 = ((inflightCount (s.conn.outQ.update e.addr OutPub.toSent).chain : Nat) : Int)
    rw [hcount, hi]
    rfl
  | sentQos0 e he hstate hqos =>
    have hcount := inflightCount_unlink_queued hq.wf he hstate
    exact ⟨haddr, hq.unlink he, hi.trans (congrArg Nat.cast hcount.symm), (hw.note (by simp)).note (by simp)⟩
  | unsent e cause he hstate hc =>
    have hcount := inflightCount_unlink_queued hq.wf he hstate
    exact ⟨haddr, hq.unlink he, hi.trans (congrArg Nat.cast hcount.symm), hw.note (by simp)⟩
  | markDup e dup he =>
    have hcount := inflightCount_update_same hq.wf he (f := OutPub.setDup dup) Iff.rfl
    exact ⟨haddr, hq.update he (OutPub.setDup dup) (fun _ => rfl) (hq.qos0 e he),
      hi.trans (congrArg Nat.cast hcount.symm), hw⟩
  | reissue => exact ⟨haddr, hq, hi, hw.note (by simp)⟩
  | received e he hstate hqos =>
    have hcount := inflightCount_update_same hq.wf he (f := OutPub.toReleased) (by simp [OutPub.toReleased, hstate])
    exact ⟨haddr, hq.update he OutPub.toReleased (fun _ => rfl) (fun h0 => by simp [hqos] at h0),
      hi.trans (congrArg Nat.cast hcount.symm),
      hw.note (fun e n w hmem => absurd hmem (not_mem_writing_issuedFor _ _ e n w))⟩
  | receivedMute e he hstate hqos =>
    have hcount := inflightCount_update_same hq.wf he (f := OutPub.toReleased) (by simp [OutPub.toReleased, hstate])
    exact ⟨haddr, hq.update he OutPub.toReleased (fun _ => rfl) (fun h0 => by simp [hqos] at h0),
      hi.trans (congrArg Nat.cast hcount.symm), hw⟩
  | respond packetId =>
    exact ⟨haddr, hq, hi, hw.note (fun e n w hmem => absurd hmem (not_mem_writing_issuedFor _ _ e n w))⟩
  | acked e cause he hc =>
    have hflight : e.state ≠ .queued := by cases hc <;> simp_all
    have hcount := inflightCount_unlink_flight hq.wf he hflight
    refine ⟨haddr, hq.unlink he, ?_, hw.note (by simp)⟩
    change inflightLess s.conn.inflight = _
    rw [hi]
    exact inflightLess_eq hcount

/-! ### The system -/

structure QInv (s : QState) : Prop where
  conns_nodup : (s.conns.map Node.addr).Nodup
  orphans_nodup : (s.orphans.map Node.addr).Nodup
  conns_lt : ∀ c ∈ s.conns, c.addr < s.nextAddr
  orphans_lt : ∀ o ∈ s.orphans, o.addr < s.nextAddr
  queue : ∀ c ∈ s.conns, QueueOk s.nextAddr c.outQ
  inflight : ∀ c ∈ s.conns, c.inflight = inflightCount c.outQ.chain
  orphan : ∀ o ∈ s.orphans, QueueOk s.nextAddr o.outQ
  writes : WritesInWindow s.trace

theorem QInv.focus {s : QState} (h : QInv s) {c : QConn} (hc : c ∈ s.conns) : CInv (s.focus c) :=
  ⟨h.conns_lt c hc, h.queue c hc, h.inflight c hc, h.writes⟩

/-- A connection takes a step of its own. -/
theorem QInv.withConn {s : QState} (h : QInv s) {a : Nat} {c : QConn} (hc : s.conn? a = some c) {t : CState}
    (ht : CInv t) (haddr : t.conn.addr = c.addr) (hle : s.nextAddr ≤ t.nextAddr) : QInv (s.withConn a t) := by
  have hmap : (Chain.writeAt a (fun _ => t.conn) s.conns).map Node.addr = s.conns.map Node.addr :=
    Chain.map_writeAt Node.addr (fun x hx => haddr.trans ((Chain.at?_addr hc).trans (Chain.at?_addr hx).symm))
  refine ⟨hmap ▸ h.conns_nodup, h.orphans_nodup, ?_, ?_, ?_, ?_, ?_, ht.writes⟩
  · exact Chain.forall_writeAt (fun x hx => Nat.lt_of_lt_of_le (h.conns_lt x hx) hle) (fun _ _ => ht.addr_lt)
  · exact fun o ho => Nat.lt_of_lt_of_le (h.orphans_lt o ho) hle
  · exact Chain.forall_writeAt (fun x hx => (h.queue x hx).mono hle) (fun _ _ => ht.queue)
  · exact Chain.forall_writeAt h.inflight (fun _ _ => ht.inflight)
  · exact fun o ho => (h.orphan o ho).mono hle

theorem QInv.note {s : QState} (h : QInv s) {obs : List Obs} (ho : ∀ e n w, Obs.writing e n w ∉ obs) :
    QInv (s.note obs) :=
  {h with writes := h.writes.note (fun e n w hmem => absurd hmem (ho e n w))}

theorem QInv.bump {s : QState} (h : QInv s) {n : Nat} (hn : s.nextAddr ≤ n) : QInv {s with nextAddr := n} where
  conns_nodup := h.conns_nodup
  orphans_nodup := h.orphans_nodup
  conns_lt c hc := Nat.lt_of_lt_of_le (h.conns_lt c hc) hn
  orphans_lt o ho := Nat.lt_of_lt_of_le (h.orphans_lt o ho) hn
  queue c hc := (h.queue c hc).mono hn
  inflight := h.inflight
  orphan o ho := (h.orphan o ho).mono hn
  writes := h.writes

theorem QInv.dropConn {s : QState} (h : QInv s) (a : Nat) : QInv (s.dropConn a) :=
  {h with
    conns_nodup := Chain.nodup_removeAt h.conns_nodup a
    conns_lt := fun c hc => h.conns_lt c (Chain.mem_of_mem_removeAt hc)
    queue := fun c hc => h.queue c (Chain.mem_of_mem_removeAt hc)
    inflight := fun c hc => h.inflight c (Chain.mem_of_mem_removeAt hc)}

theorem QInv.dropOrphan {s : QState} (h : QInv s) (a : Nat) : QInv (s.dropOrphan a) :=
  {h with
    orphans_nodup := Chain.nodup_removeAt h.orphans_nodup a
    orphans_lt := fun o ho => h.orphans_lt o (Chain.mem_of_mem_removeAt ho)
    orphan := fun o ho => h.orphan o (Chain.mem_of_mem_removeAt ho)}

theorem QInv.setOrphan {s : QState} (h : QInv s) (a : Nat) {q : TailQueue OutPub} (hq : QueueOk s.nextAddr q) :
    QInv (s.setOrphan a q) := by
  have hmap : (Chain.writeAt a (fun o => {o with outQ := q}) s.orphans).map Node.addr = s.orphans.map Node.addr :=
    Chain.map_writeAt Node.addr (fun _ _ => rfl)
  refine {h with orphans_nodup := hmap ▸ h.orphans_nodup, orphans_lt := ?_, orphan := ?_}
  · exact Chain.forall_writeAt h.orphans_lt (fun o ho => h.orphans_lt o (Chain.at?_mem ho))
  · exact Chain.forall_writeAt h.orphan (fun _ _ => hq)

/-! ### Moving a queue -/

theorem renumber_map_key (n : Nat) (es : List OutPub) : (renumber n es).map OutPub.key = es.map OutPub.key := by
  induction es generalizing n with
  | nil => rfl
  | cons e rest ih => simp only [renumber, List.map_cons, ih]; rfl

theorem mem_renumber {n : Nat} {es : List OutPub} {x : OutPub} (h : x ∈ renumber n es) :
    ∃ e ∈ es, ∃ m, x = {e with enqueueSeq := m} := by
  induction es generalizing n with
  | nil => cases h
  | cons e rest ih =>
    rcases List.mem_cons.mp h with rfl | h
    · exact ⟨e, List.mem_cons_self, n, rfl⟩
    · obtain ⟨e', he', hx⟩ := ih h
      exact ⟨e', List.mem_cons_of_mem _ he', hx⟩

theorem QueueOk.renumber {n : Nat} {q : TailQueue OutPub} (h : QueueOk n q) :
    QueueOk n {q with chain := renumber 1 q.chain} := by
  refine h.of_keys rfl rfl (renumber_map_key 1 q.chain) ?_
  intro x hx hq
  obtain ⟨e, he, m, rfl⟩ := mem_renumber hx
  exact h.qos0 e he hq

theorem OutPub.resume_key (e : OutPub) : e.resume.key = e.key := by
  unfold OutPub.resume
  split <;> rfl

theorem OutPub.resume_state_queued (e : OutPub) : e.resume.state = .queued ↔ e.state ≠ .pubrelSent := by
  unfold OutPub.resume
  split <;> simp_all

theorem QueueOk.resume {n : Nat} {q : TailQueue OutPub} (h : QueueOk n q) :
    QueueOk n (q.updateAll OutPub.resume) := by
  have hkey : (q.chain.map OutPub.resume).map OutPub.key = q.chain.map OutPub.key := by
    rw [List.map_map]
    exact List.map_congr_left (fun e _ => e.resume_key)
  refine h.of_keys rfl rfl hkey ?_
  intro x hx hq
  obtain ⟨e, he, rfl⟩ := List.mem_map.mp hx
  have hqos : e.qos = .qos0 := by
    have := e.resume_key
    simp only [OutPub.key, Prod.mk.injEq] at this
    exact this.2.1 ▸ hq
  rw [OutPub.resume_state_queued, h.qos0 e he hqos]
  simp

/-- After a resumption the PUBRELs are what is in flight. -/
theorem inflightCount_resume (q : TailQueue OutPub) :
    inflightCount (q.updateAll OutPub.resume).chain = q.chain.countP (fun e => e.state = .pubrelSent) := by
  simp only [inflightCount, TailQueue.updateAll, List.countP_map]
  refine List.countP_congr (fun e _ => ?_)
  simp [OutPub.resume_state_queued]

theorem QStep.inv {L : Limits} {ℓ : Label} {s t : QState} (h : QStep L ℓ s t) (hs : QInv s) : QInv t := by
  cases h with
  | conn a c hc hstep =>
    exact hs.withConn hc (hstep.inv (hs.focus (Chain.at?_mem hc))) hstep.addr_eq hstep.nextAddr_le
  | alloc n hn => exact hs.bump hn
  | accept =>
    have hnew : s.nextAddr ∉ s.conns.map Node.addr := by
      intro hmem
      obtain ⟨c, hc, heq⟩ := List.mem_map.mp hmem
      exact Nat.ne_of_lt (hs.conns_lt c hc) heq
    have hs' := hs.bump (Nat.le_succ s.nextAddr)
    refine {hs' with conns_nodup := List.nodup_cons.mpr ⟨hnew, hs.conns_nodup⟩, conns_lt := ?_, queue := ?_, inflight := ?_}
    · exact List.forall_mem_cons.mpr ⟨Nat.lt_succ_self _, hs'.conns_lt⟩
    · exact List.forall_mem_cons.mpr ⟨QueueOk.empty _, hs'.queue⟩
    · exact List.forall_mem_cons.mpr ⟨rfl, hs'.inflight⟩
  | remove a c cause hc _ => exact (hs.dropConn a).note (by simp)
  | take a c hc =>
    have hmem := Chain.at?_mem hc
    have hfocus := hs.focus hmem
    have hempty : CInv ((s.focus c).setQueue {} 0) := ⟨hfocus.addr_lt, QueueOk.empty _, rfl, hfocus.writes⟩
    have hs' := (hs.withConn hc hempty rfl (Nat.le_refl _)).bump (Nat.le_succ s.nextAddr)
    have hnew : s.nextAddr ∉ s.orphans.map Node.addr := by
      intro hmem
      obtain ⟨o, ho, heq⟩ := List.mem_map.mp hmem
      exact Nat.ne_of_lt (hs.orphans_lt o ho) heq
    refine {hs' with orphans_nodup := List.nodup_cons.mpr ⟨hnew, hs.orphans_nodup⟩, orphans_lt := ?_, orphan := ?_}
    · exact List.forall_mem_cons.mpr ⟨Nat.lt_succ_self _, hs'.orphans_lt⟩
    · exact List.forall_mem_cons.mpr ⟨((hs.queue c hmem).renumber).mono (Nat.le_succ _), hs'.orphan⟩
  | reclaim a c o hc he ho =>
    have hmem := Chain.at?_mem hc
    have hfocus := hs.focus hmem
    have hq := (hs.orphan o (Chain.at?_mem ho)).resume
    have hresumed : CInv {s.focus c with conn := c.resume o} :=
      ⟨hfocus.addr_lt, hq, congrArg Nat.cast (inflightCount_resume o.outQ).symm, hfocus.writes⟩
    exact (hs.withConn hc hresumed rfl (Nat.le_refl _)).dropOrphan o.addr
  | dropOrphan o ho => exact (hs.dropOrphan o.addr).note (by simp)
  | evict o head ho hhead =>
    exact (hs.setOrphan o.addr ((hs.orphan o (Chain.at?_mem ho)).unlink hhead)).note (by simp)
  | offline o e ho ha hstate hl hid =>
    have hs' := (hs.bump (Nat.le_succ s.nextAddr)).setOrphan o.addr
      ((hs.orphan o (Chain.at?_mem ho)).enqueue ha hstate hid)
    exact hs'.note (by simp)

theorem QRun.inv {L : Limits} {P : Label → Prop} {s t : QState} (h : QRun L P s t) (hs : QInv s) : QInv t :=
  h.invariant (fun _ _ _ _ hstep hinv => hstep.inv hinv) hs

theorem QStep.nextAddr_le {L : Limits} {ℓ : Label} {s t : QState} (h : QStep L ℓ s t) : s.nextAddr ≤ t.nextAddr := by
  cases h with
  | conn a c hc hstep => exact hstep.nextAddr_le
  | alloc n hn => exact hn
  | accept | take | offline => exact Nat.le_succ _
  | remove | reclaim | dropOrphan | evict => exact Nat.le_refl _

end WolfMqtt.Broker
