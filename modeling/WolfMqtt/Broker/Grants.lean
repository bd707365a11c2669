import WolfMqtt.Broker.TableReach

/-! SUBSCRIBE and UNSUBSCRIBE, filter by filter.

The code of every topic tells what the table holds for it when it is done, and a topic that
is granted has the retained messages it asks for put into the queue, in the order of the
store. -/
namespace WolfMqtt.Broker

/-! ### What a topic is owed -/

/-- The entry of a retained message in the queue of a subscriber. -/
structure Recalls (qos : QoS) (level : Nat) (m : RetainedMsg) (e : OutPub) : Prop where
  topic : e.topic = m.topic
  payload : e.payload = m.payload
  props : e.props = []
  qos : e.qos = m.qos.min qos
  retain : e.retain = true
  level : e.protocolLevel = level
  state : e.state = .queued
  packetId : e.qos ≠ .qos0 → e.packetId ≠ 0

/-- The retained messages of a filter that have not expired. -/
def current (now : Nat) (filter : Bytes) (msgs : List RetainedMsg) : List RetainedMsg :=
  msgs.filter (fun m => !retainedExpired now m && topicMatch filter m.topic)

/-- The retained messages a topic asks for. Retain Handling 2 is for none, and 1 for none where the
subscription is old. -/
def MqttBroker.owed (b : MqttBroker) (a level : Nat) (t : SubTopic) : List RetainedMsg :=
  if level5 ≤ level ∧ (t.retainHandling = 2 ∨ t.retainHandling = 1 ∧ b.grant a t.filter ≠ []) then []
  else current b.env.getTime.1 t.filter b.retained

/-- The queue of the connection at `a` has gained the messages. -/
structure Gained (a : Nat) (qos : QoS) (msgs : List RetainedMsg) (b b' : MqttBroker) : Prop where
  beside : Beside a b b'
  queue : ∀ c, b.client? a = some c → ∃ c' es, b'.client? a = some c' ∧ c'.protocolLevel = c.protocolLevel ∧
    c'.outQ.chain = c.outQ.chain ++ es ∧ List.Forall₂ (Recalls qos c.protocolLevel) msgs es

namespace Gained
variable {a : Nat} {qos : QoS} {ms ms' : List RetainedMsg} {b b₁ b' : MqttBroker}

theorem nil (h : Untouched b b') : Gained a qos [] b b' where
  beside := h.beside a
  queue c hc := ⟨c, [], (h.client? a).trans hc, rfl, (List.append_nil _).symm, .nil⟩

theorem append (h : Gained a qos ms b b₁) (h' : Gained a qos ms' b₁ b') : Gained a qos (ms ++ ms') b b' where
  beside := h.beside.trans h'.beside
  queue c hc := by
    obtain ⟨c₁, es, hc₁, hlevel, hchain, hes⟩ := h.queue c hc
    obtain ⟨c', es', hc', hlevel', hchain', hes'⟩ := h'.queue c₁ hc₁
    refine ⟨c', es ++ es', hc', hlevel'.trans hlevel, ?_, List.rel_append hes (hlevel ▸ hes')⟩
    rw [hchain', hchain, List.append_assoc]

end Gained

section grants
variable {L : Limits} {a : Nat} {qos : QoS} {b : MqttBroker} {c : BrokerClient}

/-! ### Retained messages for a new subscription -/

theorem nextPacketIdForQueue_untouched (q : List OutPub) : Moves Untouched (nextPacketIdForQueue q) := by
  intro b
  unfold nextPacketIdForQueue
  dsimp only
  generalize scanPacketId q 65535 _ = r
  cases r <;> exact ⟨rfl, rfl, rfl, id⟩

theorem enqueueFor_recalls (hq : QInv b.view) (m : RetainedMsg)
    (h : 0 ≤ (enqueueFor a m.topic m.payload [] (m.qos.min qos) true b).1) :
    (enqueueFor a m.topic m.payload [] (m.qos.min qos) true b).1 = Code.success ∧
      Gained a qos [m] b (enqueueFor a m.topic m.payload [] (m.qos.min qos) true b).2 := by
  have hput : ∀ {b₁ : MqttBroker} {c : BrokerClient} (e : OutPub), Untouched b b₁ → b₁.client? a = some c →
      Recalls qos c.protocolLevel m e → Gained a qos [m] b (onClient a () (enqueueOutPub e) b₁).2 := by
    intro b₁ c e h₁ hc₁ he
    obtain ⟨hbeside, hc'⟩ := onClient_beside (m := enqueueOutPub e) hc₁ () rfl rfl
    refine ⟨(h₁.beside a).trans hbeside, fun x hx => ?_⟩
    have hcx : b.client? a = some c := (h₁.client? a).symm.trans hc₁
    obtain rfl := Option.some.inj (hcx.symm.trans hx)
    exact ⟨_, [e], hc', rfl, TailQueue.enqueue_chain c.outQ e (hq.client_ok hx).wf, .cons he .nil⟩
  simp only [enqueueFor, run_bind] at h ⊢
  have halloc := alloc_untouched b
  generalize alloc b = r at h halloc ⊢
  obtain ⟨slot, b₁⟩ := r
  cases slot with
  | none => exact absurd (show 0 ≤ Code.memory from h) (by decide)
  | some slot =>
    dsimp only at h halloc ⊢
    simp only [run_bind, run_get] at h ⊢
    cases hc₁ : b₁.client? a with
    | none =>
      rw [hc₁] at h
      exact absurd (show 0 ≤ Code.badArg from h) (by decide)
    | some c =>
      rw [hc₁] at h
      dsimp only at h ⊢
      by_cases hqos : m.qos.min qos = .qos0
      · rw [if_pos hqos] at h ⊢
        exact ⟨rfl, hput _ halloc hc₁ ⟨rfl, rfl, rfl, rfl, rfl, rfl, rfl, fun hne => absurd hqos hne⟩⟩
      · rw [if_neg hqos] at h ⊢
        have hnext := nextPacketIdForQueue_untouched c.outQ.chain b₁
        simp only [run_bind] at h ⊢
        generalize nextPacketIdForQueue c.outQ.chain b₁ = r at h hnext ⊢
        obtain ⟨id, b₂⟩ := r
        dsimp only at h hnext ⊢
        by_cases hid : id = 0
        · rw [if_pos hid] at h
          exact absurd (show 0 ≤ Code.packetId from h) (by decide)
        · rw [if_neg hid] at h ⊢
          refine ⟨rfl, hput _ (trans_of Untouched halloc hnext) ((hnext.client? a).trans hc₁) ?_⟩
          exact ⟨rfl, rfl, rfl, rfl, rfl, rfl, rfl, fun _ => hid⟩

theorem retainedDeliverOne_recalls (hq : QInv b.view) (m : RetainedMsg) (h : 0 ≤ (retainedDeliverOne L a m qos b).1) :
    (retainedDeliverOne L a m qos b).1 = Code.success ∧ Gained a qos [m] b (retainedDeliverOne L a m qos b).2 := by
  simp only [retainedDeliverOne, run_bind, run_get] at h ⊢
  cases hc : b.client? a with
  | none =>
    rw [hc] at h
    exact absurd (show 0 ≤ Code.badArg from h) (by decide)
  | some c =>
    rw [hc] at h
    dsimp only at h ⊢
    split
    · rename_i hfull
      rw [if_pos hfull] at h
      exact absurd (show 0 ≤ Code.memory from h) (by decide)
    · rename_i hroom
      rw [if_neg hroom] at h
      exact enqueueFor_recalls hq m h

/-- An expired message leaves the store. -/
def dropRetained (m : RetainedMsg) : BrokerM Unit := do
  persistOps [.delRetained m.topic]
  modify (fun b => {b with
    retained := b.retained.eraseP (· = m)
    retainedCount := if b.retainedCount > 0 then b.retainedCount - 1 else b.retainedCount})

theorem dropRetained_inv (hq : QInv b.view) (m : RetainedMsg) : QInv (dropRetained m b).2.view := by
  have hfans : Moves (Fans {} (fun _ => True) (fun _ => True) True) (dropRetained m) :=
    .bind (persistOps_fans fun _ => rfl) fun _ => .modify fun _ => .of_eq (.of_eq rfl rfl rfl rfl (.of_eq rfl rfl)) rfl
  exact (hfans b).inv hq

theorem retainedDeliverLoop_recalls (hq : QInv b.view) (filter : Bytes) (now : Nat) (ms : List RetainedMsg)
    (h : 0 ≤ (retainedDeliverLoop L a filter qos now ms b).1) :
    Gained a qos (current now filter ms) b (retainedDeliverLoop L a filter qos now ms b).2 := by
  induction ms generalizing b with
  | nil => exact .nil (refl b)
  | cons m rest ih =>
    have hone : QInv (retainedDeliverOne L a m qos b).2.view :=
      (retainedDeliverOne_fans (L := L) (T := fun _ => True) (O := True) ordinary_all (a := a) trivial m qos b).inv hq
    unfold retainedDeliverLoop at h ⊢
    by_cases hexp : retainedExpired now m = true
    · have hcurrent : current now filter (m :: rest) = current now filter rest := List.filter_cons_of_neg (by simp [hexp])
      have hdrop : Untouched b (dropRetained m b).2 := ⟨rfl, rfl, rfl, id⟩
      rw [if_pos hexp] at h ⊢
      rw [hcurrent]
      exact (Gained.nil hdrop).append (ih (dropRetained_inv hq m) h)
    rw [if_neg hexp] at h ⊢
    by_cases hmatch : topicMatch filter m.topic = true
    · have hcurrent : current now filter (m :: rest) = m :: current now filter rest :=
        List.filter_cons_of_pos (by simp [hexp, hmatch])
      rw [if_pos hmatch] at h ⊢
      simp only [run_bind] at h ⊢
      by_cases hrc : (retainedDeliverOne L a m qos b).1 = Code.success
      · have hsuccess := retainedDeliverOne_recalls hq m (Int.le_of_eq hrc.symm)
        simp only [hrc, ne_eq, not_true_eq_false, if_false] at h ⊢
        rw [hcurrent]
        exact hsuccess.2.append (ih hone h)
      · rw [if_pos hrc] at h
        exact absurd (retainedDeliverOne_recalls hq m h).1 hrc
    · have hcurrent : current now filter (m :: rest) = current now filter rest := List.filter_cons_of_neg (by simp [hmatch])
      rw [if_neg hmatch] at h ⊢
      rw [hcurrent]
      exact ih hq h

theorem getTime_eq (env : Env) : env.getTime.1 = env.clock.headD env.now := by
  unfold Env.getTime
  cases env.clock <;> rfl

theorem getTime_alloc (env : Env) : env.alloc.2.getTime.1 = env.getTime.1 := by
  rw [getTime_eq, getTime_eq]
  unfold Env.alloc
  split
  · rfl
  · split <;> rfl

theorem retainedDeliverToClient_recalls (hq : QInv b.view) (filter : Bytes)
    (h : 0 ≤ (retainedDeliverToClient L a filter qos b).1) :
    Gained a qos (current b.env.getTime.1 filter b.retained) b (retainedDeliverToClient L a filter qos b).2 := by
  have hq₁ : QInv (getTime b).2.view := ((getTime_fans (L := L) (P := fun _ => True) (T := fun _ => True) (O := True)) b).inv hq
  exact (Gained.nil (getTime_untouched b)).append (retainedDeliverLoop_recalls (b := (getTime b).2) hq₁ filter _ _ h)

theorem subscribeRetained_recalls (hq : QInv b.view) (t : SubTopic) (h : 0 ≤ (subscribeRetained L a t b).1) :
    Gained a t.qos (current b.env.getTime.1 t.filter b.retained) b (subscribeRetained L a t b).2 := by
  unfold subscribeRetained at h ⊢
  by_cases hlong : t.filter.length ≥ L.maxFilterLen
  · rw [if_pos hlong] at h ⊢
    have hq₁ : QInv (alloc b).2.view := ((alloc_fans (L := L) (T := fun _ => True) (O := True) ordinary_all) b).inv hq
    have huntouched := alloc_untouched b
    have htime := getTime_alloc b.env
    simp only [run_bind] at h ⊢
    rw [show b.retained = (alloc b).2.retained from rfl, ← htime]
    rw [show b.env.alloc.2 = (alloc b).2.env from rfl]
    generalize alloc b = r at h hq₁ huntouched ⊢
    obtain ⟨slot, b₁⟩ := r
    cases slot with
    | none => exact absurd (show 0 ≤ Code.memory from h) (by decide)
    | some slot => exact (Gained.nil huntouched).append (retainedDeliverToClient_recalls hq₁ t.filter h)
  · rw [if_neg hlong] at h ⊢
    exact retainedDeliverToClient_recalls hq t.filter h

/-! ### One subscription -/

/-- The entries of the table that are not the connection's for the filter. -/
def MqttBroker.besideGrant (b : MqttBroker) (a : Nat) (filter : Bytes) : List BrokerSub :=
  b.subs.filter (fun s => ¬(s.client = some a ∧ s.filter = filter))

/-- The connection at `a` holds the filter at a QoS, and no other entry changes. -/
structure Granted (a : Nat) (filter : Bytes) (qos : QoS) (b b' : MqttBroker) : Prop where
  held : ∃ s, b'.grant a filter = [s] ∧ s.qos = qos
  kept : b'.besideGrant a filter = b.besideGrant a filter

theorem Granted.of_subs {filter : Bytes} {b₁ b' : MqttBroker} (h : Granted a filter qos b b₁) (hsubs : b'.subs = b₁.subs) :
    Granted a filter qos b b' := by
  constructor
  · rw [MqttBroker.grant, hsubs]
    exact h.held
  · rw [MqttBroker.besideGrant, hsubs]
    exact h.kept

theorem filter_replaceF_head {α : Type} {p : α → Prop} [DecidablePred p] {g : α → α} (hg : ∀ x, p x → p (g x)) (l : List α) :
    (l.replaceF (fun x => if p x then some (g x) else none)).filter (fun x => p x) =
      (l.filter (fun x => p x)).modifyHead g := by
  induction l with
  | nil => rfl
  | cons x rest ih =>
    rw [List.replaceF]
    by_cases hx : p x
    · rw [if_pos hx]
      dsimp only
      rw [List.filter_cons_of_pos (by simpa using hg x hx), List.filter_cons_of_pos (by simpa using hx)]
      rfl
    · rw [if_neg hx]
      dsimp only
      rw [List.filter_cons_of_neg (by simpa using hx), List.filter_cons_of_neg (by simpa using hx), ih]

theorem grant_nil_iff {filter : Bytes} : b.grant a filter = [] ↔ ¬∃ s ∈ b.subs, s.client = some a ∧ s.filter = filter := by
  rw [MqttBroker.grant, List.filter_eq_nil_iff]
  simp

/-- What `BrokerSubs_Add` does to an entry that is there. -/
theorem subsAdd_renews {filter : Bytes} (hold : ∃ s ∈ b.subs, s.client = some a ∧ s.filter = filter)
    (hone : (b.grant a filter).length ≤ 1) :
    (subsAdd L a filter qos b).1 = Code.success ∧ Granted a filter qos b (subsAdd L a filter qos b).2 := by
  have hany : b.subs.any (fun s => s.client = some a ∧ s.filter = filter) = true := by simpa using hold
  have hgrant : b.grant a filter ≠ [] := fun hnil => grant_nil_iff.mp hnil hold
  refine ⟨?_, ?_⟩
  · show ((if b.subs.any (fun s => s.client = some a ∧ s.filter = filter) then _ else _ : BrokerM Int) b).1 = _
    rw [if_pos hany]
    rfl
  rw [subsAdd_old hold]
  constructor
  · obtain ⟨s, rest, hs⟩ := List.exists_cons_of_ne_nil hgrant
    have hrest : rest = [] := List.length_eq_zero_iff.mp (by rw [hs, List.length_cons] at hone; omega)
    subst hrest
    refine ⟨{s with qos := qos}, ?_, rfl⟩
    show List.filter _ (b.subs.replaceF _) = _
    rw [filter_replaceF_head (p := fun s : BrokerSub => s.client = some a ∧ s.filter = filter)
      (g := fun s => {s with qos := qos}) (fun _ h => h)]
    exact congrArg (List.modifyHead _) hs
  · show List.filter _ (b.subs.replaceF _) = _
    refine filter_replaceF_of_disjoint fun s s' hs => ?_
    split at hs
    · rename_i hp
      obtain rfl := Option.some.inj hs
      exact ⟨decide_eq_false (not_not.mpr hp), decide_eq_false (not_not.mpr hp)⟩
    · cases hs

/-- What `BrokerSubs_Add` does. -/
theorem subsAdd_spec (hc : b.client? a = some c) {filter : Bytes} (hone : (b.grant a filter).length ≤ 1) :
    let r := subsAdd L a filter qos b
    (0 ≤ r.1 → Granted a filter qos b r.2 ∧ (r.1 = 1 ↔ b.grant a filter = [])) ∧
    (r.1 < 0 → b.grant a filter = [] ∧ r.2.subs = b.subs) ∧
    Gained a qos [] b r.2 ∧ r.2.retained = b.retained ∧ r.2.env.getTime.1 = b.env.getTime.1 := by
  by_cases hold : ∃ s ∈ b.subs, s.client = some a ∧ s.filter = filter
  · obtain ⟨hrc, hgranted⟩ : _ ∧ Granted a filter qos b (subsAdd L a filter qos b).2 := subsAdd_renews hold hone
    have hgrant : b.grant a filter ≠ [] := fun hnil => grant_nil_iff.mp hnil hold
    have hstate := @subsAdd_old L b a filter qos hold
    dsimp only
    rw [hrc]
    refine ⟨fun _ => ⟨hgranted, iff_of_false (by decide) hgrant⟩, fun hneg => absurd hneg (by decide), ?_, ?_, ?_⟩
    · rw [hstate]
      exact ⟨⟨fun _ _ => rfl, rfl, id⟩, fun x hx => ⟨x, [], hx, rfl, (List.append_nil _).symm, .nil⟩⟩
    · rw [hstate]
    · rw [hstate]
  have hgrant : b.grant a filter = [] := grant_nil_iff.mpr hold
  have hany : ¬b.subs.any (fun s => s.client = some a ∧ s.filter = filter) = true := by simpa using hold
  have hrun : subsAdd L a filter qos b =
      if c.subCount ≥ L.maxSubsPerClient then (Code.memory, b)
      else b.env.alloc.1.elim (Code.memory, {b with env := b.env.alloc.2}) (fun _ =>
        (1, b.addSub a {filter := filter, clientId := c.clientId, client := some a, qos := qos} b.env.alloc.2)) := by
    show ((if b.subs.any (fun s => s.client = some a ∧ s.filter = filter) then _ else _ : BrokerM Int) b) = _
    rw [if_neg hany, hc]
    dsimp only
    split
    · rfl
    · simp only [run_bind, alloc]
      generalize b.env.alloc = r
      obtain ⟨slot, env⟩ := r
      cases slot <;> rfl
  have hmemory : ¬0 ≤ Code.memory := by decide
  have hone : ¬(1 : Int) < 0 := by decide
  rw [hrun]
  split
  · exact ⟨fun h => absurd h hmemory, fun _ => ⟨hgrant, rfl⟩, .nil (refl b), rfl, rfl⟩
  have halloc := alloc_untouched b
  have htime := getTime_alloc b.env
  have hplenty : b.env.Plenty → b.env.alloc.2.Plenty := halloc.plenty
  generalize b.env.alloc = r at htime hplenty ⊢
  obtain ⟨slot, env⟩ := r
  cases slot with
  | none =>
    exact ⟨fun h => absurd h hmemory, fun _ => ⟨hgrant, rfl⟩, .nil ⟨rfl, rfl, rfl, hplenty⟩, rfl, htime⟩
  | some slot =>
    let s : BrokerSub := {filter := filter, clientId := c.clientId, client := some a, qos := qos}
    refine ⟨fun _ => ⟨⟨⟨s, ?_, rfl⟩, ?_⟩, iff_of_true rfl hgrant⟩, fun h => absurd h hone, ?_, rfl, htime⟩
    · show List.filter _ (_ :: b.subs) = _
      rw [List.filter_cons_of_pos (by simp)]
      exact congrArg _ hgrant
    · exact List.filter_cons_of_neg (by simp)
    · refine ⟨⟨fun x hx => ?_, rfl, hplenty⟩, fun x hx => ?_⟩
      · exact Chain.at?_writeAt_ne_of (f := fun c : BrokerClient => {c with subCount := c.subCount + 1})
          (fun y hy => Chain.at?_addr (x := y) hy) hx
      · exact ⟨{x with subCount := x.subCount + 1}, [], Chain.at?_writeAt_self hx (Chain.at?_addr (x := x) hx), rfl,
          (List.append_nil _).symm, .nil⟩

/-! ### Topic after topic -/

/-- One topic of a SUBSCRIBE, and its code. -/
inductive TopicAnswered (a level : Nat) (t : SubTopic) (b b' : MqttBroker) : UInt8 → Prop
  | granted (held : Granted a t.filter t.qos b b') (gained : Gained a t.qos (b.owed a level t) b b') :
      TopicAnswered a level t b b' (UInt8.ofNat t.qos.toNat)
  | refused {code : UInt8} (failure : code = 0x80 ∨ code = Reason.quotaExceeded) (new : b.grant a t.filter = [])
      (subs : b'.subs = b.subs) (gained : Gained a t.qos [] b b') : TopicAnswered a level t b b' code

/-- No filter is held twice. -/
def MqttBroker.HeldOnce (b : MqttBroker) (a : Nat) : Prop := ∀ filter, (b.grant a filter).length ≤ 1

theorem grant_besideGrant {filter other : Bytes} (hne : filter ≠ other) :
    b.grant a filter = (b.besideGrant a other).filter (fun s => s.client = some a ∧ s.filter = filter) := by
  refine (filter_filter_of_inside fun s _ hs => ?_).symm
  rw [decide_eq_true_eq] at hs ⊢
  exact fun h => hne (hs.2.symm.trans h.2)

theorem TopicAnswered.heldOnce {level : Nat} {t : SubTopic} {b' : MqttBroker} {code : UInt8}
    (h : TopicAnswered a level t b b' code) (hone : b.HeldOnce a) : b'.HeldOnce a := by
  intro filter
  cases h with
  | granted held _ =>
    by_cases hf : filter = t.filter
    · obtain ⟨s, hs, -⟩ := held.held
      rw [hf, hs]
      exact Nat.le_refl 1
    · rw [grant_besideGrant hf, held.kept, ← grant_besideGrant hf]
      exact hone filter
  | refused _ _ subs _ =>
    rw [MqttBroker.grant, subs]
    exact hone filter

theorem wantsRetained_owed (level : Nat) (t : SubTopic) {rc : Int} (hrc : rc = 1 ↔ b.grant a t.filter = []) :
    wantsRetained level t rc = false ↔
      level5 ≤ level ∧ (t.retainHandling = 2 ∨ t.retainHandling = 1 ∧ b.grant a t.filter ≠ []) := by
  have hold : b.grant a t.filter ≠ [] ↔ rc ≠ 1 := not_congr hrc.symm
  rw [hold]
  simp only [wantsRetained, Bool.or_eq_false_iff, Bool.not_eq_false', decide_eq_false_iff_not, Nat.not_lt, Bool.or_eq_true,
    Bool.and_eq_true, decide_eq_true_eq]

theorem subscribeTopic_answered (hb : Phase L Nowhere b) (hc : b.client? a = some c) (he : c.sessionEstablished = true)
    (hone : b.HeldOnce a) (level : Nat) (t : SubTopic) {code : UInt8} (h : (subscribeTopic L a level t b).1 = .ok code) :
    TopicAnswered a level t b (subscribeTopic L a level t b).2 code := by
  have hjoins : Joins L (fun _ => True) (fun _ => True) Nowhere a b (subsAdd L a t.filter t.qos b).2 :=
    subsAdd_joins ⟨trivial, trivial⟩ hb ⟨c, hc, he⟩ t.filter t.qos
  obtain ⟨hgranted, hrefused, hgained, hretained, htime⟩ := @subsAdd_spec L a t.qos b c hc t.filter (hone t.filter)
  simp only [subscribeTopic, run_bind] at h ⊢
  have hq := hjoins.phase.queues
  generalize subsAdd L a t.filter t.qos b = r at h hq hgranted hrefused hgained hretained htime ⊢
  obtain ⟨rc, b₁⟩ := r
  dsimp only at h hq hgranted hrefused hgained hretained htime ⊢
  by_cases hrc : rc < 0
  · rw [if_pos hrc] at h ⊢
    obtain ⟨hnew, hsubs⟩ := hrefused hrc
    obtain rfl : _ = code := Except.ok.inj h
    refine .refused ?_ hnew hsubs hgained
    split
    · exact .inr rfl
    · exact .inl rfl
  rw [if_neg hrc] at h ⊢
  obtain ⟨hheld, hnew⟩ := hgranted (Int.not_lt.mp hrc)
  by_cases hwants : wantsRetained level t rc = true
  · have howed : b.owed a level t = current b.env.getTime.1 t.filter b.retained := by
      refine if_neg fun hdecline => ?_
      rw [(wantsRetained_owed level t hnew).mpr hdecline] at hwants
      cases hwants
    rw [if_pos hwants] at h ⊢
    simp only [run_bind] at h ⊢
    have hsubs : (subscribeRetained L a t b₁).2.subs = b₁.subs :=
      (subscribeRetained_fans (L := L) (T := fun _ => True) (O := True) ordinary_all (a := a) trivial t b₁).spread.subs
    have hrecalls := subscribeRetained_recalls (L := L) (a := a) hq t
    rw [hretained, htime] at hrecalls
    generalize subscribeRetained L a t b₁ = r at h hsubs hrecalls ⊢
    obtain ⟨rc', b₂⟩ := r
    dsimp only at h hsubs hrecalls ⊢
    by_cases hrc' : rc' < 0
    · rw [if_pos hrc'] at h
      cases h
    · rw [if_neg hrc'] at h ⊢
      obtain rfl : _ = code := Except.ok.inj h
      have hfetched := hgained.append (hrecalls (Int.not_lt.mp hrc'))
      rw [List.nil_append, ← howed] at hfetched
      exact .granted (hheld.of_subs hsubs) hfetched
  · have howed : b.owed a level t = [] := if_pos ((wantsRetained_owed level t hnew).mp (by simpa using hwants))
    rw [if_neg hwants] at h ⊢
    obtain rfl : _ = code := Except.ok.inj h
    exact .granted hheld (howed ▸ hgained)

/-- The topics of a SUBSCRIBE in turn, with their codes. -/
inductive TopicsAnswered (a level : Nat) : List SubTopic → List UInt8 → MqttBroker → MqttBroker → Prop
  | done (b : MqttBroker) : TopicsAnswered a level [] [] b b
  | topic {t : SubTopic} {code : UInt8} {ts : List SubTopic} {codes : List UInt8} {b b₁ b' : MqttBroker}
      (first : TopicAnswered a level t b b₁ code) (rest : TopicsAnswered a level ts codes b₁ b') :
      TopicsAnswered a level (t :: ts) (code :: codes) b b'

theorem subscribeTopics_answered (level : Nat) (ts : List SubTopic) (codes : List UInt8) (hb : Phase L Nowhere b)
    (ha : b.Established a) (hone : b.HeldOnce a) {all : List UInt8} (h : (subscribeTopics L a level ts codes b).1 = .ok all) :
    ∃ more, all = codes ++ more ∧ TopicsAnswered a level ts more b (subscribeTopics L a level ts codes b).2 := by
  induction ts generalizing codes b with
  | nil => exact ⟨[], (List.append_nil _).symm ▸ (Except.ok.inj h).symm, .done b⟩
  | cons t rest ih =>
    have hjoins : Joins L (fun _ => True) (fun _ => True) Nowhere a b (subscribeTopic L a level t b).2 :=
      subscribeTopic_joins ⟨trivial, trivial⟩ hb ha level t
    obtain ⟨c, hc, he⟩ := ha
    have hanswered : ∀ {code}, _ → TopicAnswered a level t b (subscribeTopic L a level t b).2 code :=
      subscribeTopic_answered hb hc he hone level t
    simp only [subscribeTopics, run_bind] at h ⊢
    have hphase := hjoins.phase
    have hstill := hjoins.established
    generalize subscribeTopic L a level t b = r at h hanswered hphase hstill ⊢
    obtain ⟨res, b₁⟩ := r
    cases res with
    | error rc => cases h
    | ok code =>
      have hfirst := hanswered rfl
      obtain ⟨more, hall, hrest⟩ := ih (codes ++ [code]) hphase hstill (hfirst.heldOnce hone) h
      exact ⟨code :: more, by rw [hall, List.append_assoc]; rfl, .topic hfirst hrest⟩

theorem subscribeTopic_error (level : Nat) (t : SubTopic) {rc : Int} (h : (subscribeTopic L a level t b).1 = .error rc) : rc < 0 := by
  simp only [subscribeTopic, run_bind] at h
  generalize subsAdd L a t.filter t.qos b = r at h
  obtain ⟨subRc, b₁⟩ := r
  dsimp only at h
  split at h
  · cases h
  split at h
  · simp only [run_bind] at h
    generalize subscribeRetained L a t b₁ = r at h
    obtain ⟨rc', b₂⟩ := r
    dsimp only at h
    split at h
    · rename_i hneg
      obtain rfl : rc' = rc := Except.error.inj h
      exact hneg
    · cases h
  · cases h

theorem subscribeTopics_error (level : Nat) (ts : List SubTopic) (codes : List UInt8) {rc : Int}
    (h : (subscribeTopics L a level ts codes b).1 = .error rc) : rc < 0 := by
  induction ts generalizing codes b with
  | nil => cases h
  | cons t rest ih =>
    simp only [subscribeTopics, run_bind] at h
    have herror : ∀ rc, (subscribeTopic L a level t b).1 = .error rc → rc < 0 := fun _ => subscribeTopic_error level t
    generalize subscribeTopic L a level t b = r at h herror
    obtain ⟨res, b₁⟩ := r
    cases res with
    | error rc' =>
      obtain rfl : rc' = rc := Except.error.inj h
      exact herror rc' rfl
    | ok code => exact ih _ h

end grants

section runs
variable {L : Limits} {b : MqttBroker} {a : Nat}

/-! ### In a run -/

theorem Tidy.heldOnce {N : Bytes → Nat → Prop} (h : Tidy L N b.table) : b.HeldOnce a := by
  intro filter
  have hpair : (b.grant a filter).Pairwise (fun s s' => ¬s.Twin s') := List.Pairwise.filter _ h.unique
  have hmem : ∀ s ∈ b.grant a filter, s ∈ b.table.subs ∧ s.client = some a ∧ s.filter = filter := fun s hs =>
    (List.mem_filter.mp hs).imp_right of_decide_eq_true
  generalize b.grant a filter = g at hpair hmem ⊢
  match g with
  | [] => exact Nat.zero_le 1
  | [_] => exact Nat.le_refl 1
  | s :: s' :: rest =>
    obtain ⟨hs, hclient, hfilter⟩ := hmem s List.mem_cons_self
    obtain ⟨hs', hclient', hfilter'⟩ := hmem s' (List.mem_cons_of_mem _ List.mem_cons_self)
    obtain ⟨c, hc, haddr, -, hid⟩ := h.bound s hs a hclient
    obtain ⟨c', hc', haddr', -, hid'⟩ := h.bound s' hs' a hclient'
    obtain rfl := h.eq_of_addr hc hc' (haddr.trans haddr'.symm)
    refine absurd ?_ ((List.pairwise_cons.mp hpair).1 s' List.mem_cons_self)
    exact ⟨hclient.trans hclient'.symm, hid.trans hid'.symm, hfilter.trans hfilter'.symm⟩

theorem dispatched_orderly {e : Event × Script} {b' : MqttBroker} {p : InPacket} (hb : InOrder L orderly Nowhere b)
    (h : dispatched L b e = some (a, p, b')) : InOrder L orderly Nowhere b' := by
  obtain ⟨-, -, rfl⟩ := dispatched_some h
  have harm : InOrder L orderly Nowhere {b with env := b.env.arm e.2} := ⟨{hb.phase with}, hb.blank, False.elim, hb.tidy⟩
  exact (stampRx_proceeds (finishWrites_proceeds harm).after a).after

/-- The last topic of each filter decides. -/
structure Settled (a : Nat) (ts : List SubTopic) (codes : List UInt8) (b b' : MqttBroker) : Prop where
  last : ∀ pre t code post, ts.zip codes = pre ++ (t, code) :: post → (∀ x ∈ post, x.1.filter ≠ t.filter) →
    (code = UInt8.ofNat t.qos.toNat ∧ ∃ s, b'.grant a t.filter = [s] ∧ s.qos = t.qos) ∨
    ((code = 0x80 ∨ code = Reason.quotaExceeded) ∧ b'.grant a t.filter = [])
  unnamed : ∀ filter, (∀ t ∈ ts, t.filter ≠ filter) → b'.grant a filter = b.grant a filter
  others : b'.subs.filter (fun s => s.client ≠ some a) = b.subs.filter (fun s => s.client ≠ some a)

theorem TopicAnswered.unnamed {level : Nat} {t : SubTopic} {b' : MqttBroker} {code : UInt8}
    (h : TopicAnswered a level t b b' code) {filter : Bytes} (hne : t.filter ≠ filter) : b'.grant a filter = b.grant a filter := by
  cases h with
  | granted held _ => rw [grant_besideGrant (Ne.symm hne), held.kept, ← grant_besideGrant (Ne.symm hne)]
  | refused _ _ subs _ => rw [MqttBroker.grant, subs]; rfl

theorem TopicAnswered.others {level : Nat} {t : SubTopic} {b' : MqttBroker} {code : UInt8}
    (h : TopicAnswered a level t b b' code) :
    b'.subs.filter (fun s => s.client ≠ some a) = b.subs.filter (fun s => s.client ≠ some a) := by
  have hinside : ∀ b : MqttBroker, (b.besideGrant a t.filter).filter (fun s => s.client ≠ some a) =
      b.subs.filter (fun s => s.client ≠ some a) := fun b => filter_filter_of_inside fun s _ hs => by
    rw [decide_eq_true_eq] at hs ⊢
    exact fun h => hs h.1
  cases h with
  | granted held _ => rw [← hinside, held.kept, hinside]
  | refused _ _ subs _ => rw [subs]

theorem TopicsAnswered.length {level : Nat} {ts : List SubTopic} {codes : List UInt8} {b' : MqttBroker}
    (h : TopicsAnswered a level ts codes b b') : ts.length = codes.length := by
  induction h with
  | done => rfl
  | topic _ _ ih => exact congrArg (· + 1) ih

theorem TopicsAnswered.settled {level : Nat} {ts : List SubTopic} {codes : List UInt8} {b' : MqttBroker}
    (h : TopicsAnswered a level ts codes b b') : Settled a ts codes b b' := by
  induction h with
  | done b =>
    refine ⟨fun pre t code post hsplit => ?_, fun _ _ => rfl, rfl⟩
    cases pre <;> cases hsplit
  | @topic t code ts codes b b₁ b' first rest ih =>
    refine ⟨fun pre t' code' post hsplit hlast => ?_, fun filter hne => ?_, ih.others.trans first.others⟩
    · cases pre with
      | cons x pre =>
        rw [List.zip_cons_cons, List.cons_append, List.cons.injEq] at hsplit
        exact ih.last pre t' code' post hsplit.2 hlast
      | nil =>
        rw [List.zip_cons_cons, List.nil_append, List.cons.injEq, Prod.mk.injEq] at hsplit
        obtain ⟨⟨rfl, rfl⟩, rfl⟩ := hsplit
        have hrest : b'.grant a t.filter = b₁.grant a t.filter := by
          refine ih.unnamed t.filter fun t' ht' => ?_
          rw [← List.map_fst_zip (Nat.le_of_eq rest.length)] at ht'
          obtain ⟨x, hx, rfl⟩ := List.mem_map.mp ht'
          exact hlast x hx
        rw [hrest]
        cases first with
        | granted held _ => exact .inl ⟨rfl, held.held⟩
        | refused failure new subs _ =>
          refine .inr ⟨failure, ?_⟩
          rw [MqttBroker.grant, subs]
          exact new
    · rw [ih.unnamed filter fun t' ht' => hne t' (List.mem_cons_of_mem _ ht'), first.unnamed (hne t List.mem_cons_self)]

/-- SUBACK with these codes goes out, and the subscriptions are stored. -/
def acknowledge (L : Limits) (a packetId : Nat) (codes : List UInt8) : BrokerM Int := do
  let rc ← onClient a Code.badArg (sendSubAck L packetId codes)
  storeSubs a rc
  return rc

theorem onClient_subs {α : Type} (default : α) (m : ClientM α) (b : MqttBroker) : (onClient a default m b).2.subs = b.subs := by
  cases hc : b.client? a with
  | none => rw [onClient_none hc]
  | some c => rw [onClient_some hc]; rfl

theorem storeSubs_subs (rc : Int) (b : MqttBroker) : (storeSubs a rc b).2.subs = b.subs := by
  simp only [storeSubs, run_bind, run_get]
  cases b.client? a with
  | none => rfl
  | some c =>
    dsimp only
    cases c.clientId with
    | none => rfl
    | some clientId =>
      dsimp only [whenDo]
      split <;> rfl

theorem acknowledge_subs (packetId : Nat) (codes : List UInt8) : (acknowledge L a packetId codes b).2.subs = b.subs :=
  (storeSubs_subs _ _).trans (onClient_subs _ _ b)

theorem Settled.of_subs {ts : List SubTopic} {codes : List UInt8} {b₁ b' : MqttBroker} (h : Settled a ts codes b b₁)
    (hsubs : b'.subs = b₁.subs) : Settled a ts codes b b' := by
  have hgrant : b'.grant a = b₁.grant a := by
    funext filter
    rw [MqttBroker.grant, hsubs]
    rfl
  refine ⟨?_, ?_, ?_⟩
  · rw [hgrant]
    exact h.last
  · rw [hgrant]
    exact h.unnamed
  · rw [hsubs]
    exact h.others

variable (L) in
/-- What SUBSCRIBE does on the connection `c` at `a`. Either a retained message could not be queued, and
there is no SUBACK; or topic after topic is granted or refused, and SUBACK has these codes. -/
def SubscribesExactly (a : Nat) (c : BrokerClient) (sub : InSubscribe) (b : MqttBroker) : Prop :=
  let topics := sub.topics.take maxTopics
  match subscribeTopics L a c.protocolLevel topics [] b with
  | (.error rc, b₁) => rc < 0 ∧ handleSubscribe L a (.ok sub) b = (rc, b₁)
  | (.ok codes, b₁) => TopicsAnswered a c.protocolLevel topics codes b b₁ ∧
    handleSubscribe L a (.ok sub) b = acknowledge L a sub.packetId codes b₁ ∧
    Settled a topics codes b (handleSubscribe L a (.ok sub) b).2

theorem handleSubscribe_exact (hb : Phase L Nowhere b) (hone : b.HeldOnce a) {c : BrokerClient} (hc : b.client? a = some c)
    (he : c.sessionEstablished = true) (sub : InSubscribe) : SubscribesExactly L a c sub b := by
  have hok : ∀ codes, _ → ∃ more, codes = [] ++ more ∧ TopicsAnswered a c.protocolLevel (sub.topics.take maxTopics) more b _ :=
    fun _ => subscribeTopics_answered (L := L) c.protocolLevel (sub.topics.take maxTopics) [] hb ⟨c, hc, he⟩ hone
  have herror : ∀ rc, (subscribeTopics L a c.protocolLevel (sub.topics.take maxTopics) [] b).1 = .error rc → rc < 0 :=
    fun _ => subscribeTopics_error c.protocolLevel (sub.topics.take maxTopics) []
  unfold SubscribesExactly
  simp only [handleSubscribe, run_bind, run_get, hc]
  generalize subscribeTopics L a c.protocolLevel (sub.topics.take maxTopics) [] b = r at hok herror ⊢
  obtain ⟨res, b₁⟩ := r
  cases res with
  | error rc => exact ⟨herror rc rfl, rfl⟩
  | ok codes =>
    obtain ⟨more, hmore, hanswered⟩ := hok codes rfl
    obtain rfl : codes = more := hmore
    exact ⟨hanswered, rfl, hanswered.settled.of_subs (acknowledge_subs sub.packetId codes)⟩

theorem dispatched_live (hb : Phase L Nowhere b) {b₀ : MqttBroker} {e : Event × Script} {p : InPacket}
    (h : dispatched L b₀ e = some (a, p, b)) (hp : p.isConnect = false) : b.Established a := by
  obtain ⟨-, ⟨c, hc, hhears⟩, rfl⟩ := dispatched_some h
  have hc' := stampRx_client? hc
  have hlive : c.connected = true := by simpa [hp] using (Bool.and_eq_true_iff.mp hhears).2
  exact ⟨_, hc', ((hb.sound _ (Chain.at?_mem hc')).live hlive).1⟩

/-- The publisher leaves a message, and asks for it twice. -/
def recallingSubscribe : InSubscribe where
  packetId := 9
  topics := [{filter := [0x74], qos := .qos1}, {filter := [0x74], qos := .qos2}]

def retainedMessage : Event × Script :=
  packetFrom 4 (.publish (.ok {len := 8, topicName := [0x74], qos := .qos1, packetId := 7, retain := true, duplicate := false,
                               buffer := [0x6D], totalLen := 1, props := []}))

theorem eraseP_eq_filter {α : Type} {p : α → Bool} {l : List α} (h : (l.filter p).length ≤ 1) :
    l.eraseP p = l.filter (fun x => !p x) := by
  induction l with
  | nil => rfl
  | cons x rest ih =>
    cases hx : p x with
    | true =>
      rw [List.filter_cons_of_pos hx, List.length_cons] at h
      have hnone : rest.filter p = [] := List.length_eq_zero_iff.mp (by omega)
      rw [List.eraseP_cons_of_pos hx, List.filter_cons_of_neg (by simp [hx])]
      refine (List.filter_eq_self.mpr fun y hy => ?_).symm
      simpa using List.filter_eq_nil_iff.mp hnone y hy
    | false =>
      rw [List.filter_cons_of_neg (by simp [hx])] at h
      rw [List.eraseP_cons_of_neg (by simp [hx]), List.filter_cons_of_pos (by simp [hx]), ih h]

theorem subsRemove_subs (hone : b.HeldOnce a) (filter : Bytes) : (subsRemove a filter b).2.subs = b.besideGrant a filter := by
  by_cases hold : ∃ s ∈ b.subs, s.client = some a ∧ s.filter = filter
  · have hany : b.subs.any (fun s => s.client = some a ∧ s.filter = filter) = true := by simpa using hold
    have herase : (subsRemove a filter b).2.subs = b.subs.eraseP (fun s => s.client = some a ∧ s.filter = filter) := by
      show (if b.subs.any (fun s => s.client = some a ∧ s.filter = filter) then _ else b).subs = _
      rw [if_pos hany]
    rw [herase, eraseP_eq_filter (hone filter)]
    exact List.filter_congr fun s _ => (decide_not).symm
  · rw [subsRemove_none hold]
    refine (List.filter_eq_self.mpr fun s hs => ?_).symm
    rw [decide_eq_true_eq]
    exact fun h => hold ⟨s, hs, h⟩

/-- What is left for one connection when filters are withdrawn. -/
def MqttBroker.without (b : MqttBroker) (a : Nat) (filters : List Bytes) : List BrokerSub :=
  b.subs.filter (fun s => ¬(s.client = some a ∧ s.filter ∈ filters))

theorem unsubscribeTopics_subs (hone : b.HeldOnce a) (filters : List Bytes) :
    (unsubscribeTopics a filters b).2.subs = b.without a filters := by
  induction filters generalizing b with
  | nil => exact (List.filter_eq_self.mpr fun s _ => by simp).symm
  | cons f rest ih =>
    have hsubs := subsRemove_subs hone f
    have hone₁ : (subsRemove a f b).2.HeldOnce a := by
      intro filter
      rw [MqttBroker.grant, hsubs]
      exact Nat.le_trans (List.filter_sublist.filter _).length_le (hone filter)
    show (unsubscribeTopics a rest (subsRemove a f b).2).2.subs = _
    rw [ih hone₁, MqttBroker.without, hsubs, MqttBroker.besideGrant, List.filter_filter]
    refine List.filter_congr fun s _ => ?_
    rw [← Bool.decide_and]
    refine decide_eq_decide.mpr ⟨fun h hs => ?_, fun h => ⟨fun hs => ?_, fun hs => ?_⟩⟩
    · rcases List.mem_cons.mp hs.2 with hf | hf
      · exact h.2 ⟨hs.1, hf⟩
      · exact h.1 ⟨hs.1, hf⟩
    · exact h ⟨hs.1, List.mem_cons_of_mem _ hs.2⟩
    · exact h ⟨hs.1, hs.2 ▸ List.mem_cons_self⟩

/-- In such a run, UNSUBSCRIBE takes what it names, whatever comes of UNSUBACK, and nothing else. -/
theorem run_unsubscribe (authUser authPass : Option Bytes) (es : List (Event × Script))
    (h : Along (step L) (OnPacket L (FindsSession L)) (initial authUser authPass) es) {e : Event × Script} {unsub : InUnsubscribe}
    (hdisp : dispatched L (run L (initial authUser authPass) es) e = some (a, .unsubscribe (.ok unsub), b)) :
    (handleUnsubscribe L a (.ok unsub) b).2.subs = b.without a (unsub.filters.take maxTopics) := by
  have hrun := (run_proceeds (initial_inOrder L orderly authUser authPass) (h.imp fun _ _ hfinds => hfinds.follows)).after
  have hb : InOrder L orderly Nowhere b := dispatched_orderly hrun hdisp
  have htopics := unsubscribeTopics_subs (hb.tidy trivial).heldOnce (a := a) (unsub.filters.take maxTopics)
  show (storeSubs a _ (onClient a Code.badArg (sendUnsubAck L unsub) (unsubscribeTopics a _ b).2).2).2.subs = _
  rw [storeSubs_subs, onClient_subs, htopics]

/-- The subscriber withdraws its filter. -/
theorem run_unsubscribe_subscriber :
    (handleUnsubscribe {} 1 (.ok {packetId := 9, filters := [[0x74], [0x75]]})
        (readied {} (run {} (initial none none) subscriberAndPublisher) 1)).2.subs = [] := by
  have hsome : (dispatched {} (run {} (initial none none) subscriberAndPublisher)
      (packetFrom 1 (.unsubscribe (.ok {packetId := 9, filters := [[0x74], [0x75]]})))).isSome = true := by decide +kernel
  rw [run_unsubscribe none none subscriberAndPublisher (by decide +kernel) (dispatched_packetFrom hsome)]
  decide +kernel

end runs

end WolfMqtt.Broker
