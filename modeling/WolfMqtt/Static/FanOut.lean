import WolfMqtt.Broker.FanOut
import WolfMqtt.Static.Reach

/-! Fan-outs of the static-memory build, and Wills for sessions that are away.

`BrokerHandle_Publish` and `BrokerClient_PublishWillImmediate` walk the same way through
the subscriptions. At a subscription of a session that is away the two do the same, and
the message is in the carrier of the session afterwards when it fits. The build with
dynamic memory has no such branch for a Will. -/
namespace WolfMqtt.Static
open Broker Row

/-- `BrokerSub` of the static-memory build, in use: `client` is the slot of its connection. -/
structure StaticSub where
  client : Option Nat
  clientId : Option Bytes
  filter : Bytes
  qos : QoS
deriving Repr, DecidableEq

/-- Is the connection that a subscription points to up? -/
def StaticSub.up (s : StaticSub) (b : StaticBroker) : Bool := (s.client.bind b.client?).any (·.connected)

/-- One turn of the fan-out: a subscription whose filter matches is served on its connection, or
in the carrier of its session. -/
def fanSub (L : StaticLimits) (d : Delivery) (s : StaticSub) (b : StaticBroker) : Option StaticBroker :=
  if s.filter ≠ [] ∧ topicMatch s.filter d.topic then
    if s.up b then
      match s.client with
      | some i => deliver L (.live i) {d with qos := d.qos.min s.qos} b
      | none => some b
    else
      match s.clientId with
      | some id => deliver L (.offline id) {d with qos := d.qos.min s.qos} b
      | none => some b
  else some b

/-- The fan-out over the subscriptions of the table. -/
def fanOut (L : StaticLimits) (d : Delivery) : List StaticSub → StaticBroker → Option StaticBroker
  | [], b => some b
  | s :: rest, b =>
    match fanSub L d s b with
    | none => none
    | some b => fanOut L d rest b

/-- What an ordinary PUBLISH without properties is to its subscribers. -/
def publication (topic payload : Bytes) (qos : QoS) : Delivery := {site := .publish, topic, payload, qos}

/-- What a Will is to its subscribers. -/
def will (topic payload : Bytes) (qos : QoS) : Delivery := {site := .will, topic, payload, qos}

/-- The carrier with a message as its last entry. -/
def Takes (m : Message) (now : Nat) (o o' : Carrier) : Prop :=
  ∃ props id, o'.outQ.live = (removeExpiredQueued now o).outQ.live ++ [newEntry m props id now]

/-- There is an entry for the message, and it has the size of one. -/
def Fits (L : StaticLimits) (m : Message) (now : Nat) (o : Carrier) : Prop :=
  (∃ props, enqueueProps L m = .ok props) ∧ (removeExpiredQueued now o).outQ.count < L.maxStaticOfflineMsgsPerSub

/-- A Will is queued for every subscription of a session that is away: at its turn (in `b₁`) the
fan-out does what that of a PUBLISH with the same message does, and the carrier takes the message
if it fits. -/
def WillQueued (L : StaticLimits) (b : StaticBroker) (topic payload : Bytes) (qos : QoS) : Prop :=
  ∀ pre s post id, s.client = none → s.clientId = some id → s.filter ≠ [] → topicMatch s.filter topic → s.qos ≠ .qos0 →
    ∃ b₁ b₂ b', fanOut L (will topic payload qos) pre b = some b₁ ∧
      fanSub L (publication topic payload qos) s b₁ = some b₂ ∧ fanOut L (will topic payload qos) post b₂ = some b' ∧
      fanOut L (will topic payload qos) (pre ++ s :: post) b = some b' ∧
      findOrphan b₁ (some id) = findOrphan b (some id) ∧
      ∀ k o, findOrphan b (some id) = some k → b₁.orphan? k = some o →
        Fits L {topic, payload, qos := qos.min s.qos, retain := false} b₁.env.getTime.1 o →
        ∃ o', b₂.orphan? k = some o' ∧ Takes {topic, payload, qos := qos.min s.qos, retain := false} b₁.env.getTime.1 o o'

/-! ### Which carriers there are -/

section kept
variable {L : StaticLimits} {X : List Nat} {b b' : StaticBroker}

/-- The client id of each slot. -/
def carrierIds (b : StaticBroker) : List (Option Bytes) := b.orphans.map (Option.map (·.clientId))

theorem findOrphan_carrierIds (h : carrierIds b' = carrierIds b) (clientId : Option Bytes) :
    findOrphan b' clientId = findOrphan b clientId := by
  cases clientId with
  | none => rfl
  | some id =>
    have hfind : ∀ b : StaticBroker, findOrphan b (some id) = (carrierIds b).findIdx? (fun s => s.any (· = id)) := by
      intro b
      show b.orphans.findIdx? _ = (b.orphans.map _).findIdx? _
      rw [List.findIdx?_map]
      refine congrArg (fun f => List.findIdx? f b.orphans) (funext fun s => ?_)
      cases s <;> rfl
    rw [hfind, hfind, h]

theorem carrierIds_setOrphan {k : Nat} {o o' : Carrier} (ho : b.orphans[k]? = some (some o)) (hid : o'.clientId = o.clientId) :
    carrierIds (b.setOrphan k (some o')) = carrierIds b := by
  obtain ⟨hlt, -⟩ := List.getElem?_eq_some_iff.mp ho
  show (b.orphans.set k (some o')).map _ = b.orphans.map _
  rw [List.map_set]
  refine List.ext_getElem? fun j => ?_
  by_cases hj : k = j
  · subst hj
    rw [List.getElem?_set_self (by simpa using hlt), List.getElem?_map, ho]
    simp [hid]
  · rw [List.getElem?_set_ne hj]

theorem carrierIds_clientClose (i : Nat) : carrierIds (clientClose i b) = carrierIds b := by
  unfold clientClose
  split
  · rfl
  · split
    · rfl
    · rename_i k hk
      obtain ⟨o, ho, -⟩ := findOrphan_some hk
      rw [orphan?_of_getElem? ho]
      exact carrierIds_setOrphan (b := b) ho rfl

theorem carrierIds_onClient {α : Type} (i : Nat) (default : α) (m : ClientM α) :
    carrierIds (onClient i default m b).2 = carrierIds b := by
  unfold onClient
  split <;> rfl

theorem carrierIds_deliverDirect (d : Delivery) (i : Nat) : carrierIds (deliverDirect L d i b) = carrierIds b := by
  unfold deliverDirect
  split
  · rfl
  · split
    · dsimp only
      split
      · rfl
      · exact (carrierIds_clientClose i).trans rfl
    · split
      · rfl
      · dsimp only
        split
        · rfl
        · exact (carrierIds_clientClose i).trans rfl

theorem Good.carrierIds_enqueueAt (h : Good L X b) {k : Nat} {m : Message} (henq : Static.enqueueAt L k m b = some b') :
    carrierIds b' = carrierIds b := by
  unfold Static.enqueueAt at henq
  split at henq
  · cases henq
    rfl
  · rename_i o ho
    have hk : b.orphans[k]? = some (some o) := by
      unfold StaticBroker.orphan? at ho
      cases hs : b.orphans[k]? with
      | none =>
        rw [hs] at ho
        cases ho
      | some s =>
        rw [hs] at ho
        exact congrArg some ho
    obtain ⟨r, hr, hcalm, -⟩ := enqueue_spec (m := m) (s := {o, next := b.nextPacketId, env := b.env})
      (h.carriers o (mem_carriers_of_getElem? hk)) h.next
    rw [hr] at henq
    cases henq
    exact carrierIds_setOrphan (b := b) hk hcalm.clientId

theorem Good.carrierIds_deliver (h : Good L X b) {t : Target} {d : Delivery} (hd : Static.deliver L t d b = some b') :
    carrierIds b' = carrierIds b := by
  cases t with
  | live i =>
    unfold Static.deliver Static.deliverLive at hd
    dsimp only at hd
    split at hd
    · cases hd
      rfl
    · rename_i c hc
      split at hd
      · cases hd
        rfl
      · split at hd
        · cases hd
          exact carrierIds_deliverDirect d i
        · rename_i k hk
          have hfresh : Good L X {b with
              orphans := b.orphans.modify k (Option.map (removeExpiredQueued b.env.getTime.1)), env := b.env.getTime.2} := by
            refine (h.modifyOrphan fun s _ => ?_).env _
            cases s with
            | none => exact .empty
            | some o => exact .calm (removeExpiredQueued_calm _)
          have hids : carrierIds {b with
              orphans := b.orphans.modify k (Option.map (removeExpiredQueued b.env.getTime.1)), env := b.env.getTime.2} =
              carrierIds b := by
            show (b.orphans.modify k _).map _ = b.orphans.map _
            refine List.ext_getElem? fun j => ?_
            rw [List.getElem?_map, List.getElem?_map, List.getElem?_modify]
            cases b.orphans[j]? with
            | none => rfl
            | some s =>
              cases s with
              | none => split <;> rfl
              | some o =>
                split
                · exact congrArg (fun id => some (some id)) (removeExpiredQueued_calm (L := L) (o := o) _).clientId
                · rfl
          split at hd
          · cases hd
            refine ((carrierIds_clientClose i).trans ?_).trans hids
            exact carrierIds_onClient i _ _
          · exact (hfresh.carrierIds_enqueueAt hd).trans hids
  | offline id =>
    unfold Static.deliver Static.deliverOffline at hd
    dsimp only at hd
    split at hd
    · cases hd
      rfl
    · split at hd
      · cases hd
        rfl
      · exact h.carrierIds_enqueueAt hd

end kept

/-! ### The walk -/

section walk
variable {L : StaticLimits} {X : List Nat} {b b' : StaticBroker} {d : Delivery}

theorem Good.fanSub (h : Good L X b) (d : Delivery) (s : StaticSub) :
    ∃ b', fanSub L d s b = some b' ∧ Good L X b' ∧ carrierIds b' = carrierIds b := by
  have hserve : ∀ t d', ∃ b', Static.deliver L t d' b = some b' ∧ Good L X b' ∧ carrierIds b' = carrierIds b := by
    intro t d'
    obtain ⟨b', hb', hgood⟩ := h.deliver t d'
    exact ⟨b', hb', hgood, h.carrierIds_deliver hb'⟩
  unfold Static.fanSub
  split
  · split
    · split
      · exact hserve _ _
      · exact ⟨b, rfl, h, rfl⟩
    · split
      · exact hserve _ _
      · exact ⟨b, rfl, h, rfl⟩
  · exact ⟨b, rfl, h, rfl⟩

theorem Good.fanOut (h : Good L X b) (d : Delivery) (subs : List StaticSub) :
    ∃ b', fanOut L d subs b = some b' ∧ Good L X b' ∧ carrierIds b' = carrierIds b := by
  induction subs generalizing b with
  | nil => exact ⟨b, rfl, h, rfl⟩
  | cons s rest ih =>
    obtain ⟨b₁, h₁, hgood, hids⟩ := h.fanSub d s
    obtain ⟨b', h', hgood', hids'⟩ := ih hgood
    refine ⟨b', ?_, hgood', hids'.trans hids⟩
    rw [Static.fanOut, h₁]
    exact h'

theorem fanOut_append {pre post : List StaticSub} (h : fanOut L d pre b = some b') :
    fanOut L d (pre ++ post) b = fanOut L d post b' := by
  induction pre generalizing b with
  | nil =>
    cases h
    rfl
  | cons s pre ih =>
    rw [List.cons_append, fanOut]
    rw [fanOut] at h
    cases hs : fanSub L d s b with
    | none =>
      rw [hs] at h
      cases h
    | some b₁ =>
      rw [hs] at h
      exact ih h

/-- A search for any identifier finds one. -/
theorem searchPacketId_any {live : List StaticOutPub} {fuel next : Nat} {r : IdSearch}
    (h : searchPacketId live 0 fuel next = some r) : ∃ id, r.id = some id := by
  induction fuel generalizing next with
  | zero => cases h
  | succ fuel ih =>
    simp only [searchPacketId, ne_eq, not_true_eq_false, if_true, if_false] at h
    split at h
    · exact ih h
    · cases h
      exact ⟨_, rfl⟩

/-- The carrier takes a message that fits. -/
theorem Good.enqueueAt_takes (h : Good L X b) {k : Nat} {o : Carrier} (ho : b.orphans[k]? = some (some o)) {m : Message}
    (hid : m.packetId = 0) (hfits : Fits L m b.env.getTime.1 o) (henq : Static.enqueueAt L k m b = some b') :
    ∃ o', b'.orphan? k = some o' ∧ Takes m b.env.getTime.1 o o' := by
  have hok := (removeExpiredQueued_calm (L := L) b.env.getTime.1).ok (h.carriers o (mem_carriers_of_getElem? ho))
  obtain ⟨⟨props, hprops⟩, hroom⟩ := hfits
  unfold Static.enqueueAt enqueue at henq
  rw [orphan?_of_getElem? ho] at henq
  simp only [hprops, hid] at henq
  rw [if_neg (by omega)] at henq
  have hlen := hok.cells.length_live
  have hmax := L.staticOffline_le
  have hsome : (searchPacketId (removeExpiredQueued b.env.getTime.1 o).outQ.live 0 searchTurns b.nextPacketId).isSome :=
    searchPacketId_isSome _ (by omega)
  obtain ⟨r, hsearch⟩ := Option.isSome_iff_exists.mp hsome
  obtain ⟨id, hfound⟩ := searchPacketId_any hsearch
  obtain ⟨_, next⟩ := r
  cases hfound
  rw [hsearch] at henq
  obtain rfl := Option.some.inj henq
  have hlt : k < b.orphans.length := (List.getElem?_eq_some_iff.mp ho).1
  refine ⟨{removeExpiredQueued b.env.getTime.1 o with
    outQ := (removeExpiredQueued b.env.getTime.1 o).outQ.push (newEntry m props id b.env.getTime.1)}, ?_, props, id, ?_⟩
  · show (b.orphans.set k _)[k]?.join = _
    rw [List.getElem?_set_self hlt]
    rfl
  · have hsize := hok.size
    exact hok.cells.live_push (by omega) _

/-- The turn of a session that is away. -/
theorem fanSub_away {s : StaticSub} {id : Bytes} (hclient : s.client = none) (hid : s.clientId = some id) (hfilter : s.filter ≠ [])
    (hmatch : topicMatch s.filter d.topic) (b : StaticBroker) :
    fanSub L d s b = deliverOffline L {d with qos := d.qos.min s.qos} id b := by
  have hdown : s.up b = false := by
    unfold StaticSub.up
    rw [hclient]
    rfl
  unfold fanSub
  rw [if_pos ⟨hfilter, hmatch⟩, hdown, hid]
  rfl

/-- Wills reach the sessions that are away. -/
theorem Good.willQueued (h : Good L [] b) (topic payload : Bytes) {qos : QoS} (hqos : qos ≠ .qos0) :
    WillQueued L b topic payload qos := by
  intro pre s post id hclient hid hfilter hmatch hsqos
  obtain ⟨b₁, h₁, hgood₁, hids₁⟩ := h.fanOut (Static.will topic payload qos) pre
  obtain ⟨b₂, h₂, hgood₂, -⟩ := hgood₁.fanSub (publication topic payload qos) s
  obtain ⟨b', h', -, -⟩ := hgood₂.fanOut (Static.will topic payload qos) post
  have hsame : Static.fanSub L (Static.will topic payload qos) s b₁ = some b₂ := by
    rw [← h₂, fanSub_away hclient hid hfilter hmatch, fanSub_away hclient hid hfilter hmatch]
    rfl
  refine ⟨b₁, b₂, b', h₁, h₂, h', ?_, findOrphan_carrierIds hids₁ _, fun k o hk ho hfits => ?_⟩
  · rw [fanOut_append h₁, Static.fanOut, hsame]
    exact h'
  · have hk₁ : findOrphan b₁ (some id) = some k := (findOrphan_carrierIds hids₁ _).trans hk
    obtain ⟨o₁, ho₁, -⟩ := findOrphan_some hk₁
    cases ho.symm.trans (orphan?_of_getElem? ho₁)
    rw [fanSub_away hclient hid hfilter hmatch] at h₂
    dsimp only [deliverOffline, publication] at h₂
    rw [if_neg (min_ne_qos0 hqos hsqos), hk₁] at h₂
    exact hgood₁.enqueueAt_takes ho₁ rfl hfits h₂

end walk

/-! ### Both builds -/

/-- Wills for sessions that are away: with static memory they are queued as a PUBLISH is, whatever
the state and the subscriptions; with dynamic memory they are only where no subscription asks for it. -/
theorem will_away {qos : QoS} (hqos : qos ≠ .qos0) (topic payload : Bytes) :
    (∀ (L : StaticLimits) (env : Env) (evs : List Event) (b : StaticBroker), run L evs (initial L env) = some b →
      WillQueued L b topic payload qos) ∧
    ∀ (L : Limits) (X : Nat → Prop) (b : MqttBroker) (retain : Bool), Phase L X b →
      (WillOffered L b topic payload qos retain ↔ ∀ s ∈ b.subs, ¬Expects b topic s) := by
  refine ⟨fun L env evs b hrun => ?_, fun L X b retain hb => willOffered_iff hb.queues hqos payload retain⟩
  obtain ⟨b', hrun', hgood⟩ := (initial_good L env).run evs
  cases hrun.symm.trans hrun'
  exact hgood.willQueued topic payload hqos

/-- The subscriber has left its persistent session behind. -/
def subscriberAway : MqttBroker :=
  Broker.run {} (Broker.initial none none) (subscriberAndPublisher ++ [packetFrom 1 (.disconnect 0 (.ok {reasonCode := 0}))])

theorem not_will_away : ¬∀ (L : Limits) (b : MqttBroker), Reachable L b → ∀ (topic payload : Bytes) (qos : QoS) (retain : Bool),
    qos ≠ .qos0 → WillOffered L b topic payload qos retain := by
  intro h
  have hb : Reachable {} subscriberAway := ⟨none, none, _, rfl⟩
  have hoffered := h {} subscriberAway hb [0x74] [0x6D] .qos1 false (by decide)
  have hnobody := (willOffered_iff hb.phase.queues (by decide) [0x6D] false).mp hoffered
  have hany : subscriberAway.subs.any (fun s => decide (Expects subscriberAway [0x74] s)) = true := by decide +kernel
  obtain ⟨s, hs, hexpects⟩ := List.any_eq_true.mp hany
  exact hnobody s hs (of_decide_eq_true hexpects)

/-- A client leaves a session behind, and a message is queued for it. -/
def leftWithMessage : List Event :=
  [.accept, .connect 0 {plainConnect with protocolLevel := 4, cleanSession := false}, .leave 0 none [] true,
    .deliver (.offline [97]) plainDelivery]

/-- A Will to a topic that nobody waits for, and one to a topic that the subscriber does. With static memory the latter
is the second message in the queue. -/
theorem will_away_topics :
    WillOffered {} subscriberAway [0x75] [0x6D] .qos1 false ∧ ¬WillOffered {} subscriberAway [0x74] [0x6D] .qos1 false ∧
    ∃ b b' o', run {} leftWithMessage (initial {} {}) = some b ∧
      fanOut {} (will [0x74] [0x6D] .qos1) [⟨none, some [97], [0x74], .qos1⟩] b = some b' ∧
      b'.orphan? 0 = some o' ∧ o'.outQ.live.length = 2 := by
  have hb : Phase {} Nowhere subscriberAway := Reachable.phase ⟨none, none, _, rfl⟩
  have hany : subscriberAway.subs.any (fun s => decide (Expects subscriberAway [0x74] s)) = true := by decide +kernel
  have hnone : subscriberAway.subs.all (fun s => decide ¬Expects subscriberAway [0x75] s) = true := by decide +kernel
  refine ⟨?_, fun hoffered => ?_, ?_⟩
  · refine ((will_away (by decide) [0x75] [0x6D]).2 {} Nowhere subscriberAway false hb).mpr fun s hs => ?_
    exact of_decide_eq_true (List.all_eq_true.mp hnone s hs)
  · obtain ⟨s, hs, hexpects⟩ := List.any_eq_true.mp hany
    exact ((will_away (by decide) [0x74] [0x6D]).2 {} Nowhere subscriberAway false hb).mp hoffered s hs (of_decide_eq_true hexpects)
  · have hstate : (run {} leftWithMessage (initial {} {})).map (fun b => (findOrphan b (some [97]),
        (b.orphan? 0).map fun o => ((removeExpiredQueued b.env.getTime.1 o).outQ.count,
          (removeExpiredQueued b.env.getTime.1 o).outQ.live.length))) = some (some 0, some (1, 1)) := by decide +kernel
    obtain ⟨b, hrun, hfacts⟩ := Option.map_eq_some_iff.mp hstate
    obtain ⟨hfind, hlive⟩ := Prod.mk.inj hfacts
    obtain ⟨o, ho, hboth⟩ := Option.map_eq_some_iff.mp hlive
    obtain ⟨hcount, hone⟩ := Prod.mk.inj hboth
    obtain ⟨b₁, b₂, b', h₁, -, h₂, hfan, -, htakes⟩ := (will_away (by decide : QoS.qos1 ≠ .qos0) [0x74] [0x6D]).1 {} {} leftWithMessage b hrun
      [] ⟨none, some [97], [0x74], .qos1⟩ [] [97] rfl rfl (by decide) (by decide) (by decide)
    cases h₁
    cases h₂
    obtain ⟨o', ho', props, id, hqueue⟩ := htakes 0 o hfind ho ⟨⟨_, rfl⟩, by rw [hcount]; decide⟩
    refine ⟨b, _, o', hrun, hfan, ho', ?_⟩
    rw [hqueue, List.length_append, hone]
    rfl

end WolfMqtt.Static
