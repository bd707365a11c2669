import WolfMqtt.Broker.FanOut
import WolfMqtt.Packet.PublishRead

/-! What a subscriber gets of a PUBLISH that the broker forwards.

The broker decodes a PUBLISH at the level of its publisher, queues a copy for every subscriber and writes it again
at the level of that one. `Forwards` is the copy and `Intact` what the subscriber should get; `Attempts` are the
turns of the drain that it takes to write it, which may be several. The packet that is written may be longer than
the one that was read, and the buffers are of one size (`forwardedSize`). -/
namespace WolfMqtt

/-- The two bits of a fixed header, of which the decoder has refused 3. -/
def qosOfBits (n : Nat) : QoS := if n = 0 then .qos0 else if n = 1 then .qos1 else .qos2

theorem qosOfBits_min {n : Nat} (hn : n ≤ 2) (granted : QoS) :
    ((qosOfBits n).min granted).toNat = min n granted.toNat := by
  obtain rfl | rfl | rfl : n = 0 ∨ n = 1 ∨ n = 2 := by omega
  all_goals cases granted <;> rfl

/-- The PUBLISH that the broker handles, of the decoded one. -/
def PublishView.inPublish (rx : Bytes) (v : PublishView) : Broker.InPublish where
  len := v.len
  topicName := v.topicName.get rx
  qos := qosOfBits v.qos
  packetId := v.packetId.getD 0
  retain := v.retain = 1
  duplicate := v.duplicate = 1
  buffer := v.buffer.get rx
  totalLen := v.totalLen
  props := v.props.map (PropView.read rx)

namespace Broker

/-- What `BrokerHandle_Publish` asks of a PUBLISH that has been decoded. -/
structure InPublish.Passed (level : Nat) (p : InPublish) : Prop where
  subscriptionId : level ≥ level5 → (findProp p.props .subscriptionId).isSome = false
  topicAlias : level ≥ level5 → (findProp p.props .topicAlias).isSome = false
  payload : p.totalLen ≤ p.buffer.length

/-- What has not passed is not forwarded. -/
theorem handlePublish_refused {L : Limits} {a : Nat} {p : InPublish} {b : MqttBroker} {c : BrokerClient}
    (hc : b.client? a = some c) (h : ¬p.Passed c.protocolLevel) : (handlePublish L a (.ok p) b).1 < 0 := by
  have hmalformed : Code.malformedData < 0 := by decide
  have hbuffer : Code.outOfBuffer < 0 := by decide
  unfold handlePublish
  rw [run_bind, run_get]
  dsimp only
  rw [hc]
  dsimp only
  rw [run_ite]
  split
  · exact hmalformed
  next hsub =>
  rw [run_ite]
  split
  · exact hmalformed
  next halias =>
  rw [run_ite]
  split
  · exact hbuffer
  next hpayload =>
  refine absurd ⟨fun hlevel => ?_, fun hlevel => ?_, ?_⟩ h
  · simpa [hlevel] using hsub
  · simpa [hlevel] using halias
  · omega

/-- A copy of a PUBLISH in the queue of a subscriber, for a subscription of a QoS. -/
structure Forwards (p : InPublish) (granted : QoS) (e : OutPub) : Prop where
  topic : e.topic = p.topicName
  payload : e.payload = p.payload
  props : e.props = p.props
  qos : e.qos = p.qos.min granted
  retain : e.retain = false
  packetId : e.packetId < 65536
  named : e.qos ≠ .qos0 → e.packetId ≠ 0
  duplicate : e.qos = .qos0 → e.retransmitDup = false

theorem scanPacketId_lt {outQ : List OutPub} {fuel candidate id : Nat} (h : scanPacketId outQ fuel candidate = some id)
    (hc : candidate < 65536) : id < 65536 := by
  induction fuel generalizing candidate with
  | zero => cases h
  | succ fuel ih =>
    unfold scanPacketId at h
    split at h
    · refine ih h ?_
      unfold succPacketId
      split <;> omega
    · cases h
      exact hc

/-- An identifier fits its two bytes, and no connection changes. -/
theorem nextPacketId_lt {b : MqttBroker} (outQ : List OutPub) (hnext : b.nextPacketId < 65536) :
    (nextPacketIdForQueue outQ b).1 < 65536 ∧ (nextPacketIdForQueue outQ b).2.clients = b.clients := by
  unfold nextPacketIdForQueue
  dsimp only
  split
  · exact ⟨Nat.zero_lt_succ _, rfl⟩
  next id hscan =>
    refine ⟨scanPacketId_lt hscan ?_, rfl⟩
    split <;> omega

/-- What a successful enqueue adds is such a copy, at the level of its connection. -/
theorem enqueueFor_forwards {a : Nat} {p : InPublish} {granted : QoS} {b b' : MqttBroker} (hnext : b.nextPacketId < 65536)
    (h : enqueueFor a p.topicName p.payload p.props (p.qos.min granted) false b = (Code.success, b')) :
    ∃ c e, b.client? a = some c ∧ b'.client? a = some {c with outQ := c.outQ.enqueue e} ∧
      e.protocolLevel = c.protocolLevel ∧ Forwards p granted e := by
  unfold enqueueFor at h
  rw [run_bind] at h
  have halloc : (alloc b).2.client? a = b.client? a := rfl
  have hid : (alloc b).2.nextPacketId = b.nextPacketId := rfl
  generalize hslot : alloc b = r at h halloc hid
  obtain ⟨_ | slot, b₁⟩ := r
  · cases congrArg Prod.fst h
  dsimp only at h halloc hid
  rw [run_bind, run_get] at h
  dsimp only at h
  cases hc : b₁.client? a with
  | none =>
    rw [hc] at h
    cases congrArg Prod.fst h
  | some c =>
  rw [hc] at h
  dsimp only at h
  rw [halloc] at hc
  rw [run_ite] at h
  split at h
  next hqos =>
    have hput := onClient_client? (m := enqueueOutPub
      (newOutPub slot p.topicName p.payload p.props (p.qos.min granted) 0 false c.protocolLevel 0 0 0)) (halloc.trans hc)
      () rfl
    obtain rfl : _ = b' := congrArg Prod.snd h
    exact ⟨c, _, hc, hput, rfl, rfl, rfl, rfl, rfl, rfl, Nat.zero_lt_succ _, fun hne => absurd hqos hne, fun _ => rfl⟩
  next hqos =>
    rw [run_bind] at h
    obtain ⟨hlt, hclients⟩ := nextPacketId_lt c.outQ.chain (hid ▸ hnext)
    generalize nextPacketIdForQueue c.outQ.chain b₁ = r at h hlt hclients
    obtain ⟨id, b₂⟩ := r
    dsimp only at h hlt hclients
    rw [run_ite] at h
    split at h
    · cases congrArg Prod.fst h
    next hsome =>
    have hc₂ : b₂.client? a = some c := by
      rw [MqttBroker.client?, hclients]
      exact halloc.trans hc
    have hput := onClient_client? (m := enqueueOutPub
      (newOutPub slot p.topicName p.payload p.props (p.qos.min granted) id false c.protocolLevel 0 0 0)) hc₂ () rfl
    obtain rfl : _ = b' := congrArg Prod.snd h
    exact ⟨c, _, hc, hput, rfl, rfl, rfl, rfl, rfl, rfl, hlt, fun _ => hsome, fun _ => rfl⟩

/-! ### The packet that is written -/

/-- Every Response Topic that a subscriber at this level is sent has a name. -/
def RespTopicsNamed (level : Nat) (props : List MqttProp) : Prop :=
  level ≥ level5 → ∀ p ∈ props, p.type = .respTopic → p.dataStr ≠ []

theorem clonePointed_iff (props : List MqttProp) :
    clonePointed props ↔ ∀ p ∈ props, p.type = .respTopic → p.dataStr ≠ [] := by
  have hstr (s : Bytes) : (cloneStr s).isSome ↔ s ≠ [] := by
    rw [cloneStr, ← List.length_pos_iff]
    split
    next hlen => exact iff_of_true rfl hlen
    next hlen => exact iff_of_false Bool.false_ne_true hlen
  rw [clonePointed, List.all_eq_true]
  refine forall₂_congr fun p _ => ?_
  rw [Bool.or_eq_true, hstr, decide_eq_true_eq, ← imp_iff_not_or]

/-- A clone is encoded as the properties it was made of. -/
theorem OutPub.encode_eq {e : OutPub} (h : RespTopicsNamed e.protocolLevel e.props) (txLen : Nat) :
    e.encode txLen = encodePublish txLen e.toPublish := by
  have hpointed : (e.protocolLevel ≥ level5 && !clonePointed e.props) = false := by
    by_cases hlevel : e.protocolLevel ≥ level5
    · rw [(clonePointed_iff e.props).mpr (h hlevel), Bool.not_true, Bool.and_false]
    · rw [decide_eq_false hlevel, Bool.false_and]
  unfold OutPub.encode
  rw [hpointed, if_neg Bool.false_ne_true]
  cases hvh : publishVariable e.toPublish with
  | error rc => rw [encodePublish, hvh]
  | ok vh => rfl

/-- But where a Response Topic has no name, it is not. -/
theorem OutPub.encode_refused {e : OutPub} (h : ¬RespTopicsNamed e.protocolLevel e.props) (txLen : Nat) :
    (e.encode txLen).rc < 0 := by
  obtain ⟨hlevel, hnone⟩ := Classical.not_imp.mp h
  have hpointed : (e.protocolLevel ≥ level5 && !clonePointed e.props) = true := by
    rw [Bool.and_eq_true, Bool.not_eq_true']
    exact ⟨decide_eq_true hlevel, Bool.eq_false_iff.mpr (mt (clonePointed_iff e.props).mp hnone)⟩
  unfold OutPub.encode
  rw [if_pos hpointed]
  cases hvh : publishVariable e.toPublish with
  | error rc => exact publishVariable_negative e.toPublish rc hvh
  | ok vh => exact (by decide : Code.property < 0)

/-- A PUBLISH that passes on what another one has brought, to a subscriber at a level. -/
structure Relays (p : InPublish) (granted : QoS) (level' : Nat) (q : Publish) : Prop where
  topic : q.topicName = p.topicName
  qos : q.qos = p.qos.min granted
  retain : q.retain = false
  packetId : q.packetId < 65536
  named : q.qos ≠ .qos0 → q.packetId ≠ 0
  duplicate : q.qos = .qos0 → q.duplicate = false
  payload : q.buffer.getD [] = p.payload
  totalLen : q.totalLen = p.payload.length
  bufferLen : q.bufferLen = 0 ∨ q.bufferLen = p.payload.length
  level : q.protocolLevel = level'
  props : q.props = p.props ∨ level' < level5 ∧ q.props = []

theorem Forwards.relays {p : InPublish} {granted : QoS} {e : OutPub} (h : Forwards p granted e) :
    Relays p granted e.protocolLevel e.toPublish where
  topic := h.topic
  qos := h.qos
  retain := h.retain
  packetId := h.packetId
  named := h.named
  duplicate := h.duplicate
  payload := by
    rw [← h.payload]
    show (if e.payload.isEmpty then none else some e.payload).getD [] = e.payload
    cases e.payload <;> rfl
  totalLen := congrArg List.length h.payload
  bufferLen := .inl rfl
  level := rfl
  props := .inl h.props

/-- The length of the packet for a subscriber. -/
def forwardedSize (p : InPublish) (granted : QoS) (level : Nat) : Nat :=
  let remain := 2 + p.topicName.length + (if p.qos.min granted = .qos0 then 0 else 2) +
    (if level ≥ level5 then (propSection p.props).length else 0) + p.payload.length
  fixedLen remain + remain

/-- **What a subscriber should get** of a PUBLISH that was read as `v` at the publisher's level: one packet that is
read at its own as the same topic, the whole payload, the smaller QoS, no retain flag and, between two of level 5, the
same properties. -/
def Intact (rx : Bytes) (v : PublishView) (level level' : Nat) (granted : QoS) (bytes : Bytes) : Prop :=
  ∀ t : PropState, v.props.length ≤ t.room → ∃ v' t', decodePublish level' bytes t = (.ok v', t') ∧
    v'.len = bytes.length ∧ v'.topicName.get bytes = v.topicName.get rx ∧ v'.buffer.get bytes = v.buffer.get rx ∧
    v'.totalLen = v.totalLen ∧ v'.qos = min v.qos granted.toNat ∧ v'.retain = 0 ∧
    (level ≥ level5 → level' ≥ level5 →
      v'.props.map (PropView.read bytes) = v.props.map (PropView.read rx))

/-- The bytes of a packet that are handed to the transport. -/
def sentBytes (e : Encoded) : Bytes := if e.rc ≤ 0 then [] else e.out

section Core
variable {rx : Bytes} {level level' txLen : Nat} {s s' : PropState} {v : PublishView} {granted : QoS} {q : Publish}

theorem Relays.wire_length {p : InPublish} (h : Relays p granted level' q) :
    q.wire.length = forwardedSize p granted level' := by
  have hid : q.idWire.length = if p.qos.min granted = .qos0 then 0 else 2 := by
    rw [Publish.idWire, h.qos]
    split
    · rfl
    · exact encodeNum_length _
  have hprops : q.propsPart.length = if level' ≥ level5 then (propSection p.props).length else 0 := by
    rw [Publish.propsPart, h.level]
    split
    next hlevel =>
      obtain hsame | ⟨hlow, -⟩ := h.props
      · rw [hsame]
      · exact absurd hlevel (Nat.not_le.mpr hlow)
    · rfl
  have hbody : q.body.length = 2 + p.topicName.length + (if p.qos.min granted = .qos0 then 0 else 2) +
      (if level' ≥ level5 then (propSection p.props).length else 0) + p.payload.length := by
    rw [Publish.body, Publish.front, List.length_append, List.length_append, List.length_append, encodeData_length,
      h.topic, hid, hprops, h.payload]
    omega
  rw [Publish.wire, packetWire_length, forwardedSize, ← hbody]
  rfl

/-- A PUBLISH that has passed has a topic. -/
theorem topic_ne_nil (hread : v.Read level rx) (hpassed : (v.inPublish rx).Passed level) : v.topicName.get rx ≠ [] := by
  intro hempty
  by_cases hlevel : level ≥ level5
  · have hnone := hpassed.topicAlias hlevel
    have halias := hread.aliased hlevel hempty
    have hsame : (v.props.map (PropView.read rx)).any (·.type = .topicAlias) = v.props.any (·.type = .topicAlias) := by
      rw [List.any_map]
      rfl
    have hfind := findProp_isNone (v.inPublish rx).props .topicAlias
    rw [show (v.inPublish rx).props = v.props.map (PropView.read rx) from rfl, hsame, halias] at hfind
    rw [show (v.inPublish rx).props = v.props.map (PropView.read rx) from rfl] at hnone
    cases hprop : findProp (v.props.map (PropView.read rx)) .topicAlias with
    | none =>
      rw [hprop] at hfind
      cases hfind
    | some p =>
      rw [hprop] at hnone
      cases hnone
  · have hplain := hread.plain
    rw [hempty] at hplain
    simp [topicNameValid, Nat.lt_of_not_le hlevel] at hplain

/-- Its payload is all there. -/
theorem InPublish.Passed.payload_length {p : InPublish} (h : p.Passed level) : p.payload.length = p.totalLen := by
  rw [InPublish.payload, List.length_take, min_eq_left h.payload]

theorem Relays.held (hread : v.Read level rx) (hpassed : (v.inPublish rx).Passed level)
    (h : Relays (v.inPublish rx) granted level' q) : q.Held where
  packetId := h.packetId
  props := by
    obtain hsame | ⟨-, hnil⟩ := h.props
    · rw [hsame]
      exact hread.props.typed
    · simp [hnil]
  totalLen := by rw [h.payload, h.totalLen]
  bufferLen := by
    rw [h.payload]
    exact h.bufferLen
  short := by
    rw [h.payload, hpassed.payload_length]
    exact hread.totalLen

theorem Relays.accepted (hread : v.Read level rx) (hpassed : (v.inPublish rx).Passed level)
    (h : Relays (v.inPublish rx) granted level' q) : q.Accepted where
  topic := h.topic ▸ hread.topic
  plain := by
    have hplain := hread.plain
    have hfilled := topic_ne_nil hread hpassed
    rw [h.topic]
    show topicNameValid (v.topicName.get rx) q.protocolLevel = true
    unfold topicNameValid at hplain ⊢
    split at hplain
    · cases hplain
    next hwild =>
      rw [if_neg hwild]
      simp [hfilled]
  aliased := fun _ hempty => absurd (h.topic.symm.trans hempty) (topic_ne_nil hread hpassed)
  packetId := h.named
  duplicate := h.duplicate
  props := fun hlevel => by
    obtain hsame | ⟨hlow, -⟩ := h.props
    · rw [hsame]
      exact hread.props.valid
    · exact absurd (h.level ▸ hlevel) (Nat.not_le.mpr hlow)

theorem decodePublish_nil : ∃ e, decodePublish level [] s = (.error e, s) := ⟨_, rfl⟩

theorem payload_of_read (hread : v.Read level rx) : (v.inPublish rx).payload = v.buffer.get rx := by
  refine List.take_of_length_le ?_
  have hlen : (v.buffer.get rx).length ≤ v.buffer.len := List.length_take_le _ _
  exact Nat.le_trans hlen hread.captured

/-- A pool with room for some properties. -/
def freePool (n : Nat) : PropState := {pool := List.replicate n {item := {}}}

theorem room_freePool (n : Nat) : (freePool n).room = n := by
  rw [PropState.room, freePool, Pool.freeCount, List.countP_replicate]
  rfl

/-- **The packet is whole exactly if the buffer holds it.** -/
theorem Relays.whole_iff (htx : txLen ≤ maxRemainLen) (hread : v.Read level rx)
    (hpassed : (v.inPublish rx).Passed level) (h : Relays (v.inPublish rx) granted level' q) :
    Intact rx v level level' granted (sentBytes (encodePublish txLen q)) ↔
      forwardedSize (v.inPublish rx) granted level' ≤ txLen := by
  have hheld := h.held hread hpassed
  have haccepted := h.accepted hread hpassed
  rw [← h.wire_length]
  constructor
  · intro hwhole
    obtain ⟨v', t', hdecode, hlen, -⟩ := hwhole (freePool v.props.length) (room_freePool _).ge
    by_contra hlong
    obtain hrc | ⟨hbody, hhead, hdone⟩ := @Publish.encodePublish_cut txLen _ hheld haccepted
    · rw [sentBytes, if_pos (le_of_lt hrc)] at hdecode
      obtain ⟨e, hfail⟩ := @decodePublish_nil level' (freePool v.props.length)
      rw [hfail] at hdecode
      cases hdecode
    · have hshort : (q.wire.take txLen).length < q.wire.length := by
        rw [List.length_take]
        omega
      rw [hdone, sentBytes] at hdecode hlen
      split at hdecode
      · obtain ⟨e, hfail⟩ := @decodePublish_nil level' (freePool v.props.length)
        rw [hfail] at hdecode
        cases hdecode
      next hpos =>
        rw [if_neg hpos] at hlen
        rw [Publish.head_length] at hhead
        have hsays := Publish.decodePublish_long haccepted hbody (by omega) hdecode
        have hsame : v'.len = (q.wire.take txLen).length := hlen
        omega
  · intro hfits t hroom
    have hfilled := List.length_pos_of_ne_nil (h.topic ▸ topic_ne_nil hread hpassed : q.topicName ≠ [])
    have hsize := Publish.wire_length q
    have hfront : q.front.length = 2 + q.topicName.length + (q.idWire ++ q.propsPart).length := by
      rw [Publish.front, List.length_append, encodeData_length]
    have hheader := vbiBytes_length_pos q.body.length
    have hpayload : q.buffer.getD [] = v.buffer.get rx := h.payload.trans (payload_of_read hread)
    have hprops : q.props.length ≤ t.room := by
      obtain hsame | ⟨-, hnil⟩ := h.props
      · rw [hsame]
        exact (List.length_map _).trans_le hroom
      · simp [hnil]
    rw [headerLength] at hsize
    rw [maxRemainLen] at htx
    have hbody : q.body.length ≤ maxRemainLen := by
      rw [Publish.body_length, maxRemainLen]
      omega
    rw [Publish.encodePublish_whole hheld haccepted hbody (by rw [maxLenBytes]; omega) hfits, sentBytes,
      if_neg (by show ¬(q.wire.length : Int) ≤ 0; omega)]
    obtain ⟨v', t', hdecode, hshows⟩ := @decodePublish_wire t {q with bufferLen := q.totalLen} hheld.typed
      ⟨haccepted.topic, haccepted.plain, haccepted.aliased, haccepted.packetId, haccepted.duplicate, haccepted.props⟩
      hbody (by show q.wire.length < _; omega) hprops
    refine ⟨v', t', h.level ▸ hdecode, hshows.len, ?_, ?_, ?_, ?_, ?_, fun hlevel hlevel' => ?_⟩
    · exact hshows.topicName.trans h.topic
    · exact hshows.buffer.trans hpayload
    · rw [hshows.totalLen]
      show (q.buffer.getD []).length = _
      rw [h.payload, hpassed.payload_length]
      rfl
    · rw [hshows.qos]
      show q.qos.toNat = _
      rw [h.qos]
      exact qosOfBits_min hread.qos granted
    · rw [hshows.retain]
      show (if q.retain then 1 else 0) = _
      rw [h.retain]
      rfl
    · refine hshows.props.trans ?_
      rw [if_pos (show q.protocolLevel ≥ level5 from h.level.symm ▸ hlevel')]
      obtain hsame | ⟨hlow, -⟩ := h.props
      · show q.props.map MqttProp.own = _
        rw [hsame]
        exact hread.props.map_own
      · exact absurd hlevel' (Nat.not_le.mpr hlow)

end Core
/-! ### The transport -/

/-- `c'` is `c` after more of its buffer has gone out. -/
structure Wrote (c c' : BrokerClient) : Prop where
  txBuf : c'.txBuf = c.txBuf
  pos : c.writePos ≤ c'.writePos
  wire : c'.wire = c.wire ++ (c.txBuf.drop c.writePos).take (c'.writePos - c.writePos)

theorem Wrote.refl (c : BrokerClient) : Wrote c c := ⟨rfl, Nat.le_refl _, by simp⟩

theorem Wrote.trans {c c₁ c₂ : BrokerClient} (h : Wrote c c₁) (h' : Wrote c₁ c₂) : Wrote c c₂ where
  txBuf := h'.txBuf.trans h.txBuf
  pos := Nat.le_trans h.pos h'.pos
  wire := by
    have hpos := h.pos
    have hpos' := h'.pos
    have hsplit : c₂.writePos - c.writePos = (c₁.writePos - c.writePos) + (c₂.writePos - c₁.writePos) := by omega
    rw [h'.wire, h.wire, h.txBuf, hsplit, List.take_add, List.drop_drop, List.append_assoc,
      show c.writePos + (c₁.writePos - c.writePos) = c₁.writePos by omega]

theorem writeDo_wrote {len : Nat} {s : Conn} (hpos : s.c.writePos ≤ len) :
    Wrote s.c (writeDo len s).2.c ∧ (writeDo len s).2.c.writePos ≤ len := by
  unfold writeDo
  split
  · exact ⟨.refl _, hpos⟩
  dsimp only
  split
  · exact ⟨⟨rfl, Nat.le_refl _, by simp⟩, hpos⟩
  · refine ⟨⟨rfl, Nat.le_add_right _ _, ?_⟩, ?_⟩
    · dsimp only
      rw [Nat.add_sub_cancel_left]
    · show s.c.writePos + min _ (len - s.c.writePos) ≤ len
      omega

theorem writeLoop_wrote {len : Nat} (fuel : Nat) {s : Conn} (hpos : s.c.writePos ≤ len) :
    Wrote s.c (writeLoop len fuel s).2.c ∧ (writeLoop len fuel s).2.c.writePos ≤ len ∧
      ((writeLoop len fuel s).1 > 0 → (writeLoop len fuel s).2.c.writePos = len) := by
  induction fuel generalizing s with
  | zero => exact ⟨.refl _, hpos, fun h => absurd h (Int.lt_irrefl 0)⟩
  | succ fuel ih =>
    obtain ⟨hdo, hle⟩ := writeDo_wrote hpos
    rw [writeLoop]
    split
    next hstop => exact ⟨hdo, hle, fun h => absurd h (by omega)⟩
    next =>
    split
    next hmore =>
      obtain ⟨hrest, hend⟩ := ih hle
      exact ⟨hdo.trans hrest, hend⟩
    next hdone => exact ⟨hdo, hle, fun _ => by omega⟩

/-- A write either completes, and the offset starts over, or stays where it is. -/
theorem packetWrite_wrote (L : Limits) {len : Nat} {s : Conn} :
    ∃ c, Wrote s.c c ∧ (s.c.writePos ≤ len → c.writePos ≤ len) ∧
    (((packetWrite L len s).1 = len ∧ c.writePos = len ∧ (packetWrite L len s).2.c.wire = c.wire ∧
      (packetWrite L len s).2.c.writePos = 0) ∨ ((packetWrite L len s).1 ≠ len ∧ (packetWrite L len s).2.c = c)) := by
  have hbuffer : Code.outOfBuffer < 0 := by decide
  have hcontinue : Code.continue < 0 := by decide
  unfold packetWrite socketWrite
  split
  · exact ⟨s.c, .refl _, id, .inr ⟨by dsimp only; omega, rfl⟩⟩
  next hpos =>
  dsimp only
  have hle : s.c.writePos ≤ len := by omega
  by_cases hnonblock : L.nonblock = true
  · obtain ⟨hwrote, hend⟩ := writeDo_wrote hle
    simp only [hnonblock, if_true, true_and]
    refine ⟨_, hwrote, fun _ => hend, ?_⟩
    split
    · exact .inr ⟨by dsimp only; omega, rfl⟩
    next hmore =>
    split
    next hsome => exact .inl ⟨by dsimp only; omega, by omega, rfl, rfl⟩
    next hnone => exact .inr ⟨by omega, rfl⟩
  · obtain ⟨hwrote, hend, hall⟩ := writeLoop_wrote len hle
    simp only [hnonblock, if_false, false_and, Bool.false_eq_true]
    refine ⟨_, hwrote, fun _ => hend, ?_⟩
    split
    next hsome => exact .inl ⟨by dsimp only; rw [hall hsome], hall hsome, rfl, rfl⟩
    next hnone => exact .inr ⟨by omega, rfl⟩

/-! ### The drain -/

/-- A connection with a packet in its buffer. -/
def BrokerClient.holding (c : BrokerClient) (packet : Bytes) : BrokerClient := {c with txBuf := overlay packet c.txBuf}

/-- A turn of the drain for an entry that is to be written: the entry is dropped, or nothing happens, or more of its
packet goes out, to its end or not. Only for a broken transport is an entry of QoS 0 given up half-written. -/
inductive Pushed (L : Limits) (e : OutPub) (c : BrokerClient) : DrainStep → BrokerClient → Prop
  | dropped {r : DrainStep} {c' : BrokerClient} (henc : (e.encode L.txBufSz).rc ≤ 0)
    (hwire : c'.wire = c.wire) (hpos : c'.writePos = c.writePos) : Pushed L e c r c'
  | barred {rc : Int} {c' : BrokerClient} (henc : 0 < (e.encode L.txBufSz).rc)
    (hwire : c'.wire = c.wire) (hpos : c'.writePos = c.writePos) : Pushed L e c (.stop rc) c'
  | sent {n : Int} {c' c₁ : BrokerClient} (henc : 0 < (e.encode L.txBufSz).rc)
    (hwrote : Wrote (c.holding (e.encode L.txBufSz).out) c₁)
    (hall : c₁.writePos = (e.encode L.txBufSz).rc.toNat) (hwire : c'.wire = c₁.wire)
    (hpos : c'.writePos = 0) : Pushed L e c (.next n) c'
  | partly {rc : Int} {c' c₁ : BrokerClient} (henc : 0 < (e.encode L.txBufSz).rc)
    (hwrote : Wrote (c.holding (e.encode L.txBufSz).out) c₁)
    (hle : c.writePos ≤ (e.encode L.txBufSz).rc.toNat →
      c₁.writePos ≤ (e.encode L.txBufSz).rc.toNat)
    (hwire : c'.wire = c₁.wire)
    (hpos : c'.writePos = c₁.writePos ∨
      (e.qos = .qos0 ∧ rc ≠ Code.continue ∧ rc ≠ Code.timeout ∧ 0 < c₁.writePos ∧ c'.writePos = 0)) :
    Pushed L e c (.stop rc) c'

/-- What has gone out, and how far the packet has got, is the same. -/
def SameLine (s s' : Conn) : Prop := s'.c.wire = s.c.wire ∧ s'.c.writePos = s.c.writePos

instance : IsPreorder Conn SameLine where
  refl _ := ⟨rfl, rfl⟩
  trans _ _ _ h h' := ⟨h'.1.trans h.1, h'.2.trans h.2⟩

theorem readClient_sameLine {α : Type} (f : BrokerClient → α) : Moves SameLine (readClient f) := fun _ => ⟨rfl, rfl⟩

theorem persistDelOutPub_sameLine (packetId : Nat) : Moves SameLine (persistDelOutPub packetId) := by
  refine .bind (readClient_sameLine _) fun id => ?_
  cases id <;> exact fun _ => ⟨rfl, rfl⟩

theorem drainEncodeFailed_sameLine (e : OutPub) (encRc sent : Int) : Moves SameLine (drainEncodeFailed e encRc sent) := by
  refine .bind (readClient_sameLine _) fun _ => .ite (fun _ => .pure _) fun _ => .bind (fun _ => ⟨rfl, rfl⟩) fun _ => ?_
  refine .bind (fun _ => ⟨rfl, rfl⟩) fun _ => .bind (.ite (fun _ => ?_) fun _ => .pure _) fun _ => .pure _
  exact persistDelOutPub_sameLine _

theorem drainDeferred_sameLine (e : OutPub) (encRc : Int) : Moves SameLine (drainDeferred e encRc) := by
  refine .bind (fun _ => ⟨rfl, rfl⟩) fun _ => .bind (readClient_sameLine _) fun _ => ?_
  exact .bind (.ite (fun _ _ => ⟨rfl, rfl⟩) fun _ => .pure _) fun _ => .pure _

theorem drainSent_sameLine (e : OutPub) (sent : Int) : Moves SameLine (drainSent e sent) := by
  refine .bind (fun _ => ⟨rfl, rfl⟩) fun _ => .ite (fun _ => ?_) fun _ => ?_
  · exact .bind (fun _ => ⟨rfl, rfl⟩) fun _ => .pure _
  · exact .bind (fun _ => ⟨rfl, rfl⟩) fun _ => .bind (fun _ => ⟨rfl, rfl⟩) fun _ => .pure _

theorem drainSent_next (e : OutPub) (sent : Int) (s : Conn) : (drainSent e sent s).1 = .next (sent + 1) := by
  unfold drainSent
  rw [run_bind, run_ite]
  split <;> rfl

/-- A write that has failed keeps its place, unless the entry is given up. -/
theorem drainFailed_line (e : OutPub) (wrRc : Int) (s : Conn) :
    (drainFailed e wrRc s).1 = .stop (writeError wrRc) ∧ (drainFailed e wrRc s).2.c.wire = s.c.wire ∧
      ((drainFailed e wrRc s).2.c.writePos = s.c.writePos ∨
        (e.qos = .qos0 ∧ wrRc ≠ Code.timeout ∧ 0 < s.c.writePos ∧ (drainFailed e wrRc s).2.c.writePos = 0)) := by
  have hmark (p : Prop) [Decidable p] (f : OutPub → OutPub) : Moves SameLine (whenDo p (updateOutPub e.addr f)) :=
    .ite (fun _ _ => ⟨rfl, rfl⟩) fun _ => .pure _
  obtain ⟨hwire, hpos⟩ := hmark (s.c.writePos > 0 ∧ e.qos ≠ .qos0) (fun x => {x with retransmitDup := true}) s
  have hrun : drainFailed e wrRc s = (whenDo (s.c.writePos > 0 ∧ e.qos = .qos0 ∧ wrRc ≠ Code.timeout) (do
      drainUnlink e .qos0Cut
      modifyClient (fun c => {c with writePos := 0}) ) >>= fun _ => pure (DrainStep.stop (writeError wrRc)))
      (whenDo (s.c.writePos > 0 ∧ e.qos ≠ .qos0) (updateOutPub e.addr fun x => {x with retransmitDup := true}) s).2 := rfl
  rw [hrun]
  generalize (whenDo (s.c.writePos > 0 ∧ e.qos ≠ .qos0)
    (updateOutPub e.addr fun x => {x with retransmitDup := true}) s).2 = s₁ at hwire hpos
  by_cases hcut : s.c.writePos > 0 ∧ e.qos = .qos0 ∧ wrRc ≠ Code.timeout
  · rw [whenDo, if_pos hcut]
    exact ⟨rfl, hwire, .inr ⟨hcut.2.1, hcut.2.2, hcut.1, rfl⟩⟩
  · rw [whenDo, if_neg hcut]
    exact ⟨rfl, hwire, .inl hpos⟩

/-- Behind the write. -/
theorem drainWritten_pushed {L : Limits} {e : OutPub} {c c₁ : BrokerClient} {enc : Encoded} {wrRc : Int} {s : Conn}
    (sent : Int) (henc : e.encode L.txBufSz = enc) (hsome : 0 < enc.rc)
    (hwrote : Wrote (c.holding enc.out) c₁) (hle : c.writePos ≤ enc.rc.toNat → c₁.writePos ≤ enc.rc.toNat)
    (hrc : (wrRc = enc.rc.toNat ∧ c₁.writePos = enc.rc.toNat ∧ s.c.wire = c₁.wire ∧ s.c.writePos = 0) ∨
      (wrRc ≠ enc.rc.toNat ∧ s.c = c₁)) :
    let r := (if wrRc = Code.continue then drainDeferred e enc.rc else do
      modifyClient (fun c => {c with outQPendingLen := 0})
      zeroTxBuf enc.rc.toNat
      if wrRc ≠ enc.rc then drainFailed e wrRc else drainSent e sent) s
    Pushed L e c r.1 r.2.c := by
  have hcontinue : Code.continue < 0 := by decide
  have hnetwork : Code.network < 0 := by decide
  have hwhole : (enc.rc.toNat : Int) = enc.rc := by omega
  subst henc
  dsimp only
  by_cases hdeferred : wrRc = Code.continue
  · rw [if_pos hdeferred]
    obtain ⟨hwire, hpos⟩ := drainDeferred_sameLine e (e.encode L.txBufSz).rc s
    obtain ⟨hall, -⟩ | ⟨-, hsame⟩ := hrc
    · omega
    · rw [hsame] at hwire hpos
      exact .partly hsome hwrote hle hwire (.inl hpos)
  rw [if_neg hdeferred, run_bind, run_bind]
  have hzero : SameLine s (zeroTxBuf (e.encode L.txBufSz).rc.toNat
      (modifyClient (fun c => {c with outQPendingLen := 0}) s).2).2 := ⟨rfl, rfl⟩
  generalize (zeroTxBuf (e.encode L.txBufSz).rc.toNat
    (modifyClient (fun c => {c with outQPendingLen := 0}) s).2).2 = s₁ at hzero ⊢
  by_cases hfailed : wrRc ≠ (e.encode L.txBufSz).rc
  · rw [if_pos hfailed]
    obtain ⟨hrun, hwire, hpos⟩ := drainFailed_line e wrRc s₁
    obtain ⟨hall, -⟩ | ⟨-, hsame⟩ := hrc
    · exact absurd (hall.trans hwhole) hfailed
    rw [hzero.1, hsame] at hwire
    rw [hzero.2, hsame] at hpos
    rw [hrun]
    refine .partly hsome hwrote hle hwire (hpos.imp id ?_)
    rintro ⟨hqos, htimeout, hcut, hstart⟩
    refine ⟨hqos, ?_, ?_, hcut, hstart⟩
    · unfold writeError
      split
      · exact hdeferred
      · decide
    · unfold writeError
      split
      · exact htimeout
      · decide
  · rw [if_neg hfailed]
    obtain ⟨hwire, hpos⟩ := drainSent_sameLine e sent s₁
    obtain ⟨-, hall, hwire', hpos'⟩ | ⟨hne, -⟩ := hrc
    · rw [drainSent_next]
      exact .sent hsome hwrote hall (hwire.trans (hzero.1.trans hwire')) (hpos.trans (hzero.2.trans hpos'))
    · exact absurd ((not_not.mp hfailed).trans hwhole.symm) hne

theorem drainPublish_pushed (L : Limits) (e : OutPub) (sent : Int) (s : Conn) :
    Pushed L e s.c (drainPublish L e sent s).1 (drainPublish L e sent s).2.c := by
  have hgo : ∀ r, r = drainPublish L e sent s → Pushed L e s.c r.1 r.2.c := by
    intro r hr
    unfold drainPublish at hr
    rw [run_bind, run_bind] at hr
    generalize henc : e.encode L.txBufSz = enc at hr
    have hinto : encodeInto enc (noteEncoded e s).2 =
      (enc.rc, {c := s.c.holding enc.out, env := (noteEncoded e s).2.env}) := rfl
    rw [hinto] at hr
    dsimp only at hr
    rw [run_ite] at hr
    split at hr
    next hrc =>
      obtain ⟨hwire, hpos⟩ := drainEncodeFailed_sameLine e enc.rc sent
        {c := s.c.holding enc.out, env := (noteEncoded e s).2.env}
      subst hr
      exact .dropped (henc ▸ hrc) hwire hpos
    next hrc =>
    have hsome : 0 < enc.rc := Int.not_le.mp hrc
    rw [run_bind, run_ite] at hr
    split at hr
    · subst hr
      exact .barred (henc ▸ hsome) rfl rfl
    rw [run_bind, run_bind, run_bind] at hr
    subst hr
    have hline : (noteSending e (noteWriting L e (readClient (·.outQPendingLen)
        {c := s.c.holding enc.out, env := (noteEncoded e s).2.env}).2).2).2.c = s.c.holding enc.out :=
      noteWriting_c L e _
    generalize (noteSending e (noteWriting L e (readClient (·.outQPendingLen)
      {c := s.c.holding enc.out, env := (noteEncoded e s).2.env}).2).2).2 = s₁ at hline ⊢
    obtain ⟨c₁, hwrote, hle, hrc⟩ := @packetWrite_wrote L enc.rc.toNat s₁
    rw [hline] at hwrote hle
    exact drainWritten_pushed sent henc hsome hwrote hle hrc
  exact hgo _ rfl

/-! ### A delivery -/

def OutPub.setRetransmit (dup : Bool) (e : OutPub) : OutPub := {e with retransmitDup := dup}

/-- The turns of the drain for one entry, up to the one that is through with it. In between, the entry may have been
marked as a repetition; a broken transport ends the delivery of an entry of QoS 0 that has begun. -/
inductive Attempts (L : Limits) : OutPub → Conn → Conn → Prop
  | last {e : OutPub} {s s' : Conn} {sent n : Int} (h : drainPublish L e sent s = (.next n, s')) : Attempts L e s s'
  | again {e : OutPub} {s s₁ s₂ s' : Conn} {sent rc : Int} (dup : Bool) (h : drainPublish L e sent s = (.stop rc, s₁))
    (hkept : e.qos = .qos0 → rc = Code.continue ∨ rc = Code.timeout ∨ SameLine s s₁) (hline : SameLine s₁ s₂)
    (hdup : e.qos = .qos0 → dup = false) (hrest : Attempts L (e.setRetransmit dup) s₂ s') : Attempts L e s s'

theorem Attempts.of_next {L : Limits} {e : OutPub} {s : Conn} {sent n : Int} (h : (drainPublish L e sent s).1 = .next n) :
    Attempts L e s (drainPublish L e sent s).2 := .last (Prod.ext h rfl)

/-- What is handed to the transport for an entry that may be marked as a repetition. -/
def OutPub.packet (L : Limits) (e : OutPub) (dup : Bool) : Bytes :=
  sentBytes ((e.setRetransmit dup).encode L.txBufSz)

/-- A connection with a packet on its way, whose first bytes are out. -/
structure Amid (L : Limits) (before : Bytes) (e : OutPub) (c : BrokerClient) : Prop where
  wire : ∃ dup, (e.qos = .qos0 → dup = false) ∧ c.wire = before ++ (e.packet L dup).take c.writePos
  pos : c.writePos ≤ (e.packet L e.retransmitDup).length

/-- Two packets that differ in their first byte. -/
theorem take_splice {b b' : UInt8} {rest : Bytes} {pos m : Nat} (hle : pos ≤ m) (hpos : 0 < pos) :
    (b' :: rest).take pos ++ ((b :: rest).drop pos).take (m - pos) = (b' :: rest).take m := by
  obtain ⟨k, rfl⟩ : ∃ k, pos = k + 1 := ⟨pos - 1, by omega⟩
  have hsame : (b :: rest).drop (k + 1) = (b' :: rest).drop (k + 1) := rfl
  rw [hsame, ← List.take_add]
  congr 1
  omega

section Delivery
variable {L : Limits} {rx : Bytes} {level : Nat} {v : PublishView} {granted : QoS} {e : OutPub} {before : Bytes}

theorem Forwards.setRetransmit {p : InPublish} {dup : Bool} (h : Forwards p granted e)
    (hdup : e.qos = .qos0 → dup = false) : Forwards p granted (e.setRetransmit dup) :=
  ⟨h.topic, h.payload, h.props, h.qos, h.retain, h.packetId, h.named, hdup⟩

/-- Marked or not, an entry makes the same packet but for its first byte. -/
theorem Forwards.packets (hread : v.Read level rx) (hpassed : (v.inPublish rx).Passed level)
    (h : Forwards (v.inPublish rx) granted e) :
    (∀ dup, (e.qos = .qos0 → dup = false) → ((e.setRetransmit dup).encode L.txBufSz).rc ≤ 0) ∨
      ∃ rest : Bytes, ∀ dup, (e.qos = .qos0 → dup = false) →
        ∃ b, (e.setRetransmit dup).encode L.txBufSz = .done (b :: rest) := by
  by_cases hnamed : RespTopicsNamed e.protocolLevel e.props
  case neg => exact .inl fun dup _ => le_of_lt (OutPub.encode_refused (e := e.setRetransmit dup) hnamed L.txBufSz)
  have hencode (dup : Bool) : (e.setRetransmit dup).encode L.txBufSz =
      encodePublish L.txBufSz (e.setRetransmit dup).toPublish :=
    OutPub.encode_eq (e := e.setRetransmit dup) hnamed _
  simp only [hencode]
  have hheld := fun dup hdup => (@Forwards.setRetransmit _ _ _ dup h hdup).relays.held hread hpassed
  have haccepted := fun dup hdup => (@Forwards.setRetransmit _ _ _ dup h hdup).relays.accepted hread hpassed
  have hcode : Code.outOfBuffer ≤ 0 := by decide
  by_cases hbody : e.toPublish.body.length ≤ maxRemainLen
  · have hwritten := fun dup hdup =>
      @Publish.encodePublish_of_accepted L.txBufSz _ (hheld dup hdup) (haccepted dup hdup) hbody
    have hhead : ∀ dup, (e.setRetransmit dup).toPublish.head.length = e.toPublish.head.length := fun _ => rfl
    by_cases hsmall : L.txBufSz < maxLenBytes + 1
    · refine .inl fun dup hdup => ?_
      rw [hwritten dup hdup, if_pos hsmall]
      exact hcode
    by_cases hroom : L.txBufSz < e.toPublish.head.length
    · refine .inl fun dup hdup => ?_
      rw [hwritten dup hdup, if_neg hsmall, if_pos ((hhead dup).symm ▸ hroom)]
      exact hcode
    · refine .inr ⟨(vbiBytes maxLenBytes e.toPublish.body.length ++ e.toPublish.body).take (L.txBufSz - 1),
        fun dup hdup => ?_⟩
      rw [hwritten dup hdup, if_neg hsmall, if_neg ((hhead dup).symm ▸ hroom)]
      obtain ⟨k, hk⟩ : ∃ k, L.txBufSz = k + 1 := ⟨L.txBufSz - 1, by omega⟩
      rw [hk]
      exact ⟨_, rfl⟩
  · refine .inl fun dup hdup => ?_
    obtain hrc | ⟨hshort, -⟩ := @Publish.encodePublish_cut L.txBufSz _ (hheld dup hdup) (haccepted dup hdup)
    · exact le_of_lt hrc
    · exact absurd hshort hbody

theorem sentBytes_done (out : Bytes) : sentBytes (.done out) = out := by
  cases out with
  | nil => rfl
  | cons b rest => exact if_neg (Int.not_le.mpr (Int.natCast_pos.mpr (Nat.succ_pos _)))

theorem packet_done {dup : Bool} {out : Bytes} (h : (e.setRetransmit dup).encode L.txBufSz = .done out) :
    e.packet L dup = out := by
  rw [OutPub.packet, h, sentBytes_done]

theorem Forwards.packet_length (hread : v.Read level rx) (hpassed : (v.inPublish rx).Passed level)
    (he : Forwards (v.inPublish rx) granted e) {dup dup' : Bool} (hdup : e.qos = .qos0 → dup = false)
    (hdup' : e.qos = .qos0 → dup' = false) : (e.packet L dup).length = (e.packet L dup').length := by
  obtain hnone | ⟨rest, hall⟩ := he.packets hread hpassed (L := L)
  · have hempty : ∀ dup, (e.qos = .qos0 → dup = false) → e.packet L dup = [] := fun dup hdup => if_pos (hnone dup hdup)
    rw [hempty dup hdup, hempty dup' hdup']
  · obtain ⟨b, hb⟩ := hall dup hdup
    obtain ⟨b', hb'⟩ := hall dup' hdup'
    rw [packet_done hb, packet_done hb']
    rfl

theorem Amid.same {c c' : BrokerClient} (h : Amid L before e c) (hwire : c'.wire = c.wire)
    (hpos : c'.writePos = c.writePos) : Amid L before e c' := by
  obtain ⟨hout, hle⟩ := h
  exact ⟨by rwa [hwire, hpos], by rwa [hpos]⟩

/-- More of a packet, behind what is out of it. -/
theorem Amid.wrote {rest : Bytes} {c c₁ : BrokerClient} (he : e.qos = .qos0 → e.retransmitDup = false)
    (hall : ∀ dup, (e.qos = .qos0 → dup = false) →
      ∃ b, (e.setRetransmit dup).encode L.txBufSz = .done (b :: rest))
    (h : Amid L before e c) (hwrote : Wrote (c.holding (e.encode L.txBufSz).out) c₁)
    (hle : c₁.writePos ≤ (e.encode L.txBufSz).rc.toNat) :
    ∃ dup, (e.qos = .qos0 → dup = false) ∧ c₁.wire = before ++ (e.packet L dup).take c₁.writePos := by
  obtain ⟨b, hb⟩ := hall e.retransmitDup he
  have hpacket := packet_done hb
  change e.encode L.txBufSz = _ at hb
  obtain ⟨dup, hdup, hwire⟩ := h.wire
  obtain ⟨b', hb'⟩ := hall dup hdup
  have hpos : c.writePos ≤ c₁.writePos := hwrote.pos
  have hlen : c₁.writePos ≤ (b :: rest).length := by
    rw [hb] at hle
    exact hle
  have hinside : c₁.writePos - c.writePos ≤ ((b :: rest).drop c.writePos).length := by
    rw [List.length_drop]
    omega
  have hnew : c₁.wire = c.wire ++ ((b :: rest).drop c.writePos).take (c₁.writePos - c.writePos) := by
    rw [hwrote.wire, hb]
    show c.wire ++ (((b :: rest) ++ c.txBuf.drop _).drop c.writePos).take (c₁.writePos - c.writePos) = _
    rw [List.drop_append_of_le_length (by omega), List.take_append_of_le_length hinside]
  rcases Nat.eq_zero_or_pos c.writePos with hstart | hbegun
  · refine ⟨e.retransmitDup, he, ?_⟩
    rw [hnew, hwire, hstart, hpacket, List.take_zero, List.append_nil, List.drop_zero, Nat.sub_zero]
  · refine ⟨dup, hdup, ?_⟩
    rw [hnew, hwire, packet_done hb', List.append_assoc, take_splice hpos hbegun]

/-- A turn that does not go on leaves the packet where it has got to. -/
theorem Amid.stopped {sent rc : Int} {s s' : Conn} (hread : v.Read level rx) (hpassed : (v.inPublish rx).Passed level)
    (he : Forwards (v.inPublish rx) granted e) (h : Amid L before e s.c) (hrun : drainPublish L e sent s = (.stop rc, s'))
    (hkept : e.qos = .qos0 → rc = Code.continue ∨ rc = Code.timeout ∨ SameLine s s') : Amid L before e s'.c := by
  have hturn := drainPublish_pushed L e sent s
  rw [hrun] at hturn
  cases hturn with
  | dropped henc hwire hpos => exact h.same hwire hpos
  | barred henc hwire hpos => exact h.same hwire hpos
  | partly henc hwrote hle hwire hpos =>
    obtain hnone | ⟨rest, hall⟩ := he.packets hread hpassed (L := L)
    · exact absurd henc (Int.not_lt.mpr (hnone e.retransmitDup he.duplicate))
    obtain ⟨b, hb⟩ := hall e.retransmitDup he.duplicate
    have hlen : (e.packet L e.retransmitDup).length = (e.encode L.txBufSz).rc.toNat := by
      rw [packet_done hb]
      change e.encode L.txBufSz = _ at hb
      rw [hb]
      rfl
    have hle' := hle (hlen ▸ h.pos)
    obtain hpos | ⟨hqos, hcontinue, htimeout, -, -⟩ := hpos
    · refine ⟨?_, by rw [hlen, hpos]; exact hle'⟩
      rw [hwire, hpos]
      exact h.wrote he.duplicate hall hwrote hle'
    · obtain hsame | hsame | hsame := hkept hqos
      · exact absurd hsame hcontinue
      · exact absurd hsame htimeout
      · exact h.same hsame.1 hsame.2

/-- A turn that goes on has all of it out, or nothing. -/
theorem Amid.gone {sent n : Int} {s s' : Conn} (hread : v.Read level rx) (hpassed : (v.inPublish rx).Passed level)
    (he : Forwards (v.inPublish rx) granted e) (h : Amid L before e s.c)
    (hrun : drainPublish L e sent s = (.next n, s')) : ∃ dup, (e.qos = .qos0 → dup = false) ∧ s'.c.wire = before ++ e.packet L dup := by
  have hturn := drainPublish_pushed L e sent s
  rw [hrun] at hturn
  obtain hnone | ⟨rest, hall⟩ := he.packets hread hpassed (L := L)
  · have hempty : ∀ dup, (e.qos = .qos0 → dup = false) → e.packet L dup = [] := fun dup hdup => if_pos (hnone dup hdup)
    cases hturn with
    | dropped henc hwire hpos =>
      obtain ⟨dup, hdup, hline⟩ := h.wire
      refine ⟨dup, hdup, ?_⟩
      rw [hwire, hline, hempty dup hdup, List.take_nil]
    | sent henc hwrote hall hwire hpos => exact absurd henc (Int.not_lt.mpr (hnone e.retransmitDup he.duplicate))
  · cases hturn with
    | dropped henc hwire hpos =>
      obtain ⟨b, hb⟩ := hall e.retransmitDup he.duplicate
      change e.encode L.txBufSz = _ at hb
      rw [hb] at henc
      exact absurd henc (Int.not_le.mpr (Int.natCast_pos.mpr (Nat.succ_pos _)))
    | sent henc hwrote hend hwire hpos =>
      obtain ⟨dup, hdup, hline⟩ := h.wrote he.duplicate hall hwrote (Nat.le_of_eq hend)
      refine ⟨dup, hdup, ?_⟩
      obtain ⟨b, hb⟩ := hall e.retransmitDup he.duplicate
      change e.encode L.txBufSz = _ at hb
      obtain ⟨b', hb'⟩ := hall dup hdup
      rw [hwire, hline, List.take_of_length_le]
      rw [packet_done hb', hend, hb]
      exact Nat.le_refl _

/-- **What a delivery has put on the wire** when it is through: one packet. -/
theorem Attempts.packet {s s' : Conn} (hread : v.Read level rx) (hpassed : (v.inPublish rx).Passed level)
    (he : Forwards (v.inPublish rx) granted e) (h : Amid L before e s.c) (hrun : Attempts L e s s') :
    ∃ dup, (e.qos = .qos0 → dup = false) ∧ s'.c.wire = before ++ e.packet L dup := by
  induction hrun with
  | last hlast => exact h.gone hread hpassed he hlast
  | again dup hstop hkept hline hdup hrest ih =>
    obtain ⟨hout, hpos⟩ := (h.stopped hread hpassed he hstop hkept).same hline.1 hline.2
    refine ih (he.setRetransmit hdup) ⟨hout, Nat.le_trans hpos (Nat.le_of_eq ?_)⟩
    exact he.packet_length hread hpassed he.duplicate hdup

/-- The packet of a delivery is whole exactly if the buffer holds it and no Response Topic is empty. -/
theorem Attempts.whole_iff {s s' : Conn} (htx : L.txBufSz ≤ maxRemainLen) (hread : v.Read level rx)
    (hpassed : (v.inPublish rx).Passed level) (he : Forwards (v.inPublish rx) granted e) (hidle : s.c.writePos = 0)
    (hrun : Attempts L e s s') :
    (∃ bytes, s'.c.wire = s.c.wire ++ bytes ∧ Intact rx v level e.protocolLevel granted bytes) ↔
      forwardedSize (v.inPublish rx) granted e.protocolLevel ≤ L.txBufSz ∧
        RespTopicsNamed e.protocolLevel (v.inPublish rx).props := by
  have hamid : Amid L s.c.wire e s.c := by
    refine ⟨⟨e.retransmitDup, he.duplicate, ?_⟩, ?_⟩
    · rw [hidle, List.take_zero, List.append_nil]
    · rw [hidle]
      exact Nat.zero_le _
  obtain ⟨dup, hdup, hwire⟩ := hrun.packet hread hpassed he hamid
  have hpacket : (∃ bytes, s'.c.wire = s.c.wire ++ bytes ∧ Intact rx v level e.protocolLevel granted bytes) ↔
      Intact rx v level e.protocolLevel granted (e.packet L dup) := by
    constructor
    · rintro ⟨bytes, hbytes, hwhole⟩
      rw [hwire] at hbytes
      rw [← List.append_cancel_left hbytes] at hwhole
      exact hwhole
    · exact fun hwhole => ⟨_, hwire, hwhole⟩
  rw [hpacket, ← he.props, OutPub.packet]
  by_cases hnamed : RespTopicsNamed e.protocolLevel e.props
  · rw [OutPub.encode_eq (e := e.setRetransmit dup) hnamed, and_iff_left hnamed]
    exact (he.setRetransmit hdup).relays.whole_iff htx hread hpassed
  · -- the entry is dropped
    rw [sentBytes, if_pos (le_of_lt (OutPub.encode_refused (e := e.setRetransmit dup) hnamed _))]
    refine iff_of_false (fun hwhole => ?_) fun hboth => hnamed hboth.2
    obtain ⟨v', t', hdecode, -⟩ := hwhole (freePool v.props.length) (room_freePool _).ge
    obtain ⟨rc, hfail⟩ := @decodePublish_nil e.protocolLevel (freePool v.props.length)
    rw [hfail] at hdecode
    cases hdecode

/-- A transport that takes all there is takes a packet at once. -/
theorem packetWrite_open (L : Limits) {len : Nat} {s : Conn} (hopen : s.c.sockOpen = true) (hidle : s.c.writePos = 0)
    (hnet : s.env.writes = []) (hlen : 0 < len) : (packetWrite L len s).1 = len := by
  have hdo : writeDo len s =
      ((len : Int), {s with c := {s.c with writePos := len, wire := s.c.wire ++ s.c.txBuf.take len}}) := by
    unfold writeDo Env.netWrite
    rw [hopen, hnet, hidle]
    simp
  have hloop : writeLoop len len s = writeDo len s := by
    obtain ⟨k, rfl⟩ : ∃ k, len = k + 1 := ⟨len - 1, by omega⟩
    rw [writeLoop, hdo]
    dsimp only
    rw [if_neg (by omega), if_neg (lt_irrefl _)]
  unfold packetWrite socketWrite
  rw [hidle, if_neg (by omega), hloop, ite_self, hdo]
  dsimp only
  rw [if_neg (fun h => absurd h.2.2 (lt_irrefl _)), if_pos (by omega)]

/-- So the drain is through with an entry in one turn. -/
theorem drainPublish_open (L : Limits) (e : OutPub) (sent : Int) {s : Conn} (hopen : s.c.sockOpen = true)
    (hidle : s.c.writePos = 0) (hpending : s.c.outQPendingLen = 0) (hnet : s.env.writes = []) :
    ∃ s', Attempts L e s s' := by
  have hnext : ∃ n, (drainPublish L e sent s).1 = .next n := by
    unfold drainPublish
    rw [run_bind, run_bind]
    generalize e.encode L.txBufSz = enc
    have hinto : encodeInto enc (noteEncoded e s).2 =
      (enc.rc, {c := s.c.holding enc.out, env := (noteEncoded e s).2.env}) := rfl
    rw [hinto]
    dsimp only
    rw [run_ite]
    split
    next hrc =>
      unfold drainEncodeFailed
      rw [run_bind, run_ite]
      split
      next hbusy => exact absurd hpending hbusy
      next => exact ⟨sent, rfl⟩
    next hrc =>
    rw [run_bind, run_ite]
    split
    next hbusy => exact absurd hpending hbusy.1
    rw [run_bind, run_bind, run_bind]
    have hline : (noteSending e (noteWriting L e (readClient (·.outQPendingLen)
        {c := s.c.holding enc.out, env := (noteEncoded e s).2.env}).2).2).2.c = s.c.holding enc.out :=
      noteWriting_c L e _
    have hwrites : (noteSending e (noteWriting L e (readClient (·.outQPendingLen)
        {c := s.c.holding enc.out, env := (noteEncoded e s).2.env}).2).2).2.env.writes = [] := by
      show (whenDo (e.qos ≠ .qos0) (noteObs _) _).2.env.writes = _
      unfold whenDo
      split <;> exact hnet
    generalize (noteSending e (noteWriting L e (readClient (·.outQPendingLen)
      {c := s.c.holding enc.out, env := (noteEncoded e s).2.env}).2).2).2 = s₁ at hline hwrites ⊢
    have hwrite : (packetWrite L enc.rc.toNat s₁).1 = enc.rc.toNat :=
      packetWrite_open L (by rw [hline]; exact hopen) (by rw [hline]; exact hidle) hwrites (by omega)
    have hcontinue : Code.continue < 0 := by decide
    rw [hwrite, if_neg (by omega), run_bind, run_bind, if_neg (not_not.mpr (by omega)), drainSent_next]
    exact ⟨_, rfl⟩
  obtain ⟨n, hn⟩ := hnext
  exact ⟨_, .of_next hn⟩

end Delivery
end Broker
end WolfMqtt
