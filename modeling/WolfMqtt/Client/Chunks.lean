import WolfMqtt.Client.Settle
import WolfMqtt.Packet.Cut

/-! A PUBLISH comes in, in as many passes of a wait as the transport makes of it.

Until the packet has been read, or as much of it as `rx_buf` holds, the wait listens (`Listening`); from then on
it reads the payload (`Reading`). A pass that does not end the delivery leaves the wait in one of the two, and has
used up a step of the transport's script. -/
namespace WolfMqtt.Receive

/-! ### The payload, turn by turn -/

/-- A wait in the middle of the payload of a PUBLISH. -/
structure Reading (w : Wait) (payload rest : Bytes) (old : List Delivery) (s : Receiver) : Prop where
  place : AtPayload w.room payload rest old s
  passed : Passed w.room s
  read : (s.stat w.stat).read = .payload2
  again : (s.stat w.room).read = .payload2
  ack : (s.stat w.stat).ack = .begin
  phase : s.client.reader.stat = .begin

/-- What `MqttClient_HandlePacket` makes of a payload: all of it, or the transport has asked for time. -/
inductive Handled (o : Obj) (payload rest : Bytes) (old : List Delivery) (s : Receiver) :
    Int × MqttPublishResp × Receiver → Prop
  | all (resp : MqttPublishResp) (s' : Receiver) (hafter : AfterPayload payload rest old s')
      (hphase : s'.client.reader.stat = s.client.reader.stat) (hread : (s'.stat o).read = .begin)
      (hack : ∀ p, (s'.stat p).ack = (s.stat p).ack) : Handled o payload rest old s (Code.success, resp, s')
  | part (s' : Receiver) (hkept : Kept o s s') (hat : AtPayload o payload rest old s')
      (hread : (s'.stat o).read = .payload2)
      (hspent : s'.client.reader.net.script.length < s.client.reader.net.script.length) (hblock : s.client.nonblock = true) :
      Handled o payload rest old s (Code.continue, {}, s')

section Turns
variable {w : Wait} {o : Obj} {payload rest : Bytes} {old : List Delivery} {s : Receiver}

theorem publishDone_after (qos packetId : Nat) (hafter : AfterPayload payload rest old s) :
    ∃ resp s', s.publishDone o qos packetId Code.success = (Code.success, resp, s') ∧
      AfterPayload payload rest old s' ∧ s'.client = s.client ∧ s'.stat = (s.setRead o .begin).stat := by
  have htrack (c : Prop) [Decidable c] (ids : List Nat) (s' : Receiver) :
      (if c then {s' with recvQos2 := ids} else s').client = s'.client ∧
        (if c then {s' with recvQos2 := ids} else s').stat = s'.stat ∧
        (if c then {s' with recvQos2 := ids} else s').log = s'.log := by
    split <;> exact ⟨rfl, rfl, rfl⟩
  rw [Receiver.publishDone]
  dsimp only
  split
  · exact ⟨_, _, rfl, ⟨hafter.log, hafter.stream, hafter.pos⟩, rfl, rfl⟩
  · refine ⟨_, _, rfl, ⟨?_, ?_, ?_⟩, (@htrack _ _ _ _).1, (@htrack _ _ _ _).2.1⟩
    · rw [(@htrack _ _ _ _).2.2]
      exact hafter.log
    · rw [(@htrack _ _ _ _).1]
      exact hafter.stream
    · rw [(@htrack _ _ _ _).1]
      exact hafter.pos

theorem handlePayload_handles (qos packetId : Nat) (h : AtFront o payload rest old s ∨ AtPayload o payload rest old s)
    (hpassed : Passed o s) : Handled o payload rest old s (s.handlePayload o qos packetId) := by
  have hgathered := readPayload_gathers h hpassed
  rw [Receiver.handlePayload]
  generalize s.readPayload o = got at hgathered ⊢
  cases hgathered with
  | all s₁ hkept hafter =>
    obtain ⟨resp, s₂, hdone, hafter', hclient, hstat⟩ := publishDone_after (o := o) qos packetId hafter
    dsimp only
    rw [if_neg (by decide), hdone]
    refine .all resp s₂ hafter' (by rw [hclient, hkept.phase]) ?_ fun p => ?_
    · rw [hstat, Receiver.stat_setRead]
    · rw [hstat, (Kept.setRead o .begin s₁).stat p, hkept.stat p]
  | part s₁ hkept hat hread hspent hblock =>
    dsimp only
    rw [if_pos rfl]
    exact .part s₁ hkept hat hread hspent hblock

/-- What the cases `MQTT_MSG_PAYLOAD` and `MQTT_MSG_PAYLOAD2` come to. -/
inductive Turned (w : Wait) (payload rest : Bytes) (old : List Delivery) (s : Receiver) : Int × Receiver → Prop
  | ends (s' : Receiver) (hbehind : Behind payload rest old s')
      (hack : (s'.stat w.stat).ack = .begin ∨ (s'.stat w.stat).read = .ack)
      (hstarts : w.room = w.stat → Starts w s') : Turned w payload rest old s (Code.success, s')
  | reads (s' : Receiver) (hreading : Reading w payload rest old s')
      (hspent : s'.client.reader.net.script.length < s.client.reader.net.script.length)
      (hblock : s'.client.nonblock = true) : Turned w payload rest old s (Code.continue, s')

theorem Turned.mono {s₁ : Receiver} {result : Int × Receiver} (h : Turned w payload rest old s₁ result)
    (hscript : s₁.client.reader.net.script.length ≤ s.client.reader.net.script.length) :
    Turned w payload rest old s result := by
  cases h with
  | ends s' hbehind hack hstarts => exact .ends s' hbehind hack hstarts
  | reads s' hreading hspent hblock => exact .reads s' hreading (Nat.lt_of_lt_of_le hspent hscript) hblock

/-- What is staged is sent next. -/
theorem stage_ack (resp : MqttPublishResp) (h : (s.stat w.stat).ack = .begin) :
    ((s.stage w resp).stat w.stat).ack = .begin ∨ ((s.stage w resp).stat w.stat).read = .ack := by
  rw [Receiver.stage]
  split
  · rw [Receiver.stat_modifyStat]
    exact .inr rfl
  · exact .inl h

theorem stage_starts (resp : MqttPublishResp) (h : Starts w s) : Starts w (s.stage w resp) := by
  rw [Receiver.stage]
  split
  · rw [Starts, Receiver.stat_modifyStat]
    exact .inr rfl
  · exact h

theorem AfterPayload.stage (h : AfterPayload payload rest old s) (w : Wait) (resp : MqttPublishResp) :
    AfterPayload payload rest old (s.stage w resp) ∧ (s.stage w resp).client = s.client := by
  rw [Receiver.stage]
  split
  · exact ⟨⟨h.log, h.stream, h.pos⟩, rfl⟩
  · exact ⟨h, rfl⟩

/-- The end of the cases, after `MqttClient_HandlePacket`. -/
theorem handled_turned {type : Option PacketType} {packetId : Nat} {result : Int × MqttPublishResp × Receiver}
    (h : Handled w.room payload rest old s result) (hpassed : Passed w.room s) (hack : (s.stat w.stat).ack = .begin)
    (hphase : s.client.reader.stat = .begin) (htype : type ≠ some .publishRec) :
    Turned w payload rest old s (
      let (rc, resp, s) := result
      let resp := if rc ≥ 0 then s.untracked w type packetId resp else resp
      let s := if w.room ≠ w.stat ∧ (s.stat w.room).read = .payload2 then s.setRead w.stat .payload2 else s
      if rc < 0 then (rc, s) else (Code.success, (s.stage w resp).readStop w.stat)) := by
  cases h with
  | all resp s₁ hafter hphase₁ hread hack₁ =>
    have hnot : ¬(w.room ≠ w.stat ∧ (s₁.stat w.room).read = .payload2) := by
      rintro ⟨-, hagain⟩
      rw [hread] at hagain
      cases hagain
    have hresp : s₁.untracked w type packetId resp = resp := if_neg fun h => htype h.1
    dsimp only
    rw [if_neg hnot, if_neg (by decide), if_pos (by decide), hresp]
    obtain ⟨hstaged, hclient⟩ := hafter.stage w resp
    have hstop := hstaged.readStop (by rw [hclient, hphase₁, hphase]) w.stat
    refine .ends _ hstop ?_ fun hroom => ?_
    · rw [Receiver.stat_readStop]
      exact stage_ack resp ((hack₁ w.stat).trans hack)
    · rw [Starts, Receiver.stat_readStop]
      refine stage_starts resp (.inl ?_)
      rw [← hroom, hread]
  | part s₁ hkept hat hread hspent hblock =>
    have hpassed₁ := hpassed.kept hkept
    have hphase₁ : s₁.client.reader.stat = .begin := hkept.phase.trans hphase
    have hack₁ : (s₁.stat w.stat).ack = .begin := by rw [hkept.stat w.stat, hack]
    have hblock₁ : s₁.client.nonblock = true := hkept.nonblock.trans hblock
    dsimp only
    rw [if_pos (by decide)]
    by_cases hroom : w.room = w.stat
    · rw [if_neg fun h => h.1 hroom]
      exact .reads s₁ ⟨hat, hpassed₁, hroom ▸ hread, hread, hack₁, hphase₁⟩ hspent hblock₁
    · rw [if_pos ⟨hroom, hread⟩]
      refine .reads _ ⟨⟨hat.total, hat.begun, hat.log, hat.stream, hat.pos⟩, ⟨hpassed₁.taking, hpassed₁.once,
        hpassed₁.tracked, hpassed₁.patient, hpassed₁.room⟩, ?_, ?_, ?_, hphase₁⟩ hspent hblock₁
      · rw [Receiver.stat_setRead]
      · rw [Receiver.stat_setRead_of_ne _ _ _ hroom, hread]
      · rw [Receiver.stat_setRead]
        exact hack₁

/-- A pass in the middle of a payload goes on with it. -/
theorem Reading.handle (h : Reading w payload rest old s) : Turned w payload rest old s (s.handle w none 0 0) := by
  have huse : Option.isNone (none : Option PacketType) = true ∧
      ((s.stat w.stat).read = .payload ∨ (s.stat w.stat).read = .payload2) := ⟨rfl, .inr h.read⟩
  have hlater : ¬(some PacketType.publish = some .publish ∧ (s.stat w.stat).read = .payload) := by
    rintro ⟨-, hpayload⟩
    rw [h.read] at hpayload
    cases hpayload
  have hpacket : s.handlePacket (some .publish) w.room =
      s.handlePayload w.room (s.publish w.room).qos (s.publish w.room).packetId := by
    rw [Receiver.handlePacket]
    exact if_neg (not_not.mpr h.again)
  have hroom : w.target none 0 = w.room := rfl
  rw [Receiver.handle]
  dsimp only
  rw [hroom, if_pos huse, if_neg hlater]
  rw [hpacket]
  exact handled_turned (handlePayload_handles _ _ (.inr h.place) h.passed) h.passed h.ack h.phase (by decide)

end Turns

/-! ### The packet comes in -/

/-- A wait that has a PUBLISH coming: the decoder will take what `rx_buf` holds of it, and it will not be held
back. -/
structure Expects (w : Wait) (packet : Bytes) (v : PublishView) (old : List Delivery) (s : Receiver) : Prop where
  decoded : ∃ p, decodePublish s.client.protocolLevel (packet.take s.client.reader.rxBufLen) {pool := s.pool} = (.ok v, p)
  plain : s.client.protocolLevel ≥ level5 → v.props.any (·.type = .topicAlias) = false
  whole : v.len = packet.length
  heeded : Heeded s
  taking : Taking s
  once : v.qos = 2 → RecvQos2.contains s.recvQos2 (v.packetId.getD 0) = false
  tracked : v.qos = 2 → RecvQos2.hasFreeSlot s.recvQos2 = true
  patient : Patient s.client.nonblock s.client.reader.net
  ack : (s.stat w.stat).ack = .begin
  idle : w.room ≠ w.stat → (s.stat w.room).read ≠ .payload2
  log : s.log = old

/-- What the reading of a packet leaves as it is. -/
structure Alike (w : Wait) (s s' : Receiver) : Prop where
  level : s'.client.protocolLevel = s.client.protocolLevel
  nonblock : s'.client.nonblock = s.client.nonblock
  room : s'.client.reader.rxBufLen = s.client.reader.rxBufLen
  script : s'.client.reader.net.script <:+ s.client.reader.net.script
  free : Pool.freeCount PropItem.isFree s'.pool = Pool.freeCount PropItem.isFree s.pool
  msgCb : s'.msgCb = s.msgCb
  propertyCb : s'.propertyCb = s.propertyCb
  recvQos2 : s'.recvQos2 = s.recvQos2
  log : s'.log = s.log
  ack : (s'.stat w.stat).ack = (s.stat w.stat).ack
  others : ∀ o ≠ w.stat, s'.stat o = s.stat o

namespace Alike
variable {w : Wait} {s s' s'' : Receiver}

theorem trans (h : Alike w s s') (h' : Alike w s' s'') : Alike w s s'' where
  level := h'.level.trans h.level
  nonblock := h'.nonblock.trans h.nonblock
  room := h'.room.trans h.room
  script := h'.script.trans h.script
  free := h'.free.trans h.free
  msgCb := h'.msgCb.trans h.msgCb
  propertyCb := h'.propertyCb.trans h.propertyCb
  recvQos2 := h'.recvQos2.trans h.recvQos2
  log := h'.log.trans h.log
  ack := h'.ack.trans h.ack
  others o ho := (h'.others o ho).trans (h.others o ho)

theorem modifyStat {f : MqttMsgStat → MqttMsgStat} (hack : (f (s.stat w.stat)).ack = (s.stat w.stat).ack) :
    Alike w s (s.modifyStat w.stat f) where
  level := rfl
  nonblock := rfl
  room := rfl
  script := List.suffix_rfl
  free := rfl
  msgCb := rfl
  propertyCb := rfl
  recvQos2 := rfl
  log := rfl
  ack := by rw [Receiver.stat_modifyStat, hack]
  others o ho := Receiver.stat_modifyStat_of_ne w.stat s f ho

theorem setRead (w : Wait) (read : MsgState) (s : Receiver) : Alike w s (s.setRead w.stat read) := modifyStat rfl

theorem setClient {client : MqttClient} (hlevel : client.protocolLevel = s.client.protocolLevel)
    (hblock : client.nonblock = s.client.nonblock) (hroom : client.reader.rxBufLen = s.client.reader.rxBufLen)
    (hscript : client.reader.net.script <:+ s.client.reader.net.script) : Alike w s {s with client} :=
  ⟨hlevel, hblock, hroom, hscript, rfl, rfl, rfl, rfl, rfl, rfl, fun _ _ => rfl⟩

theorem setReader {reader : Reader} (hroom : reader.rxBufLen = s.client.reader.rxBufLen)
    (hscript : reader.net.script <:+ s.client.reader.net.script) : Alike w s (s.setReader reader) :=
  setClient rfl rfl hroom hscript

theorem setPool {pool : PropPool} (hfree : Pool.freeCount PropItem.isFree pool = Pool.freeCount PropItem.isFree s.pool)
    (bufLen : Nat) (publish : Obj → Inbound) : Alike w s {s with pool, bufLen, publish} :=
  ⟨rfl, rfl, rfl, List.suffix_rfl, hfree, rfl, rfl, rfl, rfl, rfl, fun _ _ => rfl⟩

theorem readStop (w : Wait) (s : Receiver) : Alike w s (s.readStop w.stat) := by
  have hclient : Alike w s {s with client := (s.client.readStop (s.stat w.stat)).1} :=
    setClient rfl rfl rfl List.suffix_rfl
  exact hclient.trans (modifyStat (f := fun _ => (s.client.readStop (s.stat w.stat)).2) rfl)

theorem readStart (w : Wait) (s : Receiver) : Alike w s (s.readStart w.stat).2 := by
  rw [Receiver.readStart, MqttClient.readStart]
  cases s.client.readActive with
  | true =>
    have hclient : Alike w s {s with client := s.client} := setClient rfl rfl rfl List.suffix_rfl
    exact hclient.trans (modifyStat (f := fun _ => s.stat w.stat) rfl)
  | false =>
    have hclient : Alike w s
        {s with client := {s.client with readActive := true, reader := {s.client.reader with stat := .begin}}} :=
      setClient rfl rfl rfl List.suffix_rfl
    exact hclient.trans (modifyStat (f := fun _ => {s.stat w.stat with isReadActive := true}) rfl)

end Alike

section Arrive
variable {w : Wait} {packet rest : Bytes} {v : PublishView} {old : List Delivery} {s s' : Receiver}

theorem Expects.alike (h : Expects w packet v old s) (halike : Alike w s s') : Expects w packet v old s' where
  decoded := by
    obtain ⟨p, hdec⟩ := h.decoded
    have hfree : PropState.room {pool := s'.pool} = PropState.room {pool := s.pool} := halike.free
    rw [halike.level, halike.room]
    exact decodePublish_alike hfree hdec
  plain := by
    rw [halike.level]
    exact h.plain
  whole := h.whole
  heeded cb hcb := h.heeded cb (halike.propertyCb ▸ hcb)
  taking := by
    obtain ⟨cb, hcb, hrc⟩ := h.taking
    exact ⟨cb, halike.msgCb.trans hcb, hrc⟩
  once := by
    rw [halike.recvQos2]
    exact h.once
  tracked := by
    rw [halike.recvQos2]
    exact h.tracked
  patient := by
    rw [halike.nonblock]
    exact fun why hmem => h.patient why (halike.script.subset hmem)
  ack := halike.ack.trans h.ack
  idle hroom := by
    rw [halike.others w.room hroom]
    exact h.idle hroom
  log := halike.log.trans h.log

theorem Expects.holds (h : Expects w packet v old s) (hfilled : s.rx = packet.take s.client.reader.rxBufLen) :
    Holds (packet.take s.client.reader.rxBufLen) v s := ⟨hfilled, h.decoded, h.plain⟩

/-- The packet is on the stream, as the reader sees it. -/
theorem Expects.frame (h : Expects w packet v old s) (rest : Bytes) :
    frame s.client.reader.rxBufLen (packet ++ rest) =
      .packet (packet.take s.client.reader.rxBufLen) (packet.drop s.client.reader.rxBufLen ++ rest) := by
  obtain ⟨p, hdec⟩ := h.decoded
  obtain ⟨headerLen, remainLen, first, hheader, hmore⟩ := decodePublish_topic hdec h.plain
  obtain ⟨headerLen', remainLen', first', hheader', hlen, -⟩ := decodePublish_payload hdec
  rw [hheader] at hheader'
  cases hheader'
  exact frame_cut hheader (hlen.symm.trans h.whole) hmore

/-- Into its object, the PUBLISH has the beginning of its payload in `rx_buf`. -/
theorem atFront_of {n level : Nat} {t t' : PropState} (hdec : decodePublish level (packet.take n) t = (.ok v, t'))
    (hwhole : v.len = packet.length)
    (hfilled : s.client.reader.rxBuf.take (packet.take n).length = packet.take n)
    (hstream : s.client.reader.net.stream = packet.drop n ++ rest) (hpos : s.client.reader.pos = 0) {o : Obj}
    {props : Option Nat} {p : Inbound} (hpublish : s.publish o = p.decoded v props) :
    AtFront o (packet.drop v.buffer.off) rest s.log s := by
  obtain ⟨headerLen, remainLen, first, -, hlen, htotal, hbuffer, -⟩ := decodePublish_payload hdec
  rw [← hlen, hwhole] at htotal hbuffer
  have hcut : (packet.take n).length = min n packet.length := List.length_take
  have htake : (packet.drop v.buffer.off).take v.buffer.len = ((packet.take n).drop v.buffer.off).take v.buffer.len := by
    rw [List.drop_take, List.take_take, Nat.min_eq_left (by omega)]
  have hget : v.buffer.get s.client.reader.rxBuf = (packet.drop v.buffer.off).take v.buffer.len := by
    rw [htake, ← hfilled, Slice.get, List.drop_take, List.take_take, Nat.min_eq_left (by omega)]
  refine ⟨?_, ?_, ?_, rfl, ?_, ?_, ?_, hpos⟩
  · rw [hpublish, List.length_drop]
    show v.totalLen = _
    omega
  · rw [hpublish]
    rfl
  · rw [hpublish]
    rfl
  · rw [hpublish]
    exact hget
  · rw [hpublish, List.length_drop]
    show v.buffer.len ≤ _
    omega
  · rw [hpublish, hstream]
    show _ = (packet.drop v.buffer.off).drop v.buffer.len ++ rest
    rw [List.drop_drop, hbuffer, hcut]
    rcases Nat.le_total n packet.length with hle | hle
    · rw [Nat.min_eq_left hle, Nat.min_eq_left hle]
    · rw [Nat.min_eq_right hle, Nat.min_self, List.drop_eq_nil_of_le hle, List.drop_length]

/-- The packet has been read, or as much of it as `rx_buf` holds, and it has been looked at. -/
structure Arrived (w : Wait) (packet rest : Bytes) (v : PublishView) (old : List Delivery) (s : Receiver) : Prop
    extends Expects w packet v old s where
  filled : s.rx = packet.take s.client.reader.rxBufLen
  loaded : s.client.reader.rxBuf.take (packet.take s.client.reader.rxBufLen).length = packet.take s.client.reader.rxBufLen
  read : (s.stat w.stat).read = .payload
  stream : s.client.reader.net.stream = packet.drop s.client.reader.rxBufLen ++ rest
  pos : s.client.reader.pos = 0
  phase : s.client.reader.stat = .begin

/-- The second decoding puts the PUBLISH into its object. -/
theorem Expects.handlePacket (h : Expects w packet v old s) (hfilled : s.rx = packet.take s.client.reader.rxBufLen)
    (hbuf : s.client.reader.rxBuf.take (packet.take s.client.reader.rxBufLen).length =
      packet.take s.client.reader.rxBufLen)
    (hread : (s.stat w.room).read ≠ .payload2) (hid : (s.publish w.room).packetId = v.packetId.getD 0)
    (hstream : s.client.reader.net.stream = packet.drop s.client.reader.rxBufLen ++ rest)
    (hpos : s.client.reader.pos = 0) :
    ∃ s', s.handlePacket (some .publish) w.room = s'.handlePayload w.room v.qos (v.packetId.getD 0) ∧
      AtFront w.room (packet.drop v.buffer.off) rest old s' ∧ Passed w.room s' ∧ s'.client = s.client ∧
      s'.stat = s.stat := by
  have hholds := h.holds hfilled
  obtain ⟨p, hdec⟩ := h.decoded
  obtain ⟨headerLen, remainLen, first, -, hmore⟩ := decodePublish_topic hdec h.plain
  obtain ⟨pool, told, props, hdecode⟩ := hholds.decode_some h.heeded w.room
  have hgot : v.packetId.getD (v.packetId.getD 0) = v.packetId.getD 0 := by cases v.packetId <;> rfl
  have hlen : ¬(v.len : Int) ≤ 0 := by
    have := hholds.len_pos
    omega
  obtain ⟨s', hs'⟩ : ∃ s', {s with pool, told}.modifyPublish w.room (fun q => q.decoded v props) = s' := ⟨_, rfl⟩
  have hpublish : s'.publish w.room = (s.publish w.room).decoded v props := by
    rw [← hs', Receiver.publish_modifyPublish]
  have hqos : (s'.publish w.room).qos = v.qos := by rw [hpublish, Inbound.decoded]
  have hid' : (s'.publish w.room).packetId = v.packetId.getD 0 := by rw [hpublish, Inbound.decoded, hid, hgot]
  have hclient : s'.client = s.client := hs' ▸ rfl
  have hids : s'.recvQos2 = s.recvQos2 := hs' ▸ rfl
  have hdup : s'.isDup w.room = false := by
    rw [Receiver.isDup, hqos, hid', hids, Bool.and_eq_false_imp, decide_eq_true_iff]
    exact h.once
  have hfree : s'.untrackable w.room = false := by
    rw [Receiver.untrackable, hqos, hdup, hids, Bool.and_eq_false_imp, Bool.and_eq_true, decide_eq_true_iff]
    rintro ⟨htwo, -⟩
    rw [h.tracked htwo]
    rfl
  have htaking : Taking s' := hs' ▸ h.taking
  have hlog : s'.log = old := by
    rw [← hs']
    exact h.log
  refine ⟨s', ?_, ?_, ⟨htaking, hdup, hfree, hclient ▸ h.patient, ?_⟩, hclient, hs' ▸ rfl⟩
  · rw [Receiver.handlePacket]
    dsimp only
    rw [if_pos hread, hdecode]
    dsimp only
    rw [if_neg hlen, hid, hgot, hs']
  · rw [← hlog]
    refine atFront_of (s := s') hdec h.whole ?_ ?_ ?_ hpublish <;> rw [hclient]
    · exact hbuf
    · exact hstream
    · exact hpos
  · rw [hclient]
    rw [List.length_take] at hmore
    omega

theorem Arrived.handle (hw : w.Usual) (h : Arrived w packet rest v old s) :
    Turned w (packet.drop v.buffer.off) rest old s (s.handle w (some .publish) v.qos (v.packetId.getD 0)) := by
  have hroom : w.target (some .publish) (v.packetId.getD 0) = w.room := hw.target _
  have huse : ¬((some PacketType.publish).isNone = true ∧
      ((s.stat w.stat).read = .payload ∨ (s.stat w.stat).read = .payload2)) := by
    rintro ⟨hnone, -⟩
    cases hnone
  have hfirst : some PacketType.publish = some .publish ∧ (s.stat w.stat).read = .payload := ⟨rfl, h.read⟩
  have hread : (s.stat w.room).read ≠ .payload2 := by
    by_cases hsame : w.room = w.stat
    · rw [hsame, h.read]
      decide
    · exact h.idle hsame
  have hexpects : Expects w packet v old (s.modifyPublish w.room ({· with qos := v.qos, packetId := v.packetId.getD 0})) :=
    h.toExpects.alike (.setPool rfl s.bufLen _)
  obtain ⟨s', hpacket, hfront, hpassed, hclient, hstat⟩ := hexpects.handlePacket h.filled h.loaded hread
    (by rw [Receiver.publish_modifyPublish]) h.stream h.pos
  replace hclient : s'.client = s.client := hclient
  replace hstat : s'.stat = s.stat := hstat
  rw [Receiver.handle]
  dsimp only
  rw [hroom, if_neg huse, if_pos hfirst, hpacket]
  refine Turned.mono (handled_turned (handlePayload_handles _ _ (.inl hfront) hpassed) hpassed ?_ ?_ (by decide)) ?_
  · rw [hstat, h.ack]
  · rw [hclient, h.phase]
  · rw [hclient]

/-- The reader is in the middle of the packet, or at its beginning. -/
structure Midway (packet rest : Bytes) (s : Receiver) : Prop where
  mid : Mid s.client.reader (packet ++ rest)
  counted : s.client.reader.pos ≤ s.client.reader.total

/-- What the cases `MQTT_MSG_WAIT` and `MQTT_MSG_HEADER` come to. -/
inductive Awaited (w : Wait) (packet rest : Bytes) (v : PublishView) (old : List Delivery) (s : Receiver) :
    Receiver.Switched × Receiver → Prop
  | paused (s' : Receiver) (hexpects : Expects w packet v old s') (hmid : Midway packet rest s')
      (hread : (s'.stat w.stat).read = .header ∨
        (s'.stat w.stat).read = .wait ∧ s'.client.reader.stat = .begin ∧ s'.client.reader.total = 0)
      (hspent : s'.client.reader.net.script.length < s.client.reader.net.script.length)
      (hblock : s'.client.nonblock = true) : Awaited w packet rest v old s ({rc := Code.continue}, s')
  | turned (rc : Int) (s' : Receiver) (h : Turned w (packet.drop v.buffer.off) rest old s (rc, s')) :
      Awaited w packet rest v old s ({rc, found := w.ends (some .publish) (v.packetId.getD 0)}, s')

theorem Awaited.mono {s₁ : Receiver} {result : Receiver.Switched × Receiver} (h : Awaited w packet rest v old s₁ result)
    (hscript : s₁.client.reader.net.script.length ≤ s.client.reader.net.script.length) :
    Awaited w packet rest v old s result := by
  cases h with
  | paused s' hexpects hmid hread hspent hblock =>
    exact .paused s' hexpects hmid hread (Nat.lt_of_lt_of_le hspent hscript) hblock
  | turned rc s' h => exact .turned rc s' (h.mono hscript)

theorem Expects.await (hw : w.Usual) (h : Expects w packet v old s) (hmid : Midway packet rest s)
    (hread : (s.stat w.stat).read = .wait ∨ (s.stat w.stat).read = .header) :
    Awaited w packet rest v old s (s.await w) := by
  have hcall := packetRead_call s.client.nonblock s.client.reader _ hmid.mid
  have hpolls := packetRead_polls s.client.nonblock s.client.reader
  have hframe := h.frame rest
  rw [Receiver.await]
  generalize packetRead s.client.nonblock s.client.reader = got at hcall hpolls ⊢
  cases hcall with
  | failed e r' he hmoved hmid' hbad =>
    rw [Reader.rxBufLen, hbad] at hframe
    cases hframe
  | paused why r' hmoved hmid' hspent hmore =>
    have hstream : r'.net.stream ≠ [] := by
      intro hnil
      have hkept := hmid'.kept
      rw [hnil, List.append_nil] at hkept
      rw [hkept] at hmore
      rw [Reader.rxBufLen, hmore] at hframe
      cases hframe
    obtain ⟨hblock, rfl⟩ := hpolls.again h.patient hstream
    have halike : Alike w s (s.setReader r') := .setReader hmoved.room hpolls.script
    have hcounted := hpolls.counted hmid.counted
    dsimp only
    rw [if_pos (by decide)]
    by_cases hbegun : r'.stat ≠ .begin ∨ r'.total > 0
    · rw [if_pos ⟨hblock, rfl, hbegun⟩]
      refine .paused _ (h.alike (halike.trans (.setRead w .header _))) ⟨hmid', hcounted⟩ (.inl ?_)
        (hspent.resolve_right hstream) hblock
      rw [Receiver.stat_setRead]
    · rw [if_neg fun h => hbegun h.2.2]
      rw [not_or, not_not, Nat.not_lt, Nat.le_zero] at hbegun
      refine .paused _ (h.alike halike) ⟨hmid', hcounted⟩ ?_ (hspent.resolve_right hstream) hblock
      exact hread.symm.imp_right fun hwait => ⟨hwait, hbegun⟩
  | packet len r' rest' hlen hmoved hmid' hframe' hover =>
    rw [← Reader.rxBufLen, hframe] at hframe'
    obtain ⟨hfilled, rfl⟩ := Frame.packet.inj hframe'
    have hkept := hmid'.kept
    rw [Reader.pending, hover.1] at hkept
    dsimp only at hkept
    rw [hover.2, List.take_zero, List.nil_append] at hkept
    dsimp only
    rw [if_neg (by omega), Int.toNat_natCast]
    have halike : Alike w s {(s.setReader r').setRead w.stat .header with bufLen := len} :=
      Alike.trans (.setReader hmoved.room hpolls.script) (Alike.trans (.setRead w .header _) (.setPool rfl len _))
    have hreader : {(s.setReader r').setRead w.stat .header with bufLen := len}.client.reader = r' := rfl
    have hrx : {(s.setReader r').setRead w.stat .header with bufLen := len}.rx = r'.rxBuf.take len := rfl
    generalize {(s.setReader r').setRead w.stat .header with bufLen := len} = s₁ at *
    have hexpects := h.alike halike
    have hroom : s₁.client.reader.rxBufLen = s.client.reader.rxBufLen := halike.room
    rw [← hroom] at hfilled hkept
    obtain ⟨pool, hdecode, hfree⟩ := (hexpects.holds (hrx.trans hfilled.symm)).decode_none
    rw [hdecode]
    dsimp only
    rw [if_neg (by omega), if_neg (by decide)]
    have halike₁ : Alike w s₁ (({s₁ with pool}.modifyPublish .shared fun _ => {}).setRead w.stat .payload) :=
      (Alike.setPool hfree s₁.bufLen _).trans (.setRead w .payload _)
    have hloaded : r'.rxBuf.take (packet.take s₁.client.reader.rxBufLen).length =
        packet.take s₁.client.reader.rxBufLen := by
      rw [hfilled, List.length_take, ← List.take_eq_take_min]
    refine .turned _ _ (Turned.mono (Arrived.handle hw
      ⟨hexpects.alike halike₁, hrx.trans hfilled.symm, ?_, ?_, ?_, ?_, ?_⟩) ?_)
    · rw [← hreader] at hloaded
      exact hloaded
    · rw [Receiver.stat_setRead]
    · rw [← hreader] at hkept
      exact hkept
    · rw [← hreader] at hover
      exact hover.2
    · rw [← hreader] at hover
      exact hover.1
    · exact (halike.trans halike₁).script.length_le

end Arrive

/-! ### Pass after pass -/

/-- A wait for the PUBLISH that is next, before its first pass or in between. -/
structure Listening (w : Wait) (packet rest : Bytes) (v : PublishView) (old : List Delivery) (s : Receiver) : Prop
    extends Expects w packet v old s where
  place : ((s.stat w.stat).read = .begin ∧ s.client.readActive = false ∧ s.client.reader.pos = 0 ∧
      s.client.reader.net.stream = packet ++ rest) ∨
    (s.stat w.stat).read = .header ∧ Midway packet rest s

/-- The wait has the packet coming, or its payload. -/
def Coming (w : Wait) (packet rest : Bytes) (v : PublishView) (old : List Delivery) (s : Receiver) : Prop :=
  Listening w packet rest v old s ∨ Reading w (packet.drop v.buffer.off) rest old s

/-- What a pass comes to: the wait asks to be made again, or the message has been handed on. -/
inductive Passes (w : Wait) (packet rest : Bytes) (v : PublishView) (old : List Delivery) (s : Receiver) :
    Option Int × Receiver → Prop
  | again (s' : Receiver) (h : Coming w packet rest v old s')
      (hspent : s'.client.reader.net.script.length < s.client.reader.net.script.length) :
      Passes w packet rest v old s (some Code.continue, s')
  | ends (code : Option Int) (s' : Receiver) (h : Behind (packet.drop v.buffer.off) rest old s') (hstarts : Starts w s') :
      Passes w packet rest v old s (code, s')

section Run
variable {w : Wait} {packet rest : Bytes} {v : PublishView} {old : List Delivery} {s s' : Receiver}

theorem Turned.settles {rc : Int} {found : Bool} (h : Turned w (packet.drop v.buffer.off) rest old s (rc, s'))
    (hfound : found = true → w.room = w.stat) : Passes w packet rest v old s (s'.settle w {rc, found}) := by
  cases h with
  | ends s' hbehind hack hstarts =>
    obtain ⟨hbehind', hstarts'⟩ := settle_behind hbehind (fun hf => hstarts (hfound hf)) hack
    exact .ends _ _ hbehind' hstarts'
  | reads s' hreading hspent hblock =>
    rw [settle_paused hreading.ack hblock (by rw [hreading.read]; decide) (by rw [hreading.read]; decide)]
    exact .again s' (.inr hreading) hspent

theorem Awaited.settles (hw : w.Usual) {r : Receiver.Switched} (h : Awaited w packet rest v old s (r, s')) :
    Passes w packet rest v old s (s'.settle w r) := by
  cases h with
  | turned rc s' h => exact h.settles (hw.room_of_ends (.inr rfl))
  | paused s' hexpects hmid hread hspent hblock =>
    rcases hread with hheader | ⟨hwait, hbegin, htotal⟩
    · rw [settle_paused hexpects.ack hblock (by rw [hheader]; decide) (by rw [hheader]; decide)]
      exact .again s' (.inl ⟨hexpects, .inr ⟨hheader, hmid⟩⟩) hspent
    · have hpos : s'.client.reader.pos = 0 := Nat.le_zero.mp (htotal ▸ hmid.counted)
      have hkept := hmid.mid.kept
      rw [Reader.pending, hbegin] at hkept
      dsimp only at hkept
      rw [hpos, List.take_zero, List.nil_append] at hkept
      rw [settle_idle hexpects.ack hwait]
      refine .again _ (.inl ⟨hexpects.alike ((Alike.setRead w .begin s').trans (.readStop w _)),
        .inl ⟨?_, rfl, rfl, hkept⟩⟩) hspent
      rw [Receiver.stat_readStop, Receiver.stat_setRead]

theorem Coming.pass (hw : w.Usual) (h : Coming w packet rest v old s) : Passes w packet rest v old s (s.pass w) := by
  rw [Receiver.pass]
  rcases h with ⟨hexpects, ⟨hread, hactive, hpos, hstream⟩ | ⟨hread, hmid⟩⟩ | hreading
  · have hstart : Alike w s ((s.readStart w.stat).2.setRead w.stat .wait) :=
      (Alike.readStart w s).trans (.setRead w .wait _)
    have hmid : Midway packet rest ((s.readStart w.stat).2.setRead w.stat .wait) := by
      rw [Receiver.readStart, MqttClient.readStart, hactive]
      refine ⟨.of_begin rfl ?_ ?_, ?_⟩
      · show s.client.reader.pos < headerMinSize
        rw [hpos]
        decide
      · show s.client.reader.rxBuf.take s.client.reader.pos ++ s.client.reader.net.stream = _
        rw [hpos, List.take_zero, List.nil_append, hstream]
      · show s.client.reader.pos ≤ s.client.reader.total
        rw [hpos]
        exact Nat.zero_le _
    have hrc : (s.readStart w.stat).1 = Code.success := by
      rw [Receiver.readStart, MqttClient.readStart, hactive]
      rfl
    have hawait := (hexpects.alike hstart).await hw hmid (.inl (by rw [Receiver.stat_setRead]))
    rw [hread]
    dsimp only
    rw [if_neg (by rw [hrc]; decide)]
    generalize ((s.readStart w.stat).2.setRead w.stat .wait).await w = got at hawait ⊢
    exact (hawait.mono hstart.script.length_le).settles hw
  · have hawait := hexpects.await hw hmid (.inr hread)
    rw [hread]
    dsimp only
    generalize s.await w = got at hawait ⊢
    exact hawait.settles hw
  · have hturned := hreading.handle
    rw [hreading.read]
    dsimp only
    generalize s.handle w none 0 0 = got at hturned ⊢
    exact hturned.settles (hw.room_of_ends (.inl rfl))

/-- A wait that is made again `n` times because it asks for it. -/
inductive Again (w : Wait) : Nat → Receiver → Receiver → Prop
  | refl (s : Receiver) : Again w 0 s s
  | pass {n : Nat} {s s' s'' : Receiver} (h : s.pass w = (some Code.continue, s')) (h' : Again w n s' s'') :
      Again w (n + 1) s s''

/-- The passes end: each that asks to be made again has used up a step of the transport's script. -/
theorem Coming.run (hw : w.Usual) (h : Coming w packet rest v old s) :
    ∃ n s₁, n ≤ s.client.reader.net.script.length ∧ Again w n s s₁ ∧
      Behind (packet.drop v.buffer.off) rest old (s₁.pass w).2 ∧ Starts w (s₁.pass w).2 := by
  induction hfuel : s.client.reader.net.script.length using Nat.strong_induction_on generalizing s with
  | _ fuel ih =>
    have hpass := h.pass hw
    generalize hgot : s.pass w = got at hpass
    cases hpass with
    | ends code s' hbehind hstarts =>
      refine ⟨0, s, Nat.zero_le _, .refl s, ?_⟩
      rw [hgot]
      exact ⟨hbehind, hstarts⟩
    | again s' hcoming hspent =>
      obtain ⟨n, s₁, hn, hagain, hend⟩ := ih _ (hfuel ▸ hspent) hcoming rfl
      exact ⟨n + 1, s₁, by omega, .pass hgot hagain, hend⟩

end Run

/-! ### Every message -/

/-- A PUBLISH that nothing holds back: the decoder takes it, `rx_buf` has room for what is in front of its payload, and
it is not a QoS 2 message that is known already or cannot be kept track of. -/
structure Deliverable (packet : Bytes) (v : PublishView) (s : Receiver) : Prop where
  decoded : ∃ p, decodePublish s.client.protocolLevel packet {pool := s.pool} = (.ok v, p)
  whole : v.len = packet.length
  plain : s.client.protocolLevel ≥ level5 → v.props.any (·.type = .topicAlias) = false
  fits : v.buffer.off ≤ s.client.reader.rxBufLen
  once : v.qos = 2 → RecvQos2.contains s.recvQos2 (v.packetId.getD 0) = false
  tracked : v.qos = 2 → RecvQos2.hasFreeSlot s.recvQos2 = true

/-- A wait that begins with the next packet. -/
structure AtRest (w : Wait) (s : Receiver) : Prop where
  read : (s.stat w.stat).read = .begin
  ack : (s.stat w.stat).ack = .begin
  idle : w.room ≠ w.stat → (s.stat w.room).read ≠ .payload2
  unlocked : s.client.readActive = false
  pos : s.client.reader.pos = 0

/-- **A message is handed on as it was sent**, however the transport cuts it: the wait asks to be made again a number of
times, and with the pass after those the callback has had all of the payload, piece by piece, and the reader is at
what comes behind it. -/
theorem publish_faithful {w : Wait} (hw : w.Usual) {packet rest : Bytes} {v : PublishView} {s : Receiver}
    (hpublish : Deliverable packet v s) (hrest : AtRest w s) (hheeded : Heeded s) (htaking : Taking s)
    (hpatient : Patient s.client.nonblock s.client.reader.net) (hstream : s.client.reader.net.stream = packet ++ rest) :
    ∃ n s₁, n ≤ s.client.reader.net.script.length ∧ Again w n s s₁ ∧
      (∃ ds, (s₁.pass w).2.log = s.log ++ ds ∧ Faithful (packet.drop v.buffer.off) ds) ∧
      (s₁.pass w).2.client.reader.net.stream = rest ∧ (s₁.pass w).2.client.reader.pos = 0 ∧
      (s₁.pass w).2.client.readActive = false ∧ Starts w (s₁.pass w).2 := by
  obtain ⟨p, hdec⟩ := hpublish.decoded
  obtain ⟨headerLen, remainLen, first, hheader, hlen, -⟩ := decodePublish_payload hdec
  obtain ⟨k, hvbi, rfl⟩ := scanHeader_ok hheader
  have hremain := scanVbi_lt hvbi
  have htook := scanVbiLoop_took hvbi
  have hword : packet.length < 2147483648 := by
    rw [← hpublish.whole, hlen]
    simp only [maxLenBytes] at htook
    omega
  obtain ⟨len, p', hcut⟩ := decodePublish_cut hdec hpublish.fits hword
  have hexpects : Expects w packet {v with buffer := ⟨v.buffer.off, len⟩} s.log s :=
    ⟨⟨p', hcut⟩, hpublish.plain, hpublish.whole, hheeded, htaking, hpublish.once, hpublish.tracked, hpatient,
      hrest.ack, hrest.idle, rfl⟩
  have hcoming : Coming w packet rest {v with buffer := ⟨v.buffer.off, len⟩} s.log s :=
    .inl ⟨hexpects, .inl ⟨hrest.read, hrest.unlocked, hrest.pos, hstream⟩⟩
  obtain ⟨n, s₁, hn, hagain, hbehind, hstarts⟩ := hcoming.run hw
  obtain ⟨ds, hlog, hds⟩ := hbehind.log
  exact ⟨n, s₁, hn, hagain, ⟨ds, hlog, hds.faithful⟩, hbehind.stream, hbehind.pos, hbehind.unlocked, hstarts⟩

/-- A client with a PUBLISH on the stream, and a wait for anything. -/
def listener (rxBufLen : Nat) (propertyCb : Option (Nat → Int)) (free : Nat) (script : List NetCall) (stream : Bytes) :
    Receiver :=
  { client :=
      { nonblock := true
        txBufLen := 16
        netWrite := fun _ => 16
        reader := .fresh (List.replicate rxBufLen 0) stream script
        protocolLevel := level5
        sendInflight := []
        replay := [] }
    pool := List.replicate free {item := {}}
    recvQos2 := []
    msgCb := some fun _ => {rc := Code.success}
    propertyCb }

def waitAny : Wait := {obj := .shared, stat := .shared}

/-- Six bytes of payload, of which `rx_buf` has room for two behind the header. -/
theorem publish_faithful_sample :
    ∃ n s₁, n ≤ 3 ∧
      Again waitAny n (listener 8 none 0 [.give 0, .pause .continue, .give 8]
        [0x30, 10, 0, 1, 0x61, 0, 1, 2, 3, 4, 5, 6, 0xD0, 0]) s₁ ∧
      (∃ ds, (s₁.pass waitAny).2.log = ds ∧ Faithful [1, 2, 3, 4, 5, 6] ds) ∧
      (s₁.pass waitAny).2.client.reader.net.stream = [0xD0, 0] ∧ (s₁.pass waitAny).2.client.reader.pos = 0 ∧
      (s₁.pass waitAny).2.client.readActive = false ∧ Starts waitAny (s₁.pass waitAny).2 := by
  have husual : waitAny.Usual := ⟨fun _ => ⟨rfl, rfl⟩, by decide⟩
  have hdec : decodePublish level5 [0x30, 10, 0, 1, 0x61, 0, 1, 2, 3, 4, 5, 6] {pool := []} =
      (.ok { len := 12, qos := 0, retain := 0, duplicate := 0, topicName := ⟨4, 1⟩, packetId := none, props := []
             buffer := ⟨6, 6⟩, totalLen := 6 }, {pool := [], props := some none}) := by
    decide +kernel
  have hpatient : Patient true {stream := [], script := [.give 0, .pause .continue, .give 8]} := by
    intro why hmem
    simpa using hmem
  exact publish_faithful (s := listener 8 none 0 [.give 0, .pause .continue, .give 8]
      [0x30, 10, 0, 1, 0x61, 0, 1, 2, 3, 4, 5, 6, 0xD0, 0]) husual
    ⟨⟨_, hdec⟩, rfl, fun _ => rfl, by decide, fun h => absurd h (by decide), fun h => absurd h (by decide)⟩
    ⟨rfl, rfl, fun h => absurd rfl h, rfl, rfl⟩ (fun _ hcb => by cases hcb) ⟨_, rfl, fun _ => rfl⟩ hpatient rfl

/-- A Topic Alias is refused; so are properties that the pool has no room for, or that the property callback does not
take. -/
theorem not_publish_faithful :
    ((listener 16 none 1 [] [0x30, 8, 0, 1, 0x61, 3, 0x23, 0, 1, 1]).pass waitAny).1 = some Code.malformedData ∧
      ((listener 16 none 1 [] [0x30, 8, 0, 1, 0x61, 3, 0x23, 0, 1, 1]).pass waitAny).2.log = [] ∧
      ((listener 16 none 0 [] [0x30, 7, 0, 1, 0x61, 2, 1, 0, 1]).pass waitAny).1 = some Code.memory ∧
      ((listener 16 none 0 [] [0x30, 7, 0, 1, 0x61, 2, 1, 0, 1]).pass waitAny).2.log = [] ∧
      ((listener 16 (some fun _ => -1) 1 [] [0x30, 7, 0, 1, 0x61, 2, 1, 0, 1]).pass waitAny).1 = some (-1) ∧
      ((listener 16 (some fun _ => -1) 1 [] [0x30, 7, 0, 1, 0x61, 2, 1, 0, 1]).pass waitAny).2.log = [] := by
  decide +kernel

end WolfMqtt.Receive
