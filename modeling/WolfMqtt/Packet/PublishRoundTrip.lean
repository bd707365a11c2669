import WolfMqtt.Packet.RespRoundTrip

/-! A PUBLISH is read as it was written.

Topic, packet identifier, properties and payload share one Remaining Length. `Publish.Accepted` is what the
encoder takes, and `Publish.body` what it writes into a buffer that holds all of it. -/
namespace WolfMqtt

open Agree (Only only_error only_ite only_ok)
open Layout (At at_append)

namespace Publish

/-- The values the members' C types can hold, and a payload that is all there. -/
structure Typed (p : Publish) : Prop where
  packetId : p.packetId < 65536
  props : ∀ q ∈ p.props, q.Typed
  totalLen : p.totalLen = (p.buffer.getD []).length
  bufferLen : p.bufferLen = (p.buffer.getD []).length

structure Accepted (p : Publish) : Prop where
  topic : StringOk p.topicName
  plain : topicNameValid p.topicName p.protocolLevel = true
  aliased : p.protocolLevel ≥ level5 → p.topicName = [] → p.props.any (·.type = .topicAlias) = true
  packetId : p.qos ≠ .qos0 → p.packetId ≠ 0
  duplicate : p.qos = .qos0 → p.duplicate = false
  props : p.protocolLevel ≥ level5 → ValidProps .publish p.props

def idWire (p : Publish) : Bytes := if p.qos = .qos0 then [] else encodeNum p.packetId

def propsPart (p : Publish) : Bytes := if p.protocolLevel ≥ level5 then propSection p.props else []

/-- The bytes between the fixed header and the payload. -/
def front (p : Publish) : Bytes := encodeData p.topicName ++ (p.idWire ++ p.propsPart)

def body (p : Publish) : Bytes := p.front ++ p.buffer.getD []

def wire (p : Publish) : Bytes := packetWire (firstByte .publish p.retain p.qos p.duplicate) p.body

end Publish

theorem findProp_isNone (props : List MqttProp) (type : PropType) :
    (findProp props type).isNone = !props.any (·.type = type) := by
  rw [findProp, Bool.eq_iff_iff]
  simp

theorem publishVariable_ok {p : Publish} (hp : p.Typed) {vh : Bytes} (h : publishVariable p = .ok vh) :
    p.Accepted ∧ vh = p.front := by
  unfold publishVariable at h
  unfold Publish.front Publish.idWire Publish.propsPart
  split at h
  · cases h
  next hlen =>
  split at h
  · cases h
  next hplain =>
  split at h
  · cases h
  next hutf =>
  split at h
  · cases h
  next halias =>
  split at h
  · cases h
  next hid =>
  split at h
  · cases h
  next hdup =>
  have haccepted (hprops : p.protocolLevel ≥ level5 → ValidProps .publish p.props) : p.Accepted := by
    refine ⟨⟨by omega, by simpa using hutf⟩, by simpa using hplain, fun hlevel hempty => ?_, ?_, ?_, hprops⟩
    · rw [findProp_isNone] at halias
      simpa [hlevel, hempty] using halias
    · simpa using hid
    · simpa using hdup
  dsimp only at h
  by_cases hlevel : p.protocolLevel ≥ level5
  · rw [if_pos hlevel] at h ⊢
    split at h
    · cases h
    next block hblock =>
    cases h
    obtain ⟨hvalid, rfl⟩ := (encodePropBlock_ok_iff hp.props block).mp hblock
    exact ⟨haccepted fun _ => hvalid, by rw [List.append_assoc]⟩
  · rw [if_neg hlevel] at h ⊢
    cases h
    exact ⟨haccepted fun hlevel' => absurd hlevel' hlevel, by rw [List.append_nil]⟩

theorem publishVariable_negative (p : Publish) : Only (· < 0) (publishVariable p) := by
  unfold publishVariable
  refine only_ite (only_error (by decide)) (only_ite (only_error (by decide)) (only_ite (only_error (by decide))
    (only_ite (only_error (by decide)) (only_ite (only_error (by decide)) (only_ite (only_error (by decide)) ?_)))))
  dsimp only
  refine only_ite ?_ (only_ok _)
  intro e he
  split at he
  next e' he' =>
    cases he
    exact encodePropBlock_negative .publish p.props _ he'
  · cases he

theorem Publish.Typed.payload_length {p : Publish} (hp : p.Typed) (hlt : (p.buffer.getD []).length < 2147483648) :
    (if p.buffer.isSome && p.totalLen > 0 then toInt32 p.totalLen else 0 : Int) = ((p.buffer.getD []).length : Nat) := by
  rw [hp.totalLen, toInt32_of_lt hlt]
  cases p.buffer with
  | none => rfl
  | some b => cases b <;> simp

theorem Publish.Typed.copied {p : Publish} (hp : p.Typed) {room : Int} (hroom : ((p.buffer.getD []).length : Int) ≤ room) :
    (if p.bufferLen > 0 && (p.bufferLen : Int) < min ((p.buffer.getD []).length : Int) room then (p.bufferLen : Int)
      else min ((p.buffer.getD []).length : Int) room) = ((p.buffer.getD []).length : Nat) := by
  rw [min_eq_left hroom, hp.bufferLen, if_neg (by simp)]

/-- A PUBLISH that fits its buffer is written whole. -/
theorem encodePublish_done {txLen : Nat} {p : Publish} (htx : txLen < 2147483648) (hp : p.Typed)
    (hfits : p.wire.length ≤ txLen) (h : 0 ≤ (encodePublish txLen p).rc) :
    p.Accepted ∧ p.body.length ≤ maxRemainLen ∧ encodePublish txLen p = .done p.wire := by
  rw [Publish.wire, packetWire_length, headerLength] at hfits
  have hbody : p.body.length = p.front.length + (p.buffer.getD []).length := List.length_append
  have hsum : ((p.front.length : Int) + ((p.buffer.getD []).length : Nat)) = (p.body.length : Nat) := by omega
  unfold encodePublish at h ⊢
  split at h
  next e he =>
    have hneg : e < 0 := publishVariable_negative p e he
    exact absurd h (by show ¬0 ≤ e; omega)
  next vh hvh =>
  obtain ⟨haccepted, rfl⟩ := publishVariable_ok hp hvh
  dsimp only at h ⊢
  rw [hp.payload_length (by omega), hsum] at h ⊢
  split at h
  · exact absurd h (by decide)
  next hempty =>
  rw [if_neg hempty]
  split at h
  next hneg => exact absurd h (by omega)
  next hheader =>
  obtain ⟨hmax, hdone⟩ := encodeFixedHeader_done (by omega) (not_lt.mp hheader)
  have hout : (encodeFixedHeader txLen p.body.length .publish p.retain p.qos p.duplicate).out =
      firstByte .publish p.retain p.qos p.duplicate :: vbiBytes maxLenBytes p.body.length := by rw [hdone]; rfl
  rw [if_neg hheader, hout, List.length_cons, hp.copied (by omega), if_neg (by omega)]
  refine ⟨haccepted, hmax, ?_⟩
  have hlen : ((vbiBytes maxLenBytes p.body.length).length + 1 + p.front.length : Nat) + ((p.buffer.getD []).length : Int) =
      p.wire.length := by
    rw [Publish.wire, packetWire_length, headerLength]
    omega
  rw [Int.toNat_natCast, List.take_length, hlen, List.append_assoc]
  rfl

/-! ### Reading it -/

/-- What a decoder makes of a PUBLISH: all of it, but for the properties that it has at level 5 only. -/
structure PublishView.Shows (rx : Bytes) (v : PublishView) (p : Publish) : Prop where
  len : v.len = rx.length
  qos : v.qos = p.qos.toNat
  retain : v.retain = if p.retain then 1 else 0
  duplicate : v.duplicate = if p.duplicate then 1 else 0
  topicName : v.topicName.get rx = p.topicName
  packetId : v.packetId = if p.qos = .qos0 then none else some p.packetId
  props : v.props.map (PropView.read rx) = if p.protocolLevel ≥ level5 then p.props.map MqttProp.own else []
  buffer : v.buffer.get rx = p.buffer.getD []
  totalLen : v.totalLen = (p.buffer.getD []).length

theorem publish_firstByte (retain : Bool) (qos : QoS) (duplicate : Bool) (hdup : qos = .qos0 → duplicate = false) :
    (firstByte .publish retain qos duplicate).toNat / 16 = PacketType.publish.toNat ∧
      fixedHeaderFlagsValid (firstByte .publish retain qos duplicate) = true ∧
      (firstByte .publish retain qos duplicate).toNat / 2 % 4 = qos.toNat ∧
      ((firstByte .publish retain qos duplicate).toNat % 2 = 1 ↔ retain = true) ∧
      ((firstByte .publish retain qos duplicate).toNat / 8 % 2 = 1 ↔ duplicate = true) := by
  cases retain <;> cases qos <;> cases duplicate <;> first | decide | (cases hdup rfl)

theorem qos_pos_iff (qos : QoS) : qos.toNat > 0 ↔ qos ≠ .qos0 := by cases qos <;> decide

section Read
variable {rx : Bytes} {pos : Nat} {s : PropState}

theorem scanPublishId_wire {p : Publish} (hrx : rx.length < 2147483648) (hpos : pos ≤ rx.length) (hp : p.packetId < 65536)
    (hid : p.qos ≠ .qos0 → p.packetId ≠ 0) (hat : At rx pos p.idWire) : scanPublishId rx p.qos.toNat pos =
      .ok (if p.qos = .qos0 then none else some p.packetId, pos + p.idWire.length) := by
  unfold Publish.idWire at hat ⊢
  unfold scanPublishId
  by_cases hqos : p.qos = .qos0
  · rw [if_neg ((qos_pos_iff _).not.mpr (not_not.mpr hqos)), if_pos hqos, if_pos hqos]
    rfl
  · rw [if_neg hqos] at hat
    have hle := hat.le hpos
    rw [encodeNum_length] at hle
    rw [if_pos ((qos_pos_iff _).mpr hqos), if_neg hqos, if_neg hqos, if_neg (by omega),
      (scanNum_ok_iff hrx hpos _).mpr ⟨hp, hat⟩, Agree.ok_bind, if_neg (hid hqos), if_pos hle]
    rfl

theorem any_type_of_read {views : List PropView} {props : List MqttProp}
    (h : views.map (PropView.read rx) = props.map MqttProp.own) (type : PropType) :
    views.any (·.type = type) = props.any (·.type = type) := by
  calc views.any (·.type = type)
      = (views.map (PropView.read rx)).any (·.type = type) := by
        rw [List.any_map]
        rfl
    _ = (props.map MqttProp.own).any (·.type = type) := by rw [h]
    _ = props.any (·.type = type) := by simp [List.any_map, Function.comp_def]

theorem publishPropsM_wire {p : Publish} (hrx : rx.length < 2147483648) (hpos : pos ≤ rx.length) (hp : p.Typed)
    (haccepted : p.Accepted) (hnull : s.head .own = none) (hroom : p.props.length ≤ s.room)
    (hat : At rx pos p.propsPart) :
    ∃ s', publishPropsM p.protocolLevel rx p.topicName.length pos s =
        (.ok (pos + p.propsPart.length, pos + p.propsPart.length), s') ∧
      (s'.views .own).map (PropView.read rx) = if p.protocolLevel ≥ level5 then p.props.map MqttProp.own else [] := by
  unfold Publish.propsPart at hat ⊢
  unfold publishPropsM
  by_cases hlevel : p.protocolLevel ≥ level5
  · rw [if_pos hlevel] at hat
    have hvalid := haccepted.props hlevel
    have hle := hat.le hpos
    have hrefuse : (if pos + ((vbiBytes maxLenBytes (propsWire p.props).length).length + (propsWire p.props).length) ≤
        rx.length then none else some Code.outOfBuffer) = none := by
      rw [propSection, List.length_append] at hle
      exact if_pos hle
    obtain ⟨s', hrun, hread⟩ := @propSectionM_reads rx pos .own .publish p.props s
      (fun len n => if pos + (n + len) ≤ rx.length then none else some Code.outOfBuffer) hrx hpos hnull hp.props
      hvalid (authPaired_of_valid hvalid (by decide)) hroom hat hrefuse
    have hfilled : ¬(decide (p.topicName.length = 0) && !(s'.views .own).any (·.type = .topicAlias)) = true := by
      rw [any_type_of_read hread]
      intro h
      simp only [Bool.and_eq_true, decide_eq_true_eq, List.length_eq_zero_iff, Bool.not_eq_true'] at h
      rw [haccepted.aliased hlevel h.1] at h
      cases h.2
    rw [if_pos hlevel, if_pos hlevel, if_pos hlevel, if_neg (not_lt.mpr hpos), Attempt.run_bind_ok hrun]
    dsimp only
    rw [run_viewProps_bind, if_neg hfilled]
    exact ⟨s', rfl, hread⟩
  · rw [if_neg hlevel, if_neg hlevel, if_neg hlevel]
    refine ⟨s, rfl, ?_⟩
    rw [views_nil hnull]
    rfl

/-- A PUBLISH that stands in the buffer is read. -/
theorem decodePublish_wire {p : Publish} (hp : p.Typed) (haccepted : p.Accepted) (hbody : p.body.length ≤ maxRemainLen)
    (hrx : p.wire.length < 2147483648) (hroom : p.props.length ≤ s.room) :
    ∃ v s', decodePublish p.protocolLevel p.wire s = (.ok v, s') ∧ v.Shows p.wire p := by
  obtain ⟨htype, hflags, hqos, hretain, hdup⟩ := publish_firstByte p.retain p.qos p.duplicate haccepted.duplicate
  have hlen : p.wire.length = headerLength p.body + p.body.length := packetWire_length _ p.body
  have hsize : p.body.length = 2 + p.topicName.length + p.idWire.length + p.propsPart.length + (p.buffer.getD []).length := by
    rw [Publish.body, Publish.front, List.length_append, List.length_append, List.length_append, encodeData_length]
    omega
  have hat : At p.wire (headerLength p.body) p.body := at_body _ p.body
  rw [Publish.body, Publish.front, at_append, at_append, at_append, ← Publish.front, ← Publish.body, encodeData_length,
    ← Nat.add_assoc] at hat
  obtain ⟨⟨htopic, hid, hprops⟩, hpayload⟩ := hat
  have hnull : (s.setHead .own none).head .own = none := PropState.head_setHead_self .own none s
  have hstring := (scanString_ok_iff hrx (by omega) ⟨headerLength p.body + 2, p.topicName.length⟩).mpr
    ⟨p.topicName, haccepted.topic, htopic, rfl⟩
  have hshown := shows_of_at htopic
  have hnum := scanPublishId_wire hrx (by omega) hp.packetId haccepted.packetId hid
  obtain ⟨s', hrun, hread⟩ := publishPropsM_wire hrx (by omega) hp haccepted hnull
    (by rwa [PropState.room, PropState.pool_setHead]) hprops
  have hheader : scanHeader p.wire .publish = .ok (headerLength p.body, p.body.length, _) :=
    scanHeader_packetWire hbody htype hflags
  unfold decodePublish
  rw [if_neg (by omega), Attempt.run_lift_bind hheader]
  dsimp only
  rw [hqos, Attempt.run_lift_bind hstring]
  dsimp only
  rw [if_neg (by omega), hshown.get, haccepted.plain, if_neg (by decide), ← Nat.add_assoc, Attempt.run_lift_bind hnum]
  dsimp only
  rw [run_nullProps_bind, Attempt.run_bind_ok hrun]
  dsimp only
  rw [if_neg (by omega), run_viewProps_bind]
  have hfront : headerLength p.body + p.front.length =
      headerLength p.body + 2 + p.topicName.length + p.idWire.length + p.propsPart.length := by
    rw [Publish.front, List.length_append, List.length_append, encodeData_length]
    omega
  have hrest : headerLength p.body + p.body.length -
      (headerLength p.body + 2 + p.topicName.length + p.idWire.length + p.propsPart.length) = (p.buffer.getD []).length := by
    omega
  have hclamp : ¬(p.buffer.getD []).length > p.wire.length -
      (headerLength p.body + 2 + p.topicName.length + p.idWire.length + p.propsPart.length) := by omega
  rw [hfront] at hpayload
  rw [hrest, if_neg hclamp]
  refine ⟨_, s', rfl, ?_, rfl, ?_, ?_, hshown.get, rfl, hread, hpayload.take_drop, rfl⟩
  · dsimp only
    omega
  · exact if_congr hretain rfl rfl
  · exact if_congr hdup rfl rfl

end Read

/-- A PUBLISH that has been written whole is read as what was written. Below level 5 there are no properties in it. -/
theorem publish_roundTrip (txLen : Nat) (htx : txLen < 2147483648) (p : Publish) (hp : p.Typed)
    (hfits : p.wire.length ≤ txLen) (h : 0 ≤ (encodePublish txLen p).rc) (s : PropState) (hroom : p.props.length ≤ s.room) :
    ∃ v s', decodePublish p.protocolLevel (encodePublish txLen p).out s = (.ok v, s') ∧
      (v.len : Int) = (encodePublish txLen p).rc ∧ v.Shows (encodePublish txLen p).out p := by
  obtain ⟨haccepted, hbody, hdone⟩ := encodePublish_done htx hp hfits h
  obtain ⟨v, s', hrun, hshows⟩ := decodePublish_wire hp haccepted hbody (by omega) hroom
  rw [hdone]
  exact ⟨v, s', hrun, by rw [hshows.len]; rfl, hshows⟩

/-- A PUBLISH with QoS 1, an expiry interval and two bytes of payload, at level 5 or below it. -/
def samplePublish (level : Nat) : Publish :=
  { topicName := [0x61]
    qos := .qos1
    packetId := 7
    retain := true
    duplicate := false
    buffer := some [1, 2]
    totalLen := 2
    bufferLen := 2
    protocolLevel := level
    props := [{type := .msgExpiryInterval, dataInt := 60}] }

theorem publish_roundTrip_sample :
    ∃ v s', decodePublish 5 (encodePublish 32 (samplePublish 5)).out {pool := [{item := {}}]} = (.ok v, s') ∧
      (v.len : Int) = (encodePublish 32 (samplePublish 5)).rc ∧ v.Shows (encodePublish 32 (samplePublish 5)).out (samplePublish 5) :=
  publish_roundTrip 32 (by decide) (samplePublish 5)
    ⟨by decide, by rintro q hq; cases List.mem_singleton.mp hq; constructor <;> decide, rfl, rfl⟩ (by decide +kernel)
    (by decide +kernel) {pool := [{item := {}}]} (by decide +kernel)

/-- At level 4 a property list is not written, and none is read. -/
theorem not_publish_roundTrip :
    (encodePublish 32 (samplePublish 4)).rc = 9 ∧ (samplePublish 4).props ≠ [] ∧
    decodePublish 4 (encodePublish 32 (samplePublish 4)).out {pool := [{item := {}}]} =
      (.ok { len := 9, qos := 1, retain := 1, duplicate := 0, topicName := ⟨4, 1⟩, packetId := some 7, props := []
             buffer := ⟨7, 2⟩, totalLen := 2 },
        {pool := [{item := {}}], props := some none}) := by
  decide +kernel

end WolfMqtt
