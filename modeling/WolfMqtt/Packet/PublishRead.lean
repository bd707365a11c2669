import WolfMqtt.Packet.Cut
import WolfMqtt.Packet.PublishRoundTrip

/-! What a decoded PUBLISH holds, and what it takes to write it again.

Whatever `MqttDecode_Publish` lets through can be written: its topic is a topic, its properties are a list that a
PUBLISH may carry (`decodePublish_read`). Written again it is whole if the buffer holds it
(`encodePublish_whole`); if not, its payload is cut to what the buffer holds, or nothing is written
(`encodePublish_cut`). -/
namespace WolfMqtt

open Agree (Agrees Only bind_eq_ok)
open Layout (At at_append)

/-! ### Reading -/

/-- A list of properties as the decoder of a packet leaves it. -/
structure PropsRead (packet : PacketType) (props : List MqttProp) : Prop where
  typed : ∀ p ∈ props, p.Typed
  own : ∀ p ∈ props, p.own = p
  valid : ValidProps packet props

theorem PropsRead.nil (packet : PacketType) : PropsRead packet [] where
  typed := by simp
  own := by simp
  valid := ⟨by decide, by simp, by simp, by simp⟩

theorem PropsRead.map_own {packet : PacketType} {props : List MqttProp} (h : PropsRead packet props) :
    props.map MqttProp.own = props :=
  (List.map_congr_left h.own).trans (List.map_id props)

section Read
variable {level : Nat} {rx : Bytes} {s s' : PropState} {v : PublishView}

theorem scanSection_read {packet : PacketType} {room pos declared stop : Nat} {refuse : Nat → Nat → Option Int}
    {views : List PropView} (hrx : rx.length < 2147483648) (hpos : pos ≤ rx.length)
    (h : scanSection packet room rx rx.length pos refuse = .ok (views, declared, stop)) :
    PropsRead packet (views.map (PropView.read rx)) := by
  unfold scanSection at h
  rw [wordDiff_length hrx hpos] at h
  obtain ⟨⟨len, n⟩, hvbi, h⟩ := bind_eq_ok.mp h
  have hlen := scanVbi_lt hvbi
  have hn := scanVbi_le hvbi
  dsimp only at h
  split at h
  · cases h
  split at h
  · obtain ⟨⟨views', total⟩, hscan, h⟩ := bind_eq_ok.mp h
    cases h
    rw [wordDiff_length hrx (by omega)] at hscan
    have hagree : Agrees Coded _ (scanProps packet room rx (pos + n) (rx.length - (pos + n)) len) _ :=
      scanProps_decodeProps (by omega) (by omega) (by omega) room
    obtain ⟨props, hdec, hshown⟩ := Agree.right_of_ok hagree hscan
    obtain ⟨hall, -, -, bytes, rest, henc, -, -⟩ := decodeProps_canonical hdec (Nat.le_of_lt_succ hlen)
    have htyped : ∀ p ∈ props, p.Typed := fun p hp => (hall p hp).2
    rw [hshown.read]
    exact ⟨htyped, fun p hp => (hall p hp).1, ((encodeProps_ok_iff htyped bytes).mp henc).1⟩
  · cases h
    exact .nil packet

theorem publishPropsM_read {topicLen pos varEnd stop : Nat} (hrx : rx.length < 2147483648) (hnull : s.head .own = none)
    (h : publishPropsM level rx topicLen pos s = (.ok (varEnd, stop), s')) :
    PropsRead .publish ((s'.views .own).map (PropView.read rx)) ∧ (level < level5 → s'.views .own = []) := by
  unfold publishPropsM at h
  split at h
  next hlevel =>
    split at h
    · cases h
    next hinside =>
    have hspec := @propSectionM_spec .own .publish rx rx.length pos
      (fun len n => if pos + (n + len) ≤ rx.length then none else some Code.outOfBuffer) s hnull
    cases hgot : scanSection .publish s.room rx rx.length pos
        (fun len n => if pos + (n + len) ≤ rx.length then none else some Code.outOfBuffer) with
    | error e =>
      rw [hgot] at hspec
      obtain ⟨-, -, s₁, hrun, -⟩ := hspec
      rw [Attempt.run_bind_error hrun] at h
      cases h
    | ok r =>
      rw [hgot] at hspec
      obtain ⟨-, s₁, hrun, -, hviews, -⟩ := hspec
      rw [Attempt.run_bind_ok hrun] at h
      dsimp only at h
      rw [run_viewProps_bind] at h
      split at h
      · cases h
      obtain ⟨-, rfl⟩ := Prod.mk.inj h
      rw [hviews]
      exact ⟨scanSection_read hrx (Nat.not_lt.mp hinside) hgot, fun hlow => absurd hlevel (Nat.not_le.mpr hlow)⟩
  next hlevel =>
    obtain ⟨-, rfl⟩ := Prod.mk.inj h
    rw [views_nil hnull]
    exact ⟨.nil _, fun _ => rfl⟩

/-- What `MqttDecode_Publish` lets through. -/
structure PublishView.Read (level : Nat) (rx : Bytes) (v : PublishView) : Prop where
  topic : StringOk (v.topicName.get rx)
  plain : topicNameValid (v.topicName.get rx) level = true
  aliased : level ≥ level5 → v.topicName.get rx = [] → v.props.any (·.type = .topicAlias) = true
  props : PropsRead .publish (v.props.map (PropView.read rx))
  low : level < level5 → v.props = []
  qos : v.qos ≤ 2
  captured : v.buffer.len ≤ v.totalLen
  totalLen : v.totalLen ≤ maxRemainLen

/-- A PUBLISH has one of the three levels. -/
theorem scanHeader_qos {headerLen remainLen : Nat} {first : UInt8}
    (h : scanHeader rx .publish = .ok (headerLen, remainLen, first)) : first.toNat / 2 % 4 ≤ 2 := by
  unfold scanHeader at h
  split at h
  · cases h
  obtain ⟨⟨remain, n⟩, -, h⟩ := bind_eq_ok.mp h
  dsimp only at h
  split at h
  · cases h
  obtain ⟨b, -, h⟩ := bind_eq_ok.mp h
  split at h
  · cases h
  next htype =>
  split at h
  · cases h
  next hflags =>
  cases h
  have hpublish : first.toNat / 16 = PacketType.publish.toNat := by simpa using htype
  simp only [Bool.not_eq_true', Bool.not_eq_false] at hflags
  unfold fixedHeaderFlagsValid at hflags
  dsimp only at hflags
  rw [if_pos hpublish] at hflags
  split at hflags
  · cases hflags
  next hqos => omega

theorem decodePublish_read (hrx : rx.length < 2147483648) (h : decodePublish level rx s = (.ok v, s')) :
    v.Read level rx := by
  obtain ⟨f, varEnd, stop, hprops, hend, rfl⟩ := decodePublish_ok h
  obtain ⟨n, hvbi, hheader⟩ := scanHeader_ok f.header
  have hn := scanVbi_le hvbi
  have hpos : f.headerLen ≤ rx.length := by
    have hinside := f.inside
    omega
  obtain ⟨str, hstr, hat, htopic⟩ := (scanString_ok_iff hrx hpos f.topic).mp f.string
  have hget : f.topic.get rx = str := by
    rw [htopic]
    exact (shows_of_at hat).get
  have hnull := PropState.head_setHead_self .own none s
  obtain ⟨hread, hlow⟩ := publishPropsM_read hrx hnull hprops
  obtain ⟨-, hle, -⟩ := publishPropsM_ends hnull f.pos_le hprops
  have hfront := f.le_pos
  refine ⟨by rwa [PublishFront.view, hget], f.valid, fun hlevel hempty => ?_, hread, hlow,
    scanHeader_qos f.header, ?_, ?_⟩
  · have hnil : f.topic.len = 0 := by
      rw [PublishFront.view, hget] at hempty
      rw [htopic, hempty]
      rfl
    rw [hnil] at hprops
    exact publishPropsM_aliased hlevel hprops
  · show (if f.headerLen + f.remainLen - varEnd > rx.length - varEnd then _ else _) ≤ f.headerLen + f.remainLen - varEnd
    split <;> omega
  · have hremain := scanVbi_lt hvbi
    show f.headerLen + f.remainLen - varEnd ≤ _
    rw [maxRemainLen]
    omega

end Read

/-! ### Writing -/

namespace Publish
variable {txLen : Nat} {p : Publish}

theorem publishVariable_of_accepted (hp : ∀ q ∈ p.props, q.Typed) (h : p.Accepted) : publishVariable p = .ok p.front := by
  have halias : (p.protocolLevel ≥ level5 && p.topicName.isEmpty && (findProp p.props .topicAlias).isNone) = false := by
    rw [findProp_isNone]
    by_cases hlevel : p.protocolLevel ≥ level5
    · by_cases hempty : p.topicName = []
      · rw [h.aliased hlevel hempty]
        simp
      · simp [hempty]
    · simp [hlevel]
  have hid : (p.qos ≠ .qos0 && p.packetId = 0) = false := by
    by_cases hqos : p.qos = .qos0
    · simp [hqos]
    · simp [h.packetId hqos]
  have hdup : (p.qos = .qos0 && p.duplicate) = false := by
    by_cases hqos : p.qos = .qos0
    · simp [h.duplicate hqos]
    · simp [hqos]
  have hlen := h.topic.1
  unfold publishVariable Publish.front Publish.idWire Publish.propsPart
  rw [if_neg (by omega), h.plain, if_neg (by decide), h.topic.2, if_neg (by decide), halias, if_neg (by decide), hid,
    if_neg (by decide), hdup, if_neg (by decide)]
  dsimp only
  by_cases hlevel : p.protocolLevel ≥ level5
  · rw [if_pos hlevel, if_pos hlevel, (encodePropBlock_ok_iff hp _).mpr ⟨h.props hlevel, rfl⟩]
    dsimp only
    rw [List.append_assoc]
  · rw [if_neg hlevel, if_neg hlevel, List.append_nil]

/-- A PUBLISH with its payload in memory; `buffer_len` is not given, or says as much. -/
structure Held (p : Publish) : Prop where
  packetId : p.packetId < 65536
  props : ∀ q ∈ p.props, q.Typed
  totalLen : p.totalLen = (p.buffer.getD []).length
  bufferLen : p.bufferLen = 0 ∨ p.bufferLen = (p.buffer.getD []).length
  short : (p.buffer.getD []).length ≤ maxRemainLen

/-- The same with its `buffer_len`. -/
theorem Held.typed (h : p.Held) : {p with bufferLen := p.totalLen}.Typed := ⟨h.packetId, h.props, h.totalLen, h.totalLen⟩

theorem Held.payload_length (h : p.Held) :
    (if p.buffer.isSome && p.totalLen > 0 then toInt32 p.totalLen else 0 : Int) = ((p.buffer.getD []).length : Nat) :=
  h.typed.payload_length (Nat.lt_of_le_of_lt h.short (by decide))

theorem Held.copied (h : p.Held) (room : Int) :
    (if p.bufferLen > 0 && (p.bufferLen : Int) < min ((p.buffer.getD []).length : Int) room then (p.bufferLen : Int)
      else min ((p.buffer.getD []).length : Int) room) = min ((p.buffer.getD []).length : Int) room := by
  refine if_neg fun hcut => ?_
  simp only [Bool.and_eq_true, decide_eq_true_eq] at hcut
  rcases h.bufferLen with hlen | hlen <;> omega

theorem Held.counted (h : p.Held) : ¬(p.buffer.isSome && p.bufferLen > 0 && p.totalLen = 0) = true := by
  intro hempty
  simp only [Bool.and_eq_true, decide_eq_true_eq] at hempty
  have htotal := h.totalLen
  rcases h.bufferLen with hlen | hlen <;> omega

theorem body_length (p : Publish) : p.body.length = p.front.length + (p.buffer.getD []).length := List.length_append

theorem wire_length (p : Publish) : p.wire.length = headerLength p.body + p.front.length + (p.buffer.getD []).length := by
  rw [wire, packetWire_length, body_length, Nat.add_assoc]

/-- The bytes in front of the payload. -/
def head (p : Publish) : Bytes :=
  firstByte .publish p.retain p.qos p.duplicate :: vbiBytes maxLenBytes p.body.length ++ p.front

theorem head_length (p : Publish) : p.head.length = headerLength p.body + p.front.length := by
  rw [head, headerLength, List.length_append, List.length_cons]

theorem wire_eq (p : Publish) : p.wire = p.head ++ p.buffer.getD [] := by
  rw [wire, packetWire, head, body, List.append_assoc, List.cons_append]

/-- **What is written of an accepted PUBLISH**: as much of it as the buffer holds, if that is all of it but for the
payload. -/
theorem encodePublish_of_accepted (hp : p.Held) (h : p.Accepted) (hbody : p.body.length ≤ maxRemainLen) :
    encodePublish txLen p =
      if txLen < maxLenBytes + 1 then .fail Code.outOfBuffer
      else if txLen < p.head.length then
        ⟨Code.outOfBuffer, firstByte .publish p.retain p.qos p.duplicate :: vbiBytes maxLenBytes p.body.length⟩
      else .done (p.wire.take txLen) := by
  have hsum : ((p.front.length : Int) + ((p.buffer.getD []).length : Nat)) = (p.body.length : Nat) := by
    rw [body_length]
    omega
  unfold encodePublish
  rw [publishVariable_of_accepted hp.props h]
  dsimp only
  rw [if_neg hp.counted, hp.payload_length, hsum, encodeFixedHeader_of_le hbody]
  by_cases hsmall : txLen < maxLenBytes + 1
  · rw [if_pos hsmall, if_pos hsmall, if_pos (by decide)]
  rw [if_neg hsmall, if_neg hsmall, if_neg (not_done_neg _), hp.copied]
  have hhead : (Encoded.done
      (firstByte .publish p.retain p.qos p.duplicate :: vbiBytes maxLenBytes p.body.length)).out.length + p.front.length =
      p.head.length := by
    rw [head, List.length_append]
    rfl
  split
  next hroom =>
    rw [hhead] at hroom
    rw [if_pos hroom]
    rfl
  next hroom =>
  rw [hhead] at hroom ⊢
  rw [if_neg hroom]
  have hcut : (p.buffer.getD []).take (min ((p.buffer.getD []).length : Int) (txLen - p.head.length : Int)).toNat =
      (p.buffer.getD []).take (txLen - p.head.length) := by
    rcases le_total (p.buffer.getD []).length (txLen - p.head.length) with hle | hle
    · rw [min_eq_left (by omega), Int.toNat_natCast, List.take_length, List.take_of_length_le hle]
    · rw [min_eq_right (by omega)]
      congr 1
      omega
  have hout : p.head ++ (p.buffer.getD []).take (txLen - p.head.length) = p.wire.take txLen := by
    rw [wire_eq, List.take_append, List.take_of_length_le (Nat.not_lt.mp hroom)]
  rw [hcut, Encoded.done, ← head, hout]
  congr 1
  rw [List.length_take, wire_eq, List.length_append]
  omega

/-- A PUBLISH that the buffer holds is written whole. -/
theorem encodePublish_whole (hp : p.Held) (h : p.Accepted) (hbody : p.body.length ≤ maxRemainLen)
    (hsmall : maxLenBytes < txLen) (hfits : p.wire.length ≤ txLen) : encodePublish txLen p = .done p.wire := by
  have hhead : p.head.length ≤ p.wire.length := by
    rw [wire_eq, List.length_append]
    omega
  rw [encodePublish_of_accepted hp h hbody, if_neg (by omega), if_neg (by omega), List.take_of_length_le hfits]

theorem front_length_le (hp : p.Held) (h : p.Accepted) : p.front.length ≤ 4000000 := by
  have htopic := h.topic.1
  have hid : p.idWire.length ≤ 2 := by
    unfold idWire
    split <;> simp [encodeNum_length]
  have hprops : p.propsPart.length ≤ 3932254 := by
    unfold propsPart
    split
    next hlevel =>
      have hlen := propsWire_short hp.props (h.props hlevel)
      have hvbi := vbiBytes_length_le maxLenBytes (propsWire p.props).length
      rw [maxLenBytes] at hvbi
      rw [propSection, maxLenBytes, List.length_append]
      omega
    · exact Nat.zero_le _
  rw [front, List.length_append, List.length_append, encodeData_length]
  omega

/-- One that it does not hold is cut in its payload, or not written at all. -/
theorem encodePublish_cut (hp : p.Held) (h : p.Accepted) :
    (encodePublish txLen p).rc < 0 ∨ (p.body.length ≤ maxRemainLen ∧ p.head.length ≤ txLen ∧
      encodePublish txLen p = .done (p.wire.take txLen)) := by
  by_cases hbody : p.body.length ≤ maxRemainLen
  · rw [encodePublish_of_accepted hp h hbody]
    have hcode : Code.outOfBuffer < 0 := by decide
    split
    · exact .inl hcode
    split
    · exact .inl hcode
    next hroom => exact .inr ⟨hbody, Nat.not_lt.mp hroom, rfl⟩
  · refine .inl ?_
    have hsum : ((p.front.length : Int) + ((p.buffer.getD []).length : Nat)) = (p.body.length : Nat) := by
      rw [body_length]
      omega
    have hheader : (encodeFixedHeader txLen p.body.length .publish p.retain p.qos p.duplicate).rc < 0 := by
      by_contra hrc
      have hfront := front_length_le hp h
      have hshort := hp.short
      rw [maxRemainLen] at hshort
      exact hbody (encodeFixedHeader_done (by rw [body_length]; omega) (Int.not_lt.mp hrc)).1
    unfold encodePublish
    rw [publishVariable_of_accepted hp.props h]
    dsimp only
    rw [if_neg hp.counted, hp.payload_length, hsum, if_pos hheader]
    exact hheader

/-- What is cut says that it is longer. -/
theorem decodePublish_long {n level : Nat} {s s' : PropState} {v : PublishView} (h : p.Accepted)
    (hbody : p.body.length ≤ maxRemainLen) (hn : headerLength p.body ≤ n)
    (hdecode : decodePublish level (p.wire.take n) s = (.ok v, s')) : v.len = p.wire.length := by
  obtain ⟨htype, hflags, -⟩ := publish_firstByte p.retain p.qos p.duplicate h.duplicate
  have hwhole : scanHeader p.wire .publish = .ok (headerLength p.body, p.body.length, _) :=
    scanHeader_packetWire hbody htype hflags
  obtain ⟨headerLen, remainLen, first, hheader, hlen, -⟩ := decodePublish_payload hdecode
  have hlong : headerLength p.body ≤ p.wire.length := by
    rw [wire_length]
    omega
  rw [scanHeader_cut hwhole hn hlong] at hheader
  cases hheader
  rw [hlen, wire_length, body_length, Nat.add_assoc]

end Publish
end WolfMqtt
