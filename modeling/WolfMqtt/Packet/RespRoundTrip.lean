import WolfMqtt.Packet.Wire

/-! Publish responses, UNSUBACK and DISCONNECT are read as they were written.

A packet with a reason has a short form, a medium one and a long one (`reasonWire`), and which of them it
has is read off its Remaining Length. -/
namespace WolfMqtt

open Agree (Agrees)
open DecodeM (fail)
open Layout (At at_append)

/-- A reason code and properties, as far as they need to be said. -/
def reasonWire (code : UInt8) (props : List MqttProp) : Bytes :=
  if props = [] then if code ≠ Reason.success then [code] else []
  else code :: propSection props

section Reason
variable {rx : Bytes} {pos : Nat} {s : PropState}

theorem views_nil {w : Whose} (hnull : s.head w = none) : s.views w = [] :=
  views_of_items (l := []) hnull rfl

theorem readByte_at {b : UInt8} {rest : Bytes} (hat : At rx pos (b :: rest)) : readByte rx pos = .ok b := by
  obtain ⟨tail, htail⟩ := Layout.at_iff.mp hat
  have hget : (rx.drop pos)[0]? = some b := by
    rw [htail]
    rfl
  exact readByte_of_drop hget

/-- What stands at the end of a packet is read in the form it has. -/
theorem reasonAndProps_reads {packet : PacketType} {code : UInt8} {props : List MqttProp} (hrx : rx.length < 2147483648)
    (hnull : s.head .own = none) (hp : ∀ p ∈ props, p.Typed) (hvalid : ValidProps packet props)
    (hauth : authPaired props) (hroom : props.length ≤ s.room) (hat : At rx pos (reasonWire code props))
    (hend : pos + (reasonWire code props).length = rx.length) :
    ∃ s', reasonAndProps packet rx pos (reasonWire code props).length s = (.ok (code, rx.length), s') ∧
      (s'.views .own).map (PropView.read rx) = props.map MqttProp.own := by
  unfold reasonWire at hat hend ⊢
  unfold reasonAndProps
  by_cases hprops : props = []
  · subst hprops
    simp only [if_true] at hat hend ⊢
    by_cases hcode : code = Reason.success
    · -- the short form
      subst hcode
      simp only [ne_eq, not_true, if_false, List.length_nil, Nat.add_zero, gt_iff_lt, Nat.lt_irrefl] at hend ⊢
      rw [hend]
      refine ⟨s, rfl, ?_⟩
      rw [views_nil hnull]
      rfl
    · -- the medium form
      simp only [ne_eq, hcode, not_false_eq_true, if_true, List.length_singleton] at hat hend ⊢
      rw [if_pos (by decide), if_neg (by omega), Attempt.run_lift_bind (readByte_at hat), if_neg (by decide), hend]
      refine ⟨s, rfl, ?_⟩
      rw [views_nil hnull]
      rfl
  · -- the long form
    simp only [if_neg hprops, List.length_cons] at hat hend ⊢
    have hcons : At rx (pos + 1) (propSection props) := (at_append.mp (show At rx pos ([code] ++ propSection props) from hat)).2
    have hpos : 0 < (propSection props).length := by
      rw [propSection, List.length_append]
      exact Nat.add_pos_left (vbiBytes_length_pos _) _
    have hvbi := vbiBytes_length_pos (propsWire props).length
    have hsection : (propSection props).length =
        (vbiBytes maxLenBytes (propsWire props).length).length + (propsWire props).length := by
      rw [propSection, List.length_append]
    rw [if_pos (by omega), if_neg (by omega), Attempt.run_lift_bind (readByte_at hat), if_pos (by omega),
      if_neg (by omega)]
    have hrefuse : refuseOver (wordDiff rx.length (pos + 1)) Code.outOfBuffer (propsWire props).length = none := by
      rw [refuseOver, wordDiff_length hrx (by omega), if_pos (by omega)]
    obtain ⟨s', hrun, hread⟩ := @propSectionM_reads rx (pos + 1) .own packet props s
      (fun len _ => refuseOver (wordDiff rx.length (pos + 1)) Code.outOfBuffer len) hrx (by omega) hnull hp hvalid
      hauth hroom hcons hrefuse
    rw [Attempt.run_bind_ok hrun]
    refine ⟨s', ?_, hread⟩
    rw [show pos + 1 + (propSection props).length = rx.length by omega]
    rfl

end Reason

/-! ### Publish responses -/

/-- PUBACK, PUBREC, PUBREL and PUBCOMP. -/
def isPublishResp (type : PacketType) : Bool :=
  type = .publishAck || type = .publishRec || type = .publishRel || type = .publishComp

namespace PublishResp

/-- The values the members' C types can hold. -/
structure Typed (r : PublishResp) : Prop where
  packetId : r.packetId < 65536
  props : ∀ p ∈ r.props, p.Typed

/-- A response says its reason and its properties at level 5 only. -/
def body (r : PublishResp) : Bytes :=
  encodeNum r.packetId ++ (if r.protocolLevel ≥ level5 then reasonWire r.reasonCode r.props else [])

end PublishResp

def publishRespQos (type : PacketType) : QoS := if type = .publishRel then .qos1 else .qos0

theorem encodePublishResp_done {txLen : Nat} {type : PacketType} {r : PublishResp} (htx : txLen < 2147483648)
    (hr : r.Typed) (h : 0 ≤ (encodePublishResp txLen type r).rc) :
    r.packetId ≠ 0 ∧ (r.protocolLevel ≥ level5 → ValidProps type r.props) ∧ r.body.length ≤ maxRemainLen ∧
      (packetWire (firstByte type false (publishRespQos type) false) r.body).length ≤ txLen ∧
      encodePublishResp txLen type r = .done (packetWire (firstByte type false (publishRespQos type) false) r.body) := by
  have hnil : ValidProps type [] := ⟨by decide, by simp, by simp, by simp⟩
  unfold encodePublishResp at h ⊢
  unfold PublishResp.body
  split at h
  · exact absurd h (by decide)
  next hid =>
  rw [if_neg hid]
  dsimp only at h ⊢
  by_cases hlevel : r.protocolLevel ≥ level5
  · simp only [if_pos hlevel] at h ⊢
    split at h
    · exact absurd h (by decide)
    next hcode =>
    rw [if_neg hcode]
    by_cases hprops : r.props = []
    · simp only [hprops, List.isEmpty_nil, if_true, reasonWire] at h ⊢
      obtain ⟨hmax, hle, hdone⟩ := encodePacket_done htx h
      exact ⟨hid, fun _ => hnil, hmax, hle, hdone⟩
    · simp only [List.isEmpty_iff, hprops, if_false, reasonWire] at h ⊢
      split at h
      next e he =>
        have hneg : e < 0 := encodePropBlock_negative type r.props e he
        exact absurd h (by show ¬0 ≤ e; omega)
      next block hblock =>
      obtain ⟨hvalid, rfl⟩ := (encodePropBlock_ok_iff hr.props block).mp hblock
      rw [List.append_assoc] at h ⊢
      obtain ⟨hmax, hle, hdone⟩ := encodePacket_done htx h
      exact ⟨hid, fun _ => hvalid, hmax, hle, hdone⟩
  · simp only [if_neg hlevel, List.append_nil] at h ⊢
    obtain ⟨hmax, hle, hdone⟩ := encodePacket_done htx h
    exact ⟨hid, fun hlevel' => absurd hlevel' hlevel, hmax, hle, hdone⟩

/-- What a decoder makes of a response: at level 5 all of it, and below just the packet identifier. -/
structure PublishRespView.Shows (rx : Bytes) (v : PublishRespView) (r : PublishResp) : Prop where
  len : v.len = rx.length
  packetId : v.packetId = r.packetId
  reasonCode : v.reasonCode = if r.protocolLevel ≥ level5 then some r.reasonCode else none
  props : v.props.map (PropView.read rx) = if r.protocolLevel ≥ level5 then r.props.map MqttProp.own else []

theorem isPublishResp_iff {type : PacketType} :
    isPublishResp type ↔ type = .publishAck ∨ type = .publishRec ∨ type = .publishRel ∨ type = .publishComp := by
  simp [isPublishResp, or_assoc]

theorem publishResp_header {type : PacketType} (htype : isPublishResp type) :
    (firstByte type false (publishRespQos type) false).toNat / 16 = type.toNat ∧
      fixedHeaderFlagsValid (firstByte type false (publishRespQos type) false) = true ∧
      PropType.authData.allowedIn type = false := by
  rcases isPublishResp_iff.mp htype with rfl | rfl | rfl | rfl <;> decide

theorem decodePublishResp_wire {first : UInt8} {type : PacketType} {r : PublishResp} {s : PropState}
    (htype : first.toNat / 16 = type.toNat) (hflags : fixedHeaderFlagsValid first = true)
    (hauth : PropType.authData.allowedIn type = false) (hr : r.Typed) (hid : r.packetId ≠ 0)
    (hvalid : r.protocolLevel ≥ level5 → ValidProps type r.props) (hbody : r.body.length ≤ maxRemainLen)
    (hrx : (packetWire first r.body).length < 2147483648) (hroom : r.props.length ≤ s.room) :
    ∃ v s', decodePublishResp type r.protocolLevel (packetWire first r.body) s = (.ok v, s') ∧
      v.Shows (packetWire first r.body) r := by
  have hlen := packetWire_length first r.body
  have hat := at_body first r.body
  have hid' : At (packetWire first r.body) (headerLength r.body) (encodeNum r.packetId) := by
    rw [PublishResp.body, at_append] at hat
    exact hat.1
  have hnum := (scanNum_ok_iff hrx (by omega) _).mpr ⟨hr.packetId, hid'⟩
  have htwo : 2 ≤ r.body.length := by
    rw [PublishResp.body, List.length_append, encodeNum_length]
    omega
  have hnull : (s.setHead .own none).head .own = none := PropState.head_setHead_self .own none s
  unfold decodePublishResp
  rw [if_neg (by omega), Attempt.run_lift_bind (scanHeader_packetWire hbody htype hflags)]
  dsimp only
  by_cases hlevel : r.protocolLevel ≥ level5
  · have hshort : ¬(if r.protocolLevel ≥ level5 then r.body.length < 2 else r.body.length ≠ 2) := by
      rw [if_pos hlevel]
      omega
    rw [if_neg hshort, Attempt.run_lift_bind hnum, if_neg hid]
    have hreason : r.body = encodeNum r.packetId ++ reasonWire r.reasonCode r.props := by
      rw [PublishResp.body, if_pos hlevel]
    have hrest : At (packetWire first r.body) (headerLength r.body + 2) (reasonWire r.reasonCode r.props) := by
      rw [hreason, at_append, encodeNum_length, ← hreason] at hat
      exact hat.2
    have hsize : r.body.length - 2 = (reasonWire r.reasonCode r.props).length := by
      rw [hreason, List.length_append, encodeNum_length]
      omega
    obtain ⟨s', hrun, hread⟩ := reasonAndProps_reads hrx hnull hr.props (hvalid hlevel)
      (authPaired_of_valid (hvalid hlevel) hauth) (by rwa [PropState.room, PropState.pool_setHead]) hrest (by omega)
    rw [← hsize] at hrun
    rw [run_nullProps_bind, if_pos hlevel, Attempt.run_bind_ok hrun, Attempt.run_pure_bind, run_viewProps_bind]
    exact ⟨_, s', rfl, hlen.symm, rfl, by rw [if_pos hlevel], by rw [if_pos hlevel, ← hread]⟩
  · have hexact : r.body.length = 2 := by
      rw [PublishResp.body, if_neg hlevel, List.append_nil, encodeNum_length]
    have hshort : ¬(if r.protocolLevel ≥ level5 then r.body.length < 2 else r.body.length ≠ 2) := by
      rw [if_neg hlevel]
      exact not_not.mpr hexact
    rw [if_neg hshort, Attempt.run_lift_bind hnum, if_neg hid, run_nullProps_bind, if_neg hlevel,
      Attempt.run_pure_bind, run_viewProps_bind]
    refine ⟨_, _, rfl, hlen.symm, rfl, by rw [if_neg hlevel], ?_⟩
    dsimp only
    rw [views_nil hnull, if_neg hlevel, List.map_nil]

theorem publishResp_roundTrip {txLen : Nat} {type : PacketType} {r : PublishResp} {s : PropState}
    (htype : isPublishResp type) (htx : txLen < 2147483648) (hr : r.Typed) (hroom : r.props.length ≤ s.room)
    (h : 0 ≤ (encodePublishResp txLen type r).rc) :
    ∃ v s', decodePublishResp type r.protocolLevel (encodePublishResp txLen type r).out s = (.ok v, s') ∧
      (v.len : Int) = (encodePublishResp txLen type r).rc ∧ v.Shows (encodePublishResp txLen type r).out r := by
  obtain ⟨hid, hvalid, hbody, hle, hdone⟩ := encodePublishResp_done htx hr h
  obtain ⟨hnat, hflags, hauth⟩ := publishResp_header htype
  obtain ⟨v, s', hrun, hshows⟩ := decodePublishResp_wire hnat hflags hauth hr hid hvalid hbody (by omega) hroom
  rw [hdone]
  exact ⟨v, s', hrun, by rw [hshows.len]; rfl, hshows⟩

/-! ### UNSUBACK -/

namespace UnsubscribeAck

/-- The values the members' C types can hold. -/
structure Typed (a : UnsubscribeAck) : Prop where
  packetId : a.packetId < 65536
  reasonCodes : a.reasonCodes.length < 65536
  props : ∀ p ∈ a.props, p.Typed

/-- The body at level 5. -/
def body (a : UnsubscribeAck) : Bytes := encodeNum a.packetId ++ (propSection a.props ++ a.reasonCodes)

end UnsubscribeAck

structure UnsubscribeAckView.Shows (rx : Bytes) (v : UnsubscribeAckView) (a : UnsubscribeAck) : Prop where
  len : v.len = rx.length
  packetId : v.packetId = a.packetId
  reasonCodes : v.reasonCodes = some a.reasonCodes
  props : v.props.map (PropView.read rx) = a.props.map MqttProp.own

theorem encodeUnsubscribeAck_done {txLen : Nat} {a : UnsubscribeAck} (htx : txLen < 2147483648) (ha : a.Typed)
    (hlevel : a.protocolLevel ≥ level5) (h : 0 ≤ (encodeUnsubscribeAck txLen a).rc) :
    ValidProps .unsubscribeAck a.props ∧ a.reasonCodes.all unsubAckReasonCodeValid = true ∧
      a.body.length ≤ maxRemainLen ∧ (packetWire 0xB0 a.body).length ≤ txLen ∧
      encodeUnsubscribeAck txLen a = .done (packetWire 0xB0 a.body) := by
  unfold encodeUnsubscribeAck at h ⊢
  split at h
  · exact absurd h (by decide)
  next hid =>
  rw [if_neg hid, if_pos hlevel]
  split at h
  next e he =>
    have hneg : e < 0 := encodePropBlock_negative .unsubscribeAck a.props e he
    exact absurd h (by show ¬0 ≤ e; omega)
  next block hblock =>
  obtain ⟨hvalid, rfl⟩ := (encodePropBlock_ok_iff ha.props block).mp hblock
  split at h
  · exact absurd h (by decide)
  next hcodes =>
  rw [if_neg hcodes]
  rw [List.append_assoc] at h ⊢
  obtain ⟨hmax, hle, hdone⟩ := encodePacket_done htx h
  exact ⟨hvalid, by simpa using hcodes, hmax, hle, hdone⟩

/-- An UNSUBACK on the wire is taken where the codes that are looked at are allowed. -/
theorem decodeUnsubscribeAck_wire {a : UnsubscribeAck} {s : PropState} (hid : a.packetId < 65536)
    (hp : ∀ p ∈ a.props, p.Typed) (hlevel : a.protocolLevel ≥ level5) (hvalid : ValidProps .unsubscribeAck a.props)
    (hbody : a.body.length ≤ maxRemainLen) (hroom : a.props.length ≤ s.room)
    (hcodes : (a.reasonCodes.take (a.reasonCodes.length % 65536)).all unsubAckReasonCodeValid = true) :
    ∃ v s', decodeUnsubscribeAck a.protocolLevel (packetWire 0xB0 a.body) s = (.ok v, s') ∧
      v.len = (packetWire 0xB0 a.body).length ∧ v.packetId = a.packetId ∧
      v.reasonCodes = some (a.reasonCodes.take (a.reasonCodes.length % 65536)) ∧
      v.props.map (PropView.read (packetWire 0xB0 a.body)) = a.props.map MqttProp.own := by
  have hlen := packetWire_length 0xB0 a.body
  have hrx : (packetWire 0xB0 a.body).length < 2147483648 := by
    have hheader := vbiBytes_length_le maxLenBytes a.body.length
    rw [maxRemainLen] at hbody
    rw [maxLenBytes] at hheader
    rw [hlen, headerLength, maxLenBytes]
    omega
  have hat := at_body 0xB0 a.body
  rw [UnsubscribeAck.body, at_append, at_append, encodeNum_length, ← UnsubscribeAck.body] at hat
  obtain ⟨hnum, hprops, hrest⟩ := hat
  have hsize : a.body.length = 2 + (propSection a.props).length + a.reasonCodes.length := by
    rw [UnsubscribeAck.body, List.length_append, List.length_append, encodeNum_length]
    omega
  have hpos : 0 < (propSection a.props).length := by
    rw [propSection, List.length_append]
    exact Nat.add_pos_left (vbiBytes_length_pos _) _
  have hsection : (propSection a.props).length =
      (vbiBytes maxLenBytes (propsWire a.props).length).length + (propsWire a.props).length := by
    rw [propSection, List.length_append]
  have hnull : (s.setHead .own none).head .own = none := PropState.head_setHead_self .own none s
  have hscan := (scanNum_ok_iff hrx (by omega) _).mpr ⟨hid, hnum⟩
  have hshort : ¬(if a.protocolLevel ≥ level5 then a.body.length < 2 else a.body.length ≠ 2) := by
    rw [if_pos hlevel]
    omega
  have hrefuse : refuseOver (wordDiff (packetWire 0xB0 a.body).length
      (headerLength a.body + 2 + (vbiBytes maxLenBytes (propsWire a.props).length).length)) Code.outOfBuffer
      (propsWire a.props).length = none := by
    rw [refuseOver, wordDiff_length hrx (by omega), if_pos (by omega)]
  obtain ⟨s', hrun, hread⟩ := @propSectionM_reads _ _ .own .unsubscribeAck a.props _
    (fun len n => refuseOver (wordDiff (packetWire 0xB0 a.body).length (headerLength a.body + 2 + n))
      Code.outOfBuffer len) hrx (by omega) hnull hp hvalid (authPaired_of_valid hvalid (by decide))
    (by rwa [PropState.room, PropState.pool_setHead]) hprops hrefuse
  unfold decodeUnsubscribeAck
  rw [if_neg (by omega), Attempt.run_lift_bind (scanHeader_packetWire hbody (by decide) (by decide))]
  dsimp only
  rw [if_neg (by omega), if_neg hshort, Attempt.run_lift_bind hscan, run_nullProps_bind, if_pos hlevel]
  have hreasons : unsubscribeAckReasons (packetWire 0xB0 a.body) (headerLength a.body + a.body.length)
      (headerLength a.body + 2) (a.body.length - 2) (s.setHead .own none) =
        (.ok (a.reasonCodes.take (a.reasonCodes.length % 65536)), s') := by
    unfold unsubscribeAckReasons
    have hcount : headerLength a.body + a.body.length - (headerLength a.body + 2 + (propSection a.props).length) =
        a.reasonCodes.length := by omega
    have htake : ((packetWire 0xB0 a.body).drop (headerLength a.body + 2 + (propSection a.props).length)).take
        (a.reasonCodes.length % 65536) = a.reasonCodes.take (a.reasonCodes.length % 65536) := by
      have htaken := congrArg (List.take (a.reasonCodes.length % 65536)) hrest.take_drop
      rwa [List.take_take, Nat.min_eq_left (Nat.mod_le _ _)] at htaken
    rw [if_pos (by omega), ← hlen, Attempt.run_bind_ok hrun]
    dsimp only
    rw [Attempt.run_pure_bind, hlen, if_neg (by omega), hcount, htake, hcodes]
    rfl
  rw [Attempt.run_bind_ok hreasons, Attempt.run_pure_bind, run_viewProps_bind]
  exact ⟨_, s', rfl, hlen.symm, rfl, rfl, hread⟩

theorem unsubscribeAck_roundTrip {txLen : Nat} {a : UnsubscribeAck} {s : PropState} (htx : txLen < 2147483648)
    (ha : a.Typed) (hlevel : a.protocolLevel ≥ level5) (hroom : a.props.length ≤ s.room)
    (h : 0 ≤ (encodeUnsubscribeAck txLen a).rc) :
    ∃ v s', decodeUnsubscribeAck a.protocolLevel (encodeUnsubscribeAck txLen a).out s = (.ok v, s') ∧
      (v.len : Int) = (encodeUnsubscribeAck txLen a).rc ∧ v.Shows (encodeUnsubscribeAck txLen a).out a := by
  obtain ⟨hvalid, hcodes, hbody, hle, hdone⟩ := encodeUnsubscribeAck_done htx ha hlevel h
  have hall : a.reasonCodes.take (a.reasonCodes.length % 65536) = a.reasonCodes := by
    rw [Nat.mod_eq_of_lt ha.reasonCodes, List.take_length]
  obtain ⟨v, s', hrun, hlen, hid, hreasons, hread⟩ :=
    decodeUnsubscribeAck_wire ha.packetId ha.props hlevel hvalid hbody hroom (by rw [hall]; exact hcodes)
  rw [hall] at hreasons
  rw [hdone]
  exact ⟨v, s', hrun, by rw [hlen]; rfl, hlen, hid, hreasons, hread⟩

/-! ### DISCONNECT -/

structure ReasonView.Shows (rx : Bytes) (v : ReasonView) (d : Disconnect) : Prop where
  len : v.len = rx.length
  reasonCode : v.reasonCode = d.reasonCode
  props : v.props.map (PropView.read rx) = d.props.map MqttProp.own

theorem encodeDisconnect_done {txLen : Nat} {d : Disconnect} (htx : txLen < 2147483648) (hd : ∀ p ∈ d.props, p.Typed)
    (hlevel : d.protocolLevel ≥ level5) (h : 0 ≤ (encodeDisconnect txLen d).rc) :
    ValidProps .disconnect d.props ∧ (reasonWire d.reasonCode d.props).length ≤ maxRemainLen ∧
      (packetWire 0xE0 (reasonWire d.reasonCode d.props)).length ≤ txLen ∧
      encodeDisconnect txLen d = .done (packetWire 0xE0 (reasonWire d.reasonCode d.props)) := by
  unfold encodeDisconnect at h ⊢
  rw [if_pos hlevel] at h ⊢
  split at h
  · exact absurd h (by decide)
  next hcode =>
  rw [if_neg hcode]
  by_cases hprops : d.props = []
  · simp only [hprops, List.isEmpty_nil, if_true, reasonWire] at h ⊢
    obtain ⟨hmax, hle, hdone⟩ := encodePacket_done htx h
    exact ⟨⟨by decide, by simp, by simp, by simp⟩, hmax, hle, hdone⟩
  · simp only [List.isEmpty_iff, hprops, if_false, reasonWire] at h ⊢
    split at h
    next e he =>
      have hneg : e < 0 := encodePropBlock_negative .disconnect d.props e he
      exact absurd h (by show ¬0 ≤ e; omega)
    next block hblock =>
    obtain ⟨hvalid, rfl⟩ := (encodePropBlock_ok_iff hd block).mp hblock
    obtain ⟨hmax, hle, hdone⟩ := encodePacket_done htx h
    exact ⟨hvalid, hmax, hle, hdone⟩

theorem disconnect_roundTrip {txLen : Nat} {d : Disconnect} {s : PropState} (htx : txLen < 2147483648)
    (hd : ∀ p ∈ d.props, p.Typed) (hlevel : d.protocolLevel ≥ level5) (hroom : d.props.length ≤ s.room)
    (h : 0 ≤ (encodeDisconnect txLen d).rc) :
    ∃ v s', decodeDisconnect (encodeDisconnect txLen d).out s = (.ok v, s') ∧
      (v.len : Int) = (encodeDisconnect txLen d).rc ∧ v.Shows (encodeDisconnect txLen d).out d := by
  obtain ⟨hvalid, hbody, hle, hdone⟩ := encodeDisconnect_done htx hd hlevel h
  rw [hdone]
  dsimp only [Encoded.done]
  have hlen := packetWire_length 0xE0 (reasonWire d.reasonCode d.props)
  have hpos : 0 < headerLength (reasonWire d.reasonCode d.props) := by
    rw [headerLength]
    omega
  have hnull : (s.setHead .own none).head .own = none := PropState.head_setHead_self .own none s
  obtain ⟨s', hrun, hread⟩ := @reasonAndProps_reads _ _ _ .disconnect d.reasonCode d.props (by omega) hnull hd hvalid
    (authPaired_of_valid hvalid (by decide)) (by rwa [PropState.room, PropState.pool_setHead])
    (at_body 0xE0 (reasonWire d.reasonCode d.props)) hlen.symm
  unfold decodeDisconnect
  rw [if_neg (by omega), Attempt.run_lift_bind (scanHeader_packetWire hbody (by decide) (by decide))]
  dsimp only
  rw [run_nullProps_bind, Attempt.run_bind_ok hrun, run_viewProps_bind]
  exact ⟨_, s', rfl, by rw [hlen], hlen.symm, rfl, hread⟩

/-! ### All three -/

/-- A publish response, an UNSUBACK or a DISCONNECT that has been written is read as what was written. Below level 5 a
publish response has no reason and no properties to say. -/
theorem resp_roundTrip (txLen : Nat) (htx : txLen < 2147483648) (s : PropState) :
    (∀ type r, isPublishResp type → r.Typed → r.props.length ≤ s.room → 0 ≤ (encodePublishResp txLen type r).rc →
      ∃ v s', decodePublishResp type r.protocolLevel (encodePublishResp txLen type r).out s = (.ok v, s') ∧
        (v.len : Int) = (encodePublishResp txLen type r).rc ∧ v.Shows (encodePublishResp txLen type r).out r) ∧
    (∀ a, a.Typed → a.protocolLevel ≥ level5 → a.props.length ≤ s.room → 0 ≤ (encodeUnsubscribeAck txLen a).rc →
      ∃ v s', decodeUnsubscribeAck a.protocolLevel (encodeUnsubscribeAck txLen a).out s = (.ok v, s') ∧
        (v.len : Int) = (encodeUnsubscribeAck txLen a).rc ∧ v.Shows (encodeUnsubscribeAck txLen a).out a) ∧
    (∀ d, (∀ p ∈ d.props, p.Typed) → d.protocolLevel ≥ level5 → d.props.length ≤ s.room →
      0 ≤ (encodeDisconnect txLen d).rc →
      ∃ v s', decodeDisconnect (encodeDisconnect txLen d).out s = (.ok v, s') ∧
        (v.len : Int) = (encodeDisconnect txLen d).rc ∧ v.Shows (encodeDisconnect txLen d).out d) :=
  ⟨fun _ _ htype hr hroom h => publishResp_roundTrip htype htx hr hroom h,
    fun _ ha hlevel hroom h => unsubscribeAck_roundTrip htx ha hlevel hroom h,
    fun _ hd hlevel hroom h => disconnect_roundTrip htx hd hlevel hroom h⟩

/-- A Reason String and a User Property. -/
def explanation : List MqttProp :=
  [{type := .reasonStr, dataStr := [0x78]}, {type := .userProp, dataStr := [0x6B], dataStr2 := [0x76]}]

def twoFree : PropState := {pool := List.replicate 2 {item := {}}}

def refusedPublish : PublishResp := {packetId := 7, reasonCode := 0x80, protocolLevel := 5, props := explanation}

def halfUnsubscribed : UnsubscribeAck := {packetId := 8, reasonCodes := [0x00, 0x11], protocolLevel := 5, props := explanation}

def takenOver : Disconnect := {reasonCode := 0x8E, protocolLevel := 5, props := explanation}

theorem resp_roundTrip_sample :
    (∃ v s', decodePublishResp .publishAck 5 (encodePublishResp 32 .publishAck refusedPublish).out twoFree = (.ok v, s') ∧
      (v.len : Int) = (encodePublishResp 32 .publishAck refusedPublish).rc ∧
      v.Shows (encodePublishResp 32 .publishAck refusedPublish).out refusedPublish) ∧
    (∃ v s', decodeUnsubscribeAck 5 (encodeUnsubscribeAck 32 halfUnsubscribed).out twoFree = (.ok v, s') ∧
      (v.len : Int) = (encodeUnsubscribeAck 32 halfUnsubscribed).rc ∧
      v.Shows (encodeUnsubscribeAck 32 halfUnsubscribed).out halfUnsubscribed) ∧
    ∃ v s', decodeDisconnect (encodeDisconnect 32 takenOver).out twoFree = (.ok v, s') ∧
      (v.len : Int) = (encodeDisconnect 32 takenOver).rc ∧ v.Shows (encodeDisconnect 32 takenOver).out takenOver := by
  have htyped : ∀ p ∈ explanation, p.Typed := by decide
  obtain ⟨hresp, hunsub, hdisc⟩ := resp_roundTrip 32 (by decide) twoFree
  exact ⟨hresp .publishAck refusedPublish (by decide) ⟨by decide, htyped⟩ (by decide) (by decide),
    hunsub halfUnsubscribed ⟨by decide, by decide, htyped⟩ (by decide) (by decide) (by decide),
    hdisc takenOver htyped (by decide) (by decide) (by decide)⟩

/-- Below level 5 the reason of a PUBACK is not written, and the decoder sets none. -/
theorem not_publishResp_roundTrip :
    (encodePublishResp 16 .publishAck {packetId := 1, reasonCode := 0x80, protocolLevel := 4}).rc = 4 ∧
    decodePublishResp .publishAck 4
        (encodePublishResp 16 .publishAck {packetId := 1, reasonCode := 0x80, protocolLevel := 4}).out {pool := []} =
      (.ok {len := 4, packetId := 1, reasonCode := none, props := [], stop := 4}, {pool := [], props := some none}) := by
  decide +kernel

end WolfMqtt
