import WolfMqtt.Packet.Extent
import WolfMqtt.Packet.Framing
import WolfMqtt.Packet.PoolSafe

/-! Where a PUBLISH has its payload, as far as the buffer has the packet.

`MqttDecode_Publish` goes through what is in front of the payload, and takes what is left of the packet as the
payload, of which the buffer may hold the beginning only. What it decides depends on how many properties can be
had, and not on the pool otherwise. -/
namespace WolfMqtt

open Attempt (lift)
open DecodeM (fail)

/-- What is decoded of a PUBLISH in front of its properties. -/
structure PublishFront (level : Nat) (rx : Bytes) where
  headerLen : Nat
  remainLen : Nat
  first : UInt8
  topic : Slice
  packetId : Option Nat
  pos : Nat
  filled : rx.length ≠ 0
  header : scanHeader rx .publish = .ok (headerLen, remainLen, first)
  string : scanString rx headerLen (wordDiff rx.length headerLen) = .ok topic
  inside : headerLen + (2 + topic.len) ≤ rx.length
  valid : topicNameValid (topic.get rx) level = true
  id : scanPublishId rx (first.toNat / 2 % 4) (headerLen + (2 + topic.len)) = .ok (packetId, pos)

namespace PublishFront
variable {level : Nat} {rx : Bytes} {s s' : PropState}

/-- The PUBLISH, with properties that end at `varEnd`. -/
def view (f : PublishFront level rx) (varEnd stop : Nat) (props : List PropView) : PublishView :=
  { len := varEnd + (f.headerLen + f.remainLen - varEnd)
    qos := f.first.toNat / 2 % 4
    retain := if f.first.toNat % 2 = 1 then 1 else 0
    duplicate := if f.first.toNat / 8 % 2 = 1 then 1 else 0
    topicName := f.topic
    packetId := f.packetId
    props
    buffer := ⟨stop, if f.headerLen + f.remainLen - varEnd > rx.length - varEnd then rx.length - varEnd
      else f.headerLen + f.remainLen - varEnd⟩
    totalLen := f.headerLen + f.remainLen - varEnd }

theorem pos_le (f : PublishFront level rx) : f.pos ≤ rx.length := by
  have hid := f.id
  have hinside := f.inside
  unfold scanPublishId at hid
  split at hid
  · split at hid
    · cases hid
    obtain ⟨id, -, hid⟩ := Agree.bind_eq_ok.mp hid
    split at hid
    · cases hid
    split at hid
    next hle =>
      rw [← (Prod.mk.inj (Except.ok.inj hid)).2]
      exact hle
    · cases hid
  · rw [← (Prod.mk.inj (Except.ok.inj hid)).2]
    exact hinside

theorem le_pos (f : PublishFront level rx) : f.headerLen + (2 + f.topic.len) ≤ f.pos := by
  have hid := f.id
  unfold scanPublishId at hid
  split at hid
  · split at hid
    · cases hid
    obtain ⟨id, -, hid⟩ := Agree.bind_eq_ok.mp hid
    split at hid
    · cases hid
    split at hid
    · rw [← (Prod.mk.inj (Except.ok.inj hid)).2]
      exact Nat.le_add_right _ 2
    · cases hid
  · exact Nat.le_of_eq (Prod.mk.inj (Except.ok.inj hid)).2

/-- With its properties decoded, so is the PUBLISH. -/
theorem decode (f : PublishFront level rx) {varEnd stop : Nat}
    (hprops : publishPropsM level rx f.topic.len f.pos (s.setHead .own none) = (.ok (varEnd, stop), s'))
    (hend : varEnd ≤ f.headerLen + f.remainLen) :
    decodePublish level rx s = (.ok (f.view varEnd stop (s'.views .own)), s') := by
  unfold decodePublish
  rw [if_neg f.filled, Attempt.run_lift_bind f.header]
  dsimp only
  rw [Attempt.run_lift_bind f.string, if_neg (Nat.not_lt.mpr f.inside), f.valid, if_neg (by decide),
    Attempt.run_lift_bind f.id]
  dsimp only
  rw [run_nullProps_bind, Attempt.run_bind_ok hprops, if_neg (Nat.not_lt.mpr hend), run_viewProps_bind]
  rfl

end PublishFront

section
variable {level : Nat} {rx : Bytes} {s s' t : PropState} {v : PublishView}

theorem decodePublish_ok (h : decodePublish level rx s = (.ok v, s')) :
    ∃ (f : PublishFront level rx) (varEnd stop : Nat),
      publishPropsM level rx f.topic.len f.pos (s.setHead .own none) = (.ok (varEnd, stop), s') ∧
        varEnd ≤ f.headerLen + f.remainLen ∧ v = f.view varEnd stop (s'.views .own) := by
  unfold decodePublish at h
  split at h
  · cases h
  next hfilled =>
  cases hheader : scanHeader rx .publish with
  | error e =>
    rw [Attempt.run_lift_error hheader] at h
    cases h
  | ok r =>
  obtain ⟨headerLen, remainLen, first⟩ := r
  rw [Attempt.run_lift_bind hheader] at h
  dsimp only at h
  cases hstring : scanString rx headerLen (wordDiff rx.length headerLen) with
  | error e =>
    rw [Attempt.run_lift_error hstring] at h
    cases h
  | ok topic =>
  rw [Attempt.run_lift_bind hstring] at h
  split at h
  · cases h
  next hinside =>
  split at h
  · cases h
  next hvalid =>
  cases hid : scanPublishId rx (first.toNat / 2 % 4) (headerLen + (2 + topic.len)) with
  | error e =>
    rw [Attempt.run_lift_error hid] at h
    cases h
  | ok r =>
  obtain ⟨packetId, pos⟩ := r
  rw [Attempt.run_lift_bind hid] at h
  dsimp only at h
  rw [run_nullProps_bind, Attempt.run_bind] at h
  rcases hprops : publishPropsM level rx topic.len pos (s.setHead .own none) with ⟨_ | ⟨varEnd, stop⟩, s₁⟩ <;>
    rw [hprops] at h <;> dsimp only at h
  · cases h
  split at h
  · cases h
  next hend =>
  rw [run_viewProps_bind] at h
  obtain ⟨hv, rfl⟩ := Prod.mk.inj h
  have hvalid' : topicNameValid (topic.get rx) level = true := by simpa using hvalid
  refine ⟨⟨headerLen, remainLen, first, topic, packetId, pos, hfilled, hheader, hstring, Nat.not_lt.mp hinside, hvalid',
    hid⟩, varEnd, stop, hprops, Nat.not_lt.mp hend, ?_⟩
  exact (Except.ok.inj hv).symm

/-- The properties end inside the buffer, and where their length says. -/
theorem publishPropsM_ends {topicLen pos varEnd stop : Nat} (hnull : s.head .own = none) (hpos : pos ≤ rx.length)
    (h : publishPropsM level rx topicLen pos s = (.ok (varEnd, stop), s')) :
    stop = varEnd ∧ pos ≤ varEnd ∧ varEnd ≤ rx.length := by
  unfold publishPropsM at h
  split at h
  · split at h
    · cases h
    rw [Attempt.run_bind] at h
    rcases hsection : propSectionM .own .publish rx rx.length pos
        (fun len n => if pos + (n + len) ≤ rx.length then none else some Code.outOfBuffer) s
      with ⟨_ | ⟨declared, stop'⟩, s₁⟩ <;>
      rw [hsection] at h <;> dsimp only at h
    · cases h
    obtain ⟨len, n, -, hrefuse, heq⟩ := Attempt.Triple.of_run propSectionM_ends hnull hsection
    cases heq
    rw [run_viewProps_bind] at h
    split at h
    · cases h
    obtain ⟨hends, -⟩ := Prod.mk.inj h
    cases Except.ok.inj hends
    refine ⟨rfl, by omega, ?_⟩
    by_contra hover
    rw [if_neg (by omega)] at hrefuse
    cases hrefuse
  · obtain ⟨hends, -⟩ := Prod.mk.inj h
    cases Except.ok.inj hends
    exact ⟨rfl, Nat.le_refl _, hpos⟩

/-- The properties that are decoded are those that are scanned. -/
theorem publishPropsM_same {rx' : Bytes} {topicLen pos varEnd stop : Nat} (hnull : s.head .own = none)
    (hnull' : t.head .own = none) (hpos : pos ≤ rx.length → pos ≤ rx'.length)
    (hscan : ∀ r, scanSection .publish s.room rx rx.length pos
        (fun len n => if pos + (n + len) ≤ rx.length then none else some Code.outOfBuffer) = .ok r →
      r.2.1 = varEnd → scanSection .publish t.room rx' rx'.length pos
        (fun len n => if pos + (n + len) ≤ rx'.length then none else some Code.outOfBuffer) = .ok r)
    (h : publishPropsM level rx topicLen pos s = (.ok (varEnd, stop), s')) :
    ∃ t', publishPropsM level rx' topicLen pos t = (.ok (varEnd, stop), t') ∧ t'.views .own = s'.views .own := by
  unfold publishPropsM at h ⊢
  split at h
  next hlevel =>
    rw [if_pos hlevel]
    split at h
    · cases h
    next hinside =>
    rw [if_neg (Nat.not_lt.mpr (hpos (Nat.not_lt.mp hinside)))]
    have hspec := @propSectionM_spec .own .publish rx rx.length pos
      (fun len n => if pos + (n + len) ≤ rx.length then none else some Code.outOfBuffer) s hnull
    have hspec' := @propSectionM_spec .own .publish rx' rx'.length pos
      (fun len n => if pos + (n + len) ≤ rx'.length then none else some Code.outOfBuffer) t hnull'
    cases hgot : scanSection .publish s.room rx rx.length pos
        (fun len n => if pos + (n + len) ≤ rx.length then none else some Code.outOfBuffer) with
    | error e =>
      rw [hgot] at hspec
      obtain ⟨-, -, s₁, hrun, -⟩ := hspec
      rw [Attempt.run_bind_error hrun] at h
      cases h
    | ok r =>
      rw [hgot] at hspec
      obtain ⟨-, s₁, hrun, -, hviews, -⟩ := hspec
      rw [Attempt.run_bind_ok hrun] at h
      dsimp only at h
      rw [run_viewProps_bind, hviews] at h
      split at h
      · cases h
      next hplain =>
      obtain ⟨hends, rfl⟩ := Prod.mk.inj h
      have hvar := (Prod.mk.inj (Except.ok.inj hends)).1
      rw [hscan r hgot hvar] at hspec'
      obtain ⟨-, t₁, hrun', -, hviews', -⟩ := hspec'
      rw [Attempt.run_bind_ok hrun']
      dsimp only
      rw [run_viewProps_bind, hviews', if_neg hplain, ← Except.ok.inj hends]
      exact ⟨t₁, rfl, hviews'.trans hviews.symm⟩
  next hlevel =>
    rw [if_neg hlevel]
    obtain ⟨hends, rfl⟩ := Prod.mk.inj h
    cases Except.ok.inj hends
    refine ⟨t, rfl, ?_⟩
    rw [PropState.views, PropState.views, hnull, hnull']
    cases t.pool.length <;> cases s.pool.length <;> rfl

theorem decodePublish_alike (hroom : t.room = s.room) (h : decodePublish level rx s = (.ok v, s')) :
    ∃ t', decodePublish level rx t = (.ok v, t') := by
  obtain ⟨f, varEnd, stop, hprops, hend, rfl⟩ := decodePublish_ok h
  have hroom' : (t.setHead .own none).room = (s.setHead .own none).room := by
    rw [PropState.room, PropState.pool_setHead, PropState.room, PropState.pool_setHead]
    exact hroom
  obtain ⟨t', hprops', hviews⟩ := publishPropsM_same (PropState.head_setHead_self .own none s)
    (PropState.head_setHead_self .own none t) id (fun r hscan _ => hroom' ▸ hscan) hprops
  rw [← hviews]
  exact ⟨t', f.decode hprops' hend⟩

/-- What is left of the packet behind the properties is the payload, and the buffer's part of it stands behind
them. -/
theorem decodePublish_payload (h : decodePublish level rx s = (.ok v, s')) :
    ∃ headerLen remainLen first, scanHeader rx .publish = .ok (headerLen, remainLen, first) ∧
      v.len = headerLen + remainLen ∧ v.buffer.off + v.totalLen = headerLen + remainLen ∧
      v.buffer.off + v.buffer.len = min rx.length (headerLen + remainLen) ∧ v.qos = first.toNat / 2 % 4 ∧
      (v.qos = 0 → v.packetId = none) := by
  obtain ⟨f, varEnd, stop, hprops, hend, rfl⟩ := decodePublish_ok h
  obtain ⟨rfl, hinside⟩ := publishPropsM_ends (PropState.head_setHead_self .own none s) f.pos_le hprops
  refine ⟨f.headerLen, f.remainLen, f.first, f.header, ?_, ?_, ?_, rfl, fun hqos => ?_⟩
  · show stop + (f.headerLen + f.remainLen - stop) = _
    omega
  · show stop + (f.headerLen + f.remainLen - stop) = _
    omega
  · show stop + (if f.headerLen + f.remainLen - stop > rx.length - stop then _ else _) = _
    split <;> omega
  · have hid := f.id
    have hzero : f.first.toNat / 2 % 4 = 0 := hqos
    rw [hzero, scanPublishId, if_neg (by decide)] at hid
    exact (Prod.mk.inj (Except.ok.inj hid)).1.symm

/-- An empty topic comes with a Topic Alias. -/
theorem publishPropsM_aliased {pos varEnd stop : Nat} (hlevel : level ≥ level5)
    (h : publishPropsM level rx 0 pos s = (.ok (varEnd, stop), s')) :
    (s'.views .own).any (·.type = .topicAlias) = true := by
  unfold publishPropsM at h
  rw [if_pos hlevel] at h
  split at h
  · cases h
  rw [Attempt.run_bind] at h
  generalize propSectionM .own .publish rx rx.length pos _ s = got at h
  obtain ⟨_ | ⟨varEnd', stop'⟩, s₁⟩ := got <;> dsimp only at h
  · cases h
  rw [run_viewProps_bind] at h
  split at h
  · cases h
  next halias =>
  obtain ⟨-, rfl⟩ := Prod.mk.inj h
  simpa using halias

/-- Without an alias there is a topic. -/
theorem decodePublish_topic (h : decodePublish level rx s = (.ok v, s'))
    (halias : level ≥ level5 → v.props.any (·.type = .topicAlias) = false) :
    ∃ headerLen remainLen first, scanHeader rx .publish = .ok (headerLen, remainLen, first) ∧
      headerLen + 3 ≤ rx.length := by
  obtain ⟨f, varEnd, stop, hprops, hend, rfl⟩ := decodePublish_ok h
  refine ⟨f.headerLen, f.remainLen, f.first, f.header, ?_⟩
  have hinside := f.inside
  rcases Nat.eq_zero_or_pos f.topic.len with hempty | hsome
  · exfalso
    by_cases hlevel : level ≥ level5
    · rw [hempty] at hprops
      have hnone := halias hlevel
      rw [PublishFront.view, publishPropsM_aliased hlevel hprops] at hnone
      cases hnone
    · have hvalid := f.valid
      rw [Slice.get, hempty, List.take_zero] at hvalid
      simp [topicNameValid, Nat.lt_of_not_le hlevel] at hvalid
  · omega

end

/-! ### A PUBLISH on the stream -/

theorem scanHeader_first {rx : Bytes} {type : PacketType} {headerLen remainLen : Nat} {first : UInt8}
    (h : scanHeader rx type = .ok (headerLen, remainLen, first)) :
    rx.getD 0 0 = first ∧ first.toNat / 16 = type.toNat := by
  unfold scanHeader at h
  split at h
  · cases h
  obtain ⟨⟨remain, n⟩, -, h⟩ := Agree.bind_eq_ok.mp h
  dsimp only at h
  split at h
  · cases h
  obtain ⟨b, hb, h⟩ := Agree.bind_eq_ok.mp h
  split at h
  · cases h
  next htype =>
  split at h
  · cases h
  cases h
  refine ⟨?_, Decidable.not_not.mp htype⟩
  rw [readByte] at hb
  split at hb
  next b' hget =>
    cases hb
    rw [List.getD_eq_getElem?_getD, hget, Option.getD_some]
  · cases hb

/-- A buffer that holds the beginning of a packet gets it off the stream, and leaves the rest of the packet there. -/
theorem frame_cut {packet rest : Bytes} {n : Nat} {type : PacketType} {headerLen remainLen : Nat} {first : UInt8}
    (h : scanHeader (packet.take n) type = .ok (headerLen, remainLen, first))
    (hlen : headerLen + remainLen = packet.length) (hmore : headerLen + 3 ≤ (packet.take n).length) :
    frame n (packet ++ rest) = .packet (packet.take n) (packet.drop n ++ rest) := by
  obtain ⟨k, hvbi, rfl⟩ := scanHeader_ok h
  have hcut : (packet.take n).length ≤ n := List.length_take_le n packet
  obtain ⟨_, hdec, rfl⟩ := Agree.right_of_ok (scanVbi_agrees (by omega)) hvbi
  rw [List.drop_one] at hdec
  obtain ⟨conts, b, more, htail, hconts, hb, hk⟩ := decodeVbiLoop_shape _ _ _ _ _ _ hdec
  have hwhole : (packet ++ rest).tail = conts ++ b :: (more ++ (packet.drop n ++ rest)) := by
    have hsome : packet.take n ≠ [] := List.ne_nil_of_length_pos (by omega)
    rw [← List.cons_append, ← List.append_assoc, ← htail, ← List.tail_append_of_ne_nil hsome, ← List.append_assoc,
      List.take_append_drop]
  have hdec' : decodeVbi (packet ++ rest).tail = .ok (remainLen, k) := by
    rw [hwhole, ← hdec, htail]
    exact decodeVbiLoop_prefix conts b _ _ 0 0 1 hconts hb
  have hfits : 1 + k + min remainLen (n - (1 + k)) = min packet.length n := by omega
  have hbig : maxLenBytes + 1 ≤ n := Nat.le_trans (by show 5 ≤ _; omega) hcut
  rw [List.length_take] at hmore hcut
  rw [frame_closed hbig hdec', hfits, if_neg (by omega), if_neg (by rw [List.length_append]; omega)]
  rcases Nat.le_total packet.length n with hle | hle
  · rw [Nat.min_eq_left hle, List.take_of_length_le hle, List.drop_eq_nil_of_le hle, List.take_left, List.drop_left,
      List.nil_append]
  · rw [Nat.min_eq_right hle, List.take_append_of_le_length hle, List.drop_append_of_le_length hle]

end WolfMqtt
