import WolfMqtt.Packet.Extent
import WolfMqtt.Packet.RespRoundTrip
import WolfMqtt.Packet.VbiExact

/-! The reason codes of an UNSUBACK.

`MqttDecode_UnsubscribeAck` keeps their number as a `word16` and checks as many as that number says. The payload of a
packet may be longer. -/
namespace WolfMqtt

open Attempt (Triple)
open DecodeM (fail)

/-- What stands behind a property list, with its length, at the front of some bytes. -/
def behindProps (body : Bytes) : Bytes :=
  match decodeVbi body with
  | .error _ => []
  | .ok (len, n) => body.drop (n + len)

/-- The payload of an UNSUBACK: all of the packet behind its identifier and its properties. -/
def unsubAckPayload (rx : Bytes) : Bytes :=
  match decodeVbi (rx.drop 1) with
  | .error _ => []
  | .ok (remainLen, n) => behindProps ((rx.take (n + 1 + remainLen)).drop (n + 1 + 2))

/-- The count is the length of the payload, and every byte of it is an allowed code. -/
def CodesKept (rx : Bytes) (v : UnsubscribeAckView) : Prop :=
  ∃ codes, v.reasonCodes = some codes ∧ codes.length = (unsubAckPayload rx).length ∧
    ∀ b ∈ unsubAckPayload rx, unsubAckReasonCodeValid b = true

section Codes
variable {rx : Bytes}

/-- What the decoder keeps of a payload. -/
def Counted (payload codes : Bytes) : Prop :=
  codes = payload.take (payload.length % 65536) ∧ ∀ b ∈ codes, unsubAckReasonCodeValid b = true

theorem Counted.kept_iff {payload codes : Bytes} (h : Counted payload codes) :
    (codes.length = payload.length ∧ ∀ b ∈ payload, unsubAckReasonCodeValid b = true) ↔ payload.length ≤ 65535 := by
  obtain ⟨hcodes, hvalid⟩ := h
  constructor
  · rintro ⟨hlen, -⟩
    rw [hcodes, List.length_take] at hlen
    omega
  · intro hle
    rw [Nat.mod_eq_of_lt (by omega), List.take_length] at hcodes
    subst hcodes
    exact ⟨rfl, hvalid⟩

theorem freeAndFail_any {pre : PropState → Prop} {rc : Int} {post : Bytes → PropState → Prop} :
    Triple pre (freeAndFail rc) (fun _ => True) post := fun _ _ => trivial

theorem unsubscribeAckReasons_counted {packetEnd pos : Nat} (hrx : rx.length < 2147483648) (hend : packetEnd ≤ rx.length)
    (hpos : pos ≤ packetEnd) :
    Triple (fun s => s.head .own = none) (unsubscribeAckReasons rx packetEnd pos (packetEnd - pos)) (fun _ => True)
      fun codes _ => Counted (behindProps ((rx.take packetEnd).drop pos)) codes := by
  unfold unsubscribeAckReasons
  extract_lets tail
  have htail (payload : Bytes) (stop : Nat) (hstop : stop ≤ packetEnd)
      (h : payload = (rx.drop stop).take (packetEnd - stop)) :
      Triple (fun _ => True) (tail stop) (fun _ => True) fun codes _ => Counted payload codes := by
    have hlen : payload.length = packetEnd - stop := by
      rw [h, List.length_take, List.length_drop]
      omega
    have hcodes : (rx.drop stop).take ((packetEnd - stop) % 65536) = payload.take (payload.length % 65536) := by
      rw [hlen, h, List.take_take, Nat.min_eq_left (Nat.mod_le _ _)]
    refine .ite (fun hover => absurd hstop (Nat.not_le.mpr hover)) fun _ => ?_
    refine .ite (fun _ => freeAndFail_any) fun hvalid => .ret fun _ _ => ⟨hcodes, ?_⟩
    simpa using hvalid
  have hbody : (rx.take packetEnd).drop pos = (rx.drop pos).take (packetEnd - pos) := List.drop_take ..
  have hdiff : wordDiff packetEnd pos = packetEnd - pos := wordDiff_of_le hpos (by omega)
  rw [hbody]
  refine .ite (fun _ => ?_) fun hnone => .pure_bind ?_
  · refine .bind propSectionM_ends fun r => .pure_bind fun s h => ?_
    obtain ⟨len, n, hvbi, hrefuse, rfl⟩ := h
    have hn := scanVbi_le hvbi
    rw [hdiff] at hvbi hn
    have hlen : pos + n + len ≤ packetEnd := by
      unfold refuseOver at hrefuse
      split at hrefuse
      next hle =>
        rw [wordDiff_of_le (by omega) (by omega)] at hle
        omega
      next => cases hrefuse
    refine htail _ (pos + n + len) hlen ?_ s trivial
    rw [behindProps, scanVbi_window.mp hvbi]
    show ((rx.drop pos).take (packetEnd - pos)).drop (n + len) = _
    rw [List.drop_take, List.drop_drop, Nat.sub_sub, Nat.add_assoc pos]
  · have hnil : packetEnd - pos = 0 := by omega
    refine (htail _ pos hpos ?_).weaken fun _ _ => trivial
    rw [hnil, List.take_zero]
    rfl

/-- An UNSUBACK that is taken at level 5 keeps its codes exactly when its payload has at most 65535 bytes. -/
theorem decodeUnsubscribeAck_codes (hrx : rx.length < 2147483648) {level : Nat} (hlevel : level ≥ level5) :
    Triple (fun _ => True) (decodeUnsubscribeAck level rx) (fun _ => True) fun v _ =>
      (CodesKept rx v ↔ (unsubAckPayload rx).length ≤ 65535) := by
  unfold decodeUnsubscribeAck
  refine .ite (fun _ _ _ => trivial) fun _ => ?_
  refine .lift_bind (fun _ _ => trivial) fun ⟨headerLen, remainLen, first⟩ hheader => ?_
  obtain ⟨n, hvbi, rfl⟩ := scanHeader_ok hheader
  dsimp only
  refine .ite (fun _ _ _ => trivial) fun hend => .ite (fun _ _ _ => trivial) fun hshort => ?_
  rw [if_pos hlevel, Nat.not_lt] at hshort
  refine .lift_bind (fun _ _ => trivial) fun packetId _ => ?_
  refine .bind head_null fun _ => ?_
  rw [if_pos hlevel]
  have hpayload : unsubAckPayload rx = behindProps ((rx.take (n + 1 + remainLen)).drop (n + 1 + 2)) := by
    have hwindow := scanVbi_window.mp hvbi
    rw [List.take_of_length_le (by rw [List.length_drop])] at hwindow
    rw [unsubAckPayload, hwindow]
  have hleft : n + 1 + remainLen - (n + 1 + 2) = remainLen - 2 := by omega
  have hcodes := unsubscribeAckReasons_counted hrx (show n + 1 + remainLen ≤ rx.length by omega)
    (show n + 1 + 2 ≤ n + 1 + remainLen by omega)
  rw [hleft, ← hpayload] at hcodes
  refine .bind hcodes fun codes => .pure_bind ?_
  refine viewProps_bind fun props => .ret fun _ hcounted => ?_
  rw [← hcounted.kept_iff]
  constructor
  · rintro ⟨_, hsome, hkept⟩
    cases hsome
    exact hkept
  · exact fun hkept => ⟨codes, rfl, hkept⟩

end Codes

/-! ### The payloads that fit the count -/

/-- The codes of an accepted UNSUBACK are all kept and checked exactly when there are at most 65535 of them. -/
theorem unsubAck_codesKept_iff {level : Nat} {rx : Bytes} {s s' : PropState} {v : UnsubscribeAckView}
    (hrx : rx.length < 2147483648) (hlevel : level ≥ level5) (h : decodeUnsubscribeAck level rx s = (.ok v, s')) :
    CodesKept rx v ↔ (unsubAckPayload rx).length ≤ 65535 :=
  (decodeUnsubscribeAck_codes hrx hlevel).of_run trivial h

theorem unsubAck_codesKept_iff_sample :
    CodesKept [0xB0, 4, 0, 1, 0, 0x11] ⟨6, 1, some [0x11], []⟩ ↔
      (unsubAckPayload [0xB0, 4, 0, 1, 0, 0x11]).length ≤ 65535 :=
  unsubAck_codesKept_iff (by decide) (show 5 ≥ level5 by decide)
    (show decodeUnsubscribeAck 5 [0xB0, 4, 0, 1, 0, 0x11] {pool := []} =
      (.ok ⟨6, 1, some [0x11], []⟩, {pool := [], props := some none}) by decide +kernel)

/-- The payload of an UNSUBACK on the wire. -/
theorem unsubAckPayload_wire {a : UnsubscribeAck} (hbody : a.body.length ≤ maxRemainLen) :
    unsubAckPayload (packetWire 0xB0 a.body) = a.reasonCodes := by
  have hlist : (propsWire a.props).length ≤ maxRemainLen := by
    rw [UnsubscribeAck.body, List.length_append, List.length_append, propSection, List.length_append] at hbody
    omega
  have hall : (packetWire 0xB0 a.body).take ((vbiBytes maxLenBytes a.body.length).length + 1 + a.body.length) =
      packetWire 0xB0 a.body := List.take_of_length_le (by rw [packetWire_length, headerLength])
  have hbehind : (packetWire 0xB0 a.body).drop ((vbiBytes maxLenBytes a.body.length).length + 1 + 2) =
      propSection a.props ++ a.reasonCodes := by
    have hsplit : packetWire 0xB0 a.body =
        (0xB0 :: (vbiBytes maxLenBytes a.body.length ++ encodeNum a.packetId)) ++ (propSection a.props ++ a.reasonCodes) := by
      rw [packetWire, List.cons_append, List.append_assoc]
      rfl
    rw [hsplit]
    exact List.drop_left' (by rw [List.length_cons, List.length_append, encodeNum_length])
  rw [unsubAckPayload, packetWire, List.drop_one, List.tail_cons, decodeVbi_vbiBytes hbody, ← packetWire]
  show behindProps _ = _
  rw [hall, hbehind, behindProps, propSection, List.append_assoc, decodeVbi_vbiBytes hlist]
  show List.drop _ _ = _
  rw [← List.append_assoc]
  exact List.drop_left' (by rw [List.length_append])

/-- An UNSUBACK with more codes than can be counted, none of them allowed. -/
def crowdedUnsubAck : UnsubscribeAck :=
  { packetId := 1
    protocolLevel := 5
    props := []
    reasonCodes := List.replicate 65536 0x01 }

/-- 65536 codes are counted as none, and none of them is checked. -/
theorem not_unsubAck_codesKept :
    ∃ v s', decodeUnsubscribeAck 5 ([0xB0, 0x83, 0x80, 0x04, 0, 1, 0] ++ List.replicate 65536 0x01) {pool := []} = (.ok v, s') ∧
      ¬CodesKept ([0xB0, 0x83, 0x80, 0x04, 0, 1, 0] ++ List.replicate 65536 0x01) v := by
  have hcount : crowdedUnsubAck.reasonCodes.length = 65536 := List.length_replicate
  have hlen : crowdedUnsubAck.body.length = 65539 := by
    rw [UnsubscribeAck.body, List.length_append, List.length_append, hcount]
    rfl
  have hwire : [0xB0, 0x83, 0x80, 0x04, 0, 1, 0] ++ List.replicate 65536 0x01 = packetWire 0xB0 crowdedUnsubAck.body := by
    have hvbi : vbiBytes maxLenBytes 65539 = [0x83, 0x80, 0x04] := by decide
    rw [packetWire, hlen, hvbi]
    rfl
  have hbody : crowdedUnsubAck.body.length ≤ maxRemainLen := by
    rw [hlen]
    decide
  have hnone : crowdedUnsubAck.reasonCodes.take (crowdedUnsubAck.reasonCodes.length % 65536) = [] := by
    rw [hcount]
    rfl
  have hvalid : ValidProps .unsubscribeAck crowdedUnsubAck.props := ⟨by decide, List.forall_mem_nil _, List.forall_mem_nil _, .nil⟩
  obtain ⟨v, s', hrun, -, -, hcodes, -⟩ := decodeUnsubscribeAck_wire (a := crowdedUnsubAck) (s := {pool := []}) (by decide)
    (List.forall_mem_nil _) (by decide) hvalid hbody (Nat.zero_le _) (by rw [hnone]; rfl)
  rw [hnone] at hcodes
  rw [hwire]
  refine ⟨v, s', hrun, ?_⟩
  rintro ⟨codes, hsome, hkept, -⟩
  rw [hcodes, Option.some.injEq] at hsome
  rw [unsubAckPayload_wire hbody, hcount, ← hsome] at hkept
  exact absurd hkept (by decide)

end WolfMqtt
