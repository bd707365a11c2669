import WolfMqtt.Client.Publish
import WolfMqtt.Packet.PublishRoundTrip

/-! The lengths that `MqttEncode_Publish` deals in, for every `total_len`.

A payload length is a `word32` in the message and an `int` in the encoder, where the length of the variable header is
added to it. From 2^32 less that length on, the sum comes out as a small Remaining Length again. -/
namespace WolfMqtt

open Agree (Only)

/-! ### The variable header -/

theorem encodePropBlock_length_le {packet : PacketType} {props : List MqttProp} {block : Bytes}
    (h : encodePropBlock packet props = .ok block) : block.length ≤ maxLenBytes + maxRemainLen := by
  unfold encodePropBlock at h
  split at h
  · cases h
  next bytes hbytes =>
  have hle := (encodePropsLoop_length_le hbytes (Nat.zero_le _)).1
  unfold encodeVbi at h
  split at h
  · cases h
  next len hlen =>
  split at hlen
  · cases hlen
  cases hlen
  cases h
  have hvbi := vbiBytes_length_le maxLenBytes bytes.length
  rw [List.length_append]
  omega

theorem publishVariable_length_lt {p : Publish} {vh : Bytes} (h : publishVariable p = .ok vh) : vh.length < 2147483648 := by
  unfold publishVariable at h
  split at h
  · cases h
  next htopic =>
  split at h
  · cases h
  split at h
  · cases h
  split at h
  · cases h
  split at h
  · cases h
  split at h
  · cases h
  have hfront : (encodeData p.topicName ++ (if p.qos = .qos0 then [] else encodeNum p.packetId)).length ≤ 65539 := by
    rw [List.length_append, encodeData_length]
    split
    · rw [List.length_nil]
      omega
    · rw [encodeNum_length]
      omega
  dsimp only at h
  split at h
  · split at h
    · cases h
    next block hblock =>
    cases h
    have hle := encodePropBlock_length_le hblock
    rw [maxLenBytes, maxRemainLen] at hle
    rw [List.length_append]
    omega
  · cases h
    omega

/-! ### The result -/

/-- The payload that the packet announces: `total_len`, if there is a buffer or a callback. -/
def Publish.announced (p : Publish) (useCb : Bool) : Nat := if p.buffer.isSome || useCb then p.totalLen else 0

section result
variable {txLen : Nat} {p : Publish} {useCb : Bool} {vh : Bytes}

/-- The payload length as the encoder has it. -/
theorem payloadLen_eq : (if (p.buffer.isSome || useCb) && decide (p.totalLen > 0) then toInt32 p.totalLen else 0) =
    toInt32 (p.announced useCb) := by
  unfold Publish.announced
  cases hsource : (p.buffer.isSome || useCb) with
  | false => rfl
  | true =>
    rw [Bool.true_and, if_pos rfl]
    by_cases hpos : p.totalLen > 0
    · rw [if_pos (by simpa using hpos)]
    · rw [Nat.eq_zero_of_not_pos hpos]
      rfl

theorem sum_word (n m : Nat) : (((n : Int) + toInt32 m) % 4294967296).toNat = (n + m) % 4294967296 := by
  unfold toInt32
  split <;> omega

/-- What is encoded: `sent` is what the encoder adds for the payload. -/
theorem encodePublishStaged_done (hvh : publishVariable p = .ok vh)
    (hkept : (p.buffer.isSome && decide (p.bufferLen > 0) && decide (p.totalLen = 0)) = false)
    (hfit : HeadersFit txLen ((vh.length + p.announced useCb) % 4294967296) vh.length) :
    ∃ (sent : Int) (rest : Bytes), encodePublishStaged txLen p useCb =
        (⟨(fixedLen ((vh.length + p.announced useCb) % 4294967296) + vh.length : Nat) + sent,
          firstByte .publish p.retain p.qos p.duplicate ::
            (vbiBytes maxLenBytes ((vh.length + p.announced useCb) % 4294967296) ++ rest)⟩, (sent % 4294967296).toNat) ∧
      min 0 (toInt32 (p.announced useCb)) ≤ sent ∧ (0 ≤ toInt32 (p.announced useCb) → 0 ≤ sent ∧ sent < 2147483648) ∧
      (fixedLen ((vh.length + p.announced useCb) % 4294967296) + vh.length : Nat) + sent ≤ txLen := by
  obtain ⟨hmax, htx, hroom⟩ := hfit
  have hdone : encodeFixedHeader txLen (vh.length + toInt32 (p.announced useCb)) .publish p.retain p.qos p.duplicate =
      .done (firstByte .publish p.retain p.qos p.duplicate ::
        vbiBytes maxLenBytes ((vh.length + p.announced useCb) % 4294967296)) := by
    unfold encodeFixedHeader
    rw [sum_word, encodeVbi_eq hmax, if_neg (not_lt.mpr htx)]
    rfl
  rw [encodePublishStaged, hvh]
  dsimp only
  rw [hkept, if_neg Bool.false_ne_true, payloadLen_eq, hdone, if_neg (not_done_neg _)]
  dsimp only [Encoded.done]
  have hlen : (firstByte .publish p.retain p.qos p.duplicate ::
      vbiBytes maxLenBytes ((vh.length + p.announced useCb) % 4294967296)).length =
        fixedLen ((vh.length + p.announced useCb) % 4294967296) := rfl
  simp only [hlen]
  rw [if_neg (not_lt.mpr hroom)]
  have hbounds : -2147483648 ≤ toInt32 (p.announced useCb) ∧ toInt32 (p.announced useCb) < 2147483648 := by
    unfold toInt32
    split <;> omega
  cases useCb with
  | true =>
    -- with a callback nothing of the payload goes in here
    rw [if_pos rfl, if_neg (by decide)]
    refine ⟨0, vh, ?_, by omega, fun _ => by omega, by omega⟩
    rw [List.cons_append]
  | false =>
    rw [if_neg Bool.false_ne_true]
    split
    next hpos =>
      -- the payload is cut to the room there is, and to what the buffer holds
      generalize hcopied : (if decide (p.bufferLen > 0) && decide ((p.bufferLen : Int) < min (toInt32 (p.announced false))
          ((txLen : Int) - (fixedLen ((vh.length + p.announced false) % 4294967296) + vh.length : Nat))) then (p.bufferLen : Int)
        else min (toInt32 (p.announced false))
          ((txLen : Int) - (fixedLen ((vh.length + p.announced false) % 4294967296) + vh.length : Nat))) = copied
      have hle : 0 ≤ copied ∧ copied ≤ toInt32 (p.announced false) ∧
          copied ≤ (txLen : Int) - (fixedLen ((vh.length + p.announced false) % 4294967296) + vh.length : Nat) := by
        rw [← hcopied]
        split
        next hshort =>
          rw [Bool.and_eq_true, decide_eq_true_eq, decide_eq_true_eq] at hshort
          omega
        next => omega
      obtain ⟨h0, hpayload, hspace⟩ := hle
      refine ⟨copied, vh ++ (p.buffer.getD []).take copied.toNat, ?_, by omega, fun _ => ⟨h0, by omega⟩, by omega⟩
      have hword : (copied % 4294967296).toNat = copied.toNat := by omega
      rw [hword, List.cons_append, List.cons_append, List.append_assoc, ← hcopied]
    next hneg =>
      refine ⟨toInt32 (p.announced false), vh, ?_, by omega, fun h => by omega, by omega⟩
      rw [List.cons_append]

/-- What `MqttEncode_Publish` accepts: its lengths fit, in 32 bits. -/
theorem encodePublishStaged_accepts (h : 0 ≤ (encodePublishStaged txLen p useCb).1.rc) :
    ∃ vh, publishVariable p = .ok vh ∧ (p.buffer.isSome && decide (p.bufferLen > 0) && decide (p.totalLen = 0)) = false ∧
      HeadersFit txLen ((vh.length + p.announced useCb) % 4294967296) vh.length := by
  unfold encodePublishStaged at h
  split at h
  next e he =>
    have hneg : e < 0 := publishVariable_negative p e he
    exact absurd h (by show ¬0 ≤ e; omega)
  next vh hvh =>
  split at h
  · exact absurd h (by decide)
  next hkept =>
  dsimp only at h
  rw [payloadLen_eq] at h
  split at h
  next hneg => exact absurd hneg (not_lt.mpr h)
  next hheader =>
  obtain ⟨hmax, htx, hdone⟩ := (encodeFixedHeader_word _ _ _ _ _).resolve_left hheader
  rw [sum_word] at hmax hdone
  rw [hdone] at h
  have hcode : ¬0 ≤ Code.outOfBuffer := by decide
  split at h
  · exact absurd h hcode
  next hroom => exact ⟨vh, hvh, by simpa using hkept, hmax, htx, not_lt.mp hroom⟩

/-- What is to hold of the encoder's result: the Remaining Length it has written is that of the variable header and of
the payload announced, and it has encoded both headers and `intBuf_len` bytes more, all of them inside the buffer. -/
def PublishHonest (txLen : Nat) (p : Publish) (useCb : Bool) : Prop :=
  0 ≤ (encodePublishStaged txLen p useCb).1.rc → ∃ vh remainLen n, publishVariable p = .ok vh ∧
    decodeVbi (encodePublishStaged txLen p useCb).1.out.tail = .ok (remainLen, n) ∧
    remainLen = vh.length + p.announced useCb ∧
    (encodePublishStaged txLen p useCb).1.rc = (n + 1 + vh.length + (encodePublishStaged txLen p useCb).2 : Nat) ∧
    (encodePublishStaged txLen p useCb).1.rc ≤ txLen

/-- The lengths do not fit 32 bits, and what is left of them there is small enough. -/
def PublishWraps (txLen : Nat) (p : Publish) (useCb : Bool) : Prop :=
  ∃ vh, publishVariable p = .ok vh ∧ 4294967296 ≤ vh.length + p.announced useCb ∧
    HeadersFit txLen ((vh.length + p.announced useCb) % 4294967296) vh.length

end result

/-- A PUBLISH is encoded with the lengths it has, whatever its `total_len` is, unless these wrap. -/
theorem publishHonest_iff (txLen : Nat) {p : Publish} (hword : p.totalLen < 4294967296) (useCb : Bool) :
    PublishHonest txLen p useCb ↔ ¬PublishWraps txLen p useCb := by
  have hannounced : p.announced useCb < 4294967296 := by
    unfold Publish.announced
    split <;> omega
  constructor
  · rintro h ⟨vh, hvh, hlong, hfit⟩
    have hshort := publishVariable_length_lt hvh
    have hkept : (p.buffer.isSome && decide (p.bufferLen > 0) && decide (p.totalLen = 0)) = false := by
      have htotal : ¬p.totalLen = 0 := by
        unfold Publish.announced at hlong
        split at hlong <;> omega
      rw [decide_eq_false htotal, Bool.and_false]
    obtain ⟨sent, rest, hresult, hle, -, -⟩ := encodePublishStaged_done hvh hkept hfit
    have hnonneg : 0 ≤ (encodePublishStaged txLen p useCb).1.rc := by
      -- what is subtracted for the payload is less than the variable header
      have hint : -(vh.length : Int) ≤ min 0 (toInt32 (p.announced useCb)) := by
        unfold toInt32
        split <;> omega
      rw [hresult]
      show 0 ≤ ((_ : Nat) : Int) + sent
      omega
    obtain ⟨vh', remainLen, n, hvh', hdecode, hremain, -, -⟩ := h hnonneg
    rw [hvh] at hvh'
    cases hvh'
    rw [hresult, List.tail_cons, decodeVbi_vbiBytes hfit.1] at hdecode
    cases hdecode
    have hlt : (vh.length + p.announced useCb) % 4294967296 < 4294967296 := Nat.mod_lt _ (by decide)
    omega
  · intro hwraps h
    obtain ⟨vh, hvh, hkept, hfit⟩ := encodePublishStaged_accepts h
    obtain ⟨sent, rest, hresult, -, hsent, hroom⟩ := encodePublishStaged_done hvh hkept hfit
    have hshort : vh.length + p.announced useCb < 4294967296 := not_le.mp fun hlong => hwraps ⟨vh, hvh, hlong, hfit⟩
    have hmod := Nat.mod_eq_of_lt hshort
    have hmax := hfit.1
    rw [hmod, maxRemainLen] at hmax
    rw [toInt32_of_lt (by omega)] at hsent
    obtain ⟨h0, hlt⟩ := hsent (by omega)
    rw [hresult]
    refine ⟨vh, _, _, hvh, decodeVbi_vbiBytes hfit.1 _, hmod, ?_, hroom⟩
    rw [fixedLen]
    dsimp only
    omega

/-- A message of three bytes, from a buffer. -/
def smallPublish (totalLen : Nat) : Publish :=
  { topicName := [0x61], qos := .qos0, packetId := 0, retain := false, duplicate := false, buffer := some [1, 2, 3]
    totalLen := totalLen, bufferLen := 3, protocolLevel := 4, props := [] }

theorem publishHonest_small : PublishHonest 16 (smallPublish 3) false :=
  (publishHonest_iff 16 (p := smallPublish 3) (by decide) false).mpr fun ⟨vh, hvh, hlong, _⟩ => by
    cases hvh
    exact absurd hlong (by decide)

/-- With a `total_len` of 2^32 - 1 a callback's packet announces two bytes behind its header and has three there, and
one from a buffer is cut off inside its topic. -/
theorem not_publishHonest :
    (encodePublishStaged 16 (smallPublish 4294967295) true).1 = ⟨5, [0x30, 2, 0, 1, 0x61]⟩ ∧
    (encodePublishStaged 16 (smallPublish 4294967295) false).1.rc = 4 ∧
    (encodePublishStaged 16 (smallPublish 4294967295) false).2 = 4294967295 := by
  decide +kernel

end WolfMqtt
