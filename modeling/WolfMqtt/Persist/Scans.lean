import WolfMqtt.Persist.Purge
import WolfMqtt.Persist.QueueOrder
import WolfMqtt.Persist.RoundTrip

/-! A record is read alike by offsets and in its body.

The decoders of a restart are there twice: on the body of a record, for what comes back from a restart, and on
the bytes where they lie, for what is read of them. What the first decode, the second read. -/
namespace WolfMqtt.Persist.Load

open Agree (bind_eq_ok ok_bind)
open Broker

/-! ### A body in its record -/

/-- A record with a body of this kind. -/
structure Framed (blob : Bytes) (kind : Ns) (body : Bytes) : Prop where
  short : blob.length < 4294967296
  header : scanHeader blob kind = .ok body.length
  inside : hdrLen + body.length ≤ blob.length
  body : (blob.drop hdrLen).take body.length = body

variable {blob body : Bytes} {kind : Ns}

theorem framed (hblob : blob.length < 4294967296) (h : readHeader blob kind = .ok body) : Framed blob kind body := by
  rw [scanHeader_eq hblob] at h
  cases hscan : scanHeader blob kind with
  | error e =>
    rw [hscan] at h
    cases e <;> cases h
  | ok bodyLen =>
    rw [hscan] at h
    obtain rfl := Except.ok.inj h
    have hin : hdrLen + bodyLen ≤ blob.length := (scanHeader_inside hblob kind).of_ok hscan
    have hlen : ((blob.drop hdrLen).take bodyLen).length = bodyLen := by
      rw [List.length_take, List.length_drop]
      omega
    exact ⟨hblob, by rw [hlen]; exact hscan, by rw [hlen]; exact hin, by rw [hlen]⟩

namespace Framed

theorem cut (h : Framed blob kind body) {off n : Nat} (hend : off + n ≤ body.length) :
    (blob.drop (hdrLen + off)).take n = (body.drop off).take n := by
  conv_rhs => rw [← h.body]
  rw [List.drop_take, List.drop_drop, List.take_take, Nat.min_eq_left (by omega)]

theorem readBytes (h : Framed blob kind body) {off n : Nat} (hend : off + n ≤ body.length) :
    WolfMqtt.readBytes blob (hdrLen + off) n = .ok ((body.drop off).take n) := by
  have hin := h.inside
  rw [readBytes_of_le (by omega), h.cut hend]

theorem readNumber (h : Framed blob kind body) {off w : Nat} (hend : off + w ≤ body.length) :
    Load.readNumber w blob (hdrLen + off) = .ok (BigEndian.read ((body.drop off).take w)) := by
  have hin := h.inside
  rw [readNumber_of_le (by omega), h.cut hend]

theorem readByte (h : Framed blob kind body) {off : Nat} (hend : off < body.length) :
    WolfMqtt.readByte blob (hdrLen + off) = .ok (body.getD off 0) := by
  have hin := h.inside
  have hbyte : blob[hdrLen + off]? = some (body.getD off 0) := by
    have hcut := congrArg List.head? (h.cut (show off + 1 ≤ body.length from hend))
    rw [List.drop_eq_getElem_cons (by omega), List.drop_eq_getElem_cons hend, List.take_succ_cons, List.take_succ_cons] at hcut
    rw [List.getElem?_eq_getElem (by omega), List.getD_eq_getElem?_getD, List.getElem?_eq_getElem hend]
    exact hcut
  rw [WolfMqtt.readByte, hbyte]

end Framed

/-! ### Sessions -/

/-- The fields that the decoder of a session record reads of one that comes back. -/
theorem sessionFields_of_decode (hblob : blob.length < 4294967296) {s : StoredSession} (h : decodeSession blob = .ok s) :
    ∃ bodyLen, scanHeader blob .session = .ok bodyLen ∧ 16 ≤ bodyLen ∧
      sessionFields blob bodyLen =
        .ok {level := s.level, expirySec := s.expirySec, orphanSince := s.orphanSince, cidLen := s.clientId.length} ∧
      WolfMqtt.readBytes blob cidPos s.clientId.length = .ok s.clientId := by
  obtain ⟨body, hbody, h⟩ := bind_eq_ok.mp h
  have hframed := framed hblob hbody
  split at h
  · cases h
  next hlen =>
  dsimp only at h
  split at h
  · cases h
  next hcid =>
  split at h
  · cases h
  next hexp =>
  obtain rfl := Except.ok.inj h
  have hsize : ((body.drop 16).take (BigEndian.read ((body.drop 14).take 2))).length =
      BigEndian.read ((body.drop 14).take 2) := by
    rw [List.length_take, List.length_drop]
    omega
  refine ⟨body.length, hframed.header, by omega, ?_, ?_⟩
  · have hlevel : WolfMqtt.readByte blob hdrLen = .ok (body.headD 0) := by
      rw [show hdrLen = hdrLen + 0 from rfl, hframed.readByte (by omega)]
      cases body <;> rfl
    rw [sessionFields, hlevel, ok_bind, hframed.readNumber (by omega), ok_bind, hframed.readNumber (by omega), ok_bind,
      hframed.readNumber (by omega), ok_bind, if_neg hcid, if_neg hexp]
    dsimp only
    rw [hsize]
  · rw [hsize]
    exact hframed.readBytes (by omega)

theorem sessionFields_eq_ok {bodyLen : Nat} {f : SessionFields} (h : sessionFields blob bodyLen = .ok f) :
    Load.readNumber 4 blob (hdrLen + 2) = .ok f.expirySec ∧ Load.readNumber 8 blob (hdrLen + 6) = .ok f.orphanSince ∧
      f.expirySec ≠ 0 := by
  obtain ⟨level, -, h⟩ := bind_eq_ok.mp h
  obtain ⟨expirySec, hexpiry, h⟩ := bind_eq_ok.mp h
  obtain ⟨orphanSince, hsince, h⟩ := bind_eq_ok.mp h
  obtain ⟨cidLen, -, h⟩ := bind_eq_ok.mp h
  split at h
  · cases h
  split at h
  · cases h
  next hnz =>
  obtain rfl := Except.ok.inj h
  exact ⟨hexpiry, hsince, hnz⟩

/-! ### Retained messages -/

theorem qosOfByte_ok {b : Nat} {q : QoS} (h : qosOfByte b = .ok q) : q.toNat = b := by
  unfold qosOfByte at h
  split at h <;> cases h <;> rfl

/-- The parts of a retained record that comes back: its fields, its topic, and the payload behind that. -/
theorem retainedFields_of_decode (hblob : blob.length < 4294967296) {L : Limits} {m : RetainedMsg}
    (h : decodeRetained L blob = .ok m) :
    ∃ end_ r, scanHeader blob .retained = .ok (end_ - hdrLen) ∧ end_ ≤ blob.length ∧ retainedFields blob end_ = .ok r ∧
      r.qos = m.qos.toNat ∧ toTime L r.storeTime = m.storeTime ∧ r.expirySec = m.expirySec ∧
      WolfMqtt.readBytes blob topicPos r.topicLen = .ok m.topic ∧
      Load.readNumber 4 blob (topicPos + r.topicLen) = .ok m.payload.length ∧
      topicPos + r.topicLen + 4 + m.payload.length ≤ end_ ∧
      WolfMqtt.readBytes blob (topicPos + r.topicLen + 4) m.payload.length = .ok m.payload := by
  obtain ⟨body, hbody, h⟩ := bind_eq_ok.mp h
  have hframed := framed hblob hbody
  have hin := hframed.inside
  have hmin : retainedBodyMin = 16 := rfl
  split at h
  · cases h
  next hlen =>
  obtain ⟨qos, hqos, h⟩ := bind_eq_ok.mp h
  dsimp only at h
  split at h
  · cases h
  next htopic =>
  split at h
  · cases h
  next hpayload =>
  obtain rfl := Except.ok.inj h
  generalize htl : BigEndian.read ((body.drop 14).take 2) = topicLen at htopic hpayload
  rw [List.length_drop] at htopic
  rw [List.length_drop, List.length_drop, List.length_drop] at hpayload
  rw [List.drop_drop] at hpayload
  rw [List.drop_drop, List.drop_drop]
  have hsize : ((body.drop (16 + topicLen + 4)).take (BigEndian.read ((body.drop (16 + topicLen)).take 4))).length =
      BigEndian.read ((body.drop (16 + topicLen)).take 4) := by
    rw [List.length_take, List.length_drop]
    omega
  refine ⟨hdrLen + body.length, ⟨(body.headD 0).toNat, BigEndian.read ((body.drop 2).take 8),
    BigEndian.read ((body.drop 10).take 4), topicLen⟩, ?_, hin, ?_, ?_, rfl, rfl, ?_, ?_, ?_, ?_⟩
  · rw [Nat.add_sub_cancel_left]
    exact hframed.header
  · have hfirst : WolfMqtt.readByte blob hdrLen = .ok (body.headD 0) := by
      rw [show hdrLen = hdrLen + 0 from rfl, hframed.readByte (by omega)]
      cases body <;> rfl
    rw [retainedFields, wordDiff_of_le (by omega) (by omega), if_neg (by omega), hfirst, ok_bind,
      hframed.readNumber (by omega), ok_bind, hframed.readNumber (by omega), ok_bind, hframed.readNumber (by omega), ok_bind,
      htl, wordDiff_of_le (by omega) (by omega), if_neg (by omega)]
  · exact (qosOfByte_ok hqos).symm
  all_goals dsimp only
  · exact hframed.readBytes (by omega)
  · rw [hsize, topicPos, Nat.add_assoc]
    exact hframed.readNumber (by omega)
  · rw [hsize, topicPos]
    omega
  · rw [hsize, topicPos, Nat.add_assoc, Nat.add_assoc, ← Nat.add_assoc 16]
    exact hframed.readBytes (by omega)

/-! ### Subscriptions -/

/-- The slot of a subscription that comes back. -/
def subSlotOf (clientId : Bytes) (s : BrokerSub) : SubSlot := {filter := s.filter, clientId, qos := s.qos.toNat}

theorem malloc_ok (b : Lists) (n : Nat) : malloc ⟨b, [], n⟩ = (.ok n, ⟨b, [], n + 1⟩) := rfl

/-- From `off` on in the body, while no allocation fails. -/
theorem subEntries_of_decode {key : Bytes} (h : Framed blob kind body) (count : Nat) : ∀ (off : Nat) (subs : List BrokerSub),
    off ≤ body.length → decodeSubEntries key count (body.drop off) = .ok subs → ∀ (b : Lists) (n : Nat),
    ∃ next, subEntries key blob (hdrLen + body.length) count (hdrLen + off) ⟨b, [], n⟩ =
      (.ok (subs.map (subSlotOf key)), ⟨b, [], next⟩) := by
  have hin := h.inside
  have hshort := h.short
  induction count with
  | zero =>
    intro off subs hoff hdec b n
    obtain rfl := Except.ok.inj hdec
    exact ⟨n, rfl⟩
  | succ count ih =>
    intro off subs hoff hdec b n
    rw [decodeSubEntries] at hdec
    split at hdec
    · cases hdec
    next hfour =>
    obtain ⟨qos, hqos, hdec⟩ := bind_eq_ok.mp hdec
    dsimp only at hdec
    split at hdec
    · cases hdec
    next hflen =>
    obtain ⟨rest, hrest, hdec⟩ := bind_eq_ok.mp hdec
    obtain rfl := Except.ok.inj hdec
    generalize hfl : BigEndian.read (((body.drop off).drop 2).take 2) = flen at hflen hrest ⊢
    rw [List.length_drop] at hfour
    rw [List.drop_drop, List.length_drop] at hflen
    rw [List.drop_drop, List.drop_drop, ← Nat.add_assoc] at hrest
    rw [List.drop_drop] at hfl ⊢
    have hfields : subFields blob (hdrLen + body.length) (hdrLen + off) = .ok (qos.toNat, flen) := by
      have hbyte : (body.drop off).headD 0 = body.getD off 0 := by
        rw [List.headD_eq_head?_getD, List.head?_drop, List.getD_eq_getElem?_getD]
      rw [hbyte] at hqos
      rw [subFields, wordDiff_of_le (by omega) (by omega), if_neg (by omega), h.readByte (by omega), ok_bind, Nat.add_assoc,
        h.readNumber (by omega), ok_bind, hfl, wordDiff_of_le (by omega) (by omega), if_neg (by omega), qosOfByte_ok hqos]
    have hfilter : WolfMqtt.readBytes blob (hdrLen + off + 4) flen = .ok ((body.drop (off + 4)).take flen) := by
      rw [Nat.add_assoc]
      exact h.readBytes (by omega)
    obtain ⟨next, hnext⟩ := ih (off + 4 + flen) rest (by omega) hrest b (n + 1 + 1 + 1)
    refine ⟨next, ?_⟩
    rw [subEntries, Attempt.run_lift_bind hfields]
    dsimp only
    rw [Attempt.run_bind_ok (malloc_ok b n), Attempt.run_bind_ok (malloc_ok b _), Attempt.run_lift_bind hfilter,
      Attempt.run_bind_ok (malloc_ok b _), Nat.add_assoc hdrLen, Nat.add_assoc hdrLen, Attempt.run_bind_ok hnext]
    rfl

/-- The entries of a subscription record that comes back. -/
theorem subEntries_of_decodeSubs (hblob : blob.length < 4294967296) {key : Bytes} {subs : List BrokerSub}
    (h : decodeSubs key blob = .ok subs) (b : Lists) (n : Nat) :
    ∃ bodyLen count next, scanHeader blob .subs = .ok bodyLen ∧ key ≠ [] ∧ 2 ≤ bodyLen ∧
      Load.readNumber 2 blob hdrLen = .ok count ∧
      subEntries key blob (hdrLen + bodyLen) count (hdrLen + 2) ⟨b, [], n⟩ =
        (.ok (subs.map (subSlotOf key)), ⟨b, [], next⟩) := by
  obtain ⟨body, hbody, h⟩ := bind_eq_ok.mp h
  have hframed := framed hblob hbody
  split at h
  · cases h
  next hkey =>
  split at h
  · cases h
  next hlen =>
  obtain ⟨next, hnext⟩ := subEntries_of_decode hframed _ 2 subs (by omega) h b n
  exact ⟨body.length, _, next, hframed.header, hkey, by omega, hframed.readNumber (show 0 + 2 ≤ body.length by omega), hnext⟩

/-! ### Queue entries -/

theorem stateOfByte_ok {b : Nat} {s : OutPubState} (h : stateOfByte b = .ok s) : (outPubStateCode s).toNat = b := by
  unfold stateOfByte at h
  split at h <;> cases h <;> rfl

/-- The entry of a queue record that comes back: a byte that stands for a flag is kept as it was stored. -/
theorem decodeOutq_of_decode (hblob : blob.length < 4294967296) {L : Limits} {key clientId : Bytes} {addr : Nat} {x : OutPub}
    (hkey : outqOwner key = .ok clientId) (h : decodeOutPub L addr blob = .ok x) :
    ∃ e, decodeOutq L key blob = .ok (clientId, e) ∧ e.topic = x.topic ∧ e.payload = x.payload ∧ e.qos = x.qos.toNat ∧
      e.packetId = x.packetId ∧ (e.retain ≠ 0 ↔ x.retain = true) ∧ e.state = (outPubStateCode x.state).toNat ∧
      (e.retransmitDup ≠ 0 ↔ x.retransmitDup = true) ∧ e.enqTime = x.enqTime ∧ e.enqueueSeq = x.enqueueSeq ∧
      e.expirySec = x.expirySec ∧ e.protocolLevel = x.protocolLevel := by
  obtain ⟨body, hbody, h⟩ := bind_eq_ok.mp h
  have hframed := framed hblob hbody
  have hin := hframed.inside
  have hmin : outqBodyMin = 30 := rfl
  split at h
  · cases h
  next hlen =>
  obtain ⟨state, hstate, h⟩ := bind_eq_ok.mp h
  obtain ⟨qos, hqos, h⟩ := bind_eq_ok.mp h
  dsimp only at h
  split at h
  · cases h
  next hdup =>
  split at h
  · cases h
  next hseq =>
  split at h
  · cases h
  next htopic =>
  split at h
  · cases h
  next hpayload =>
  obtain rfl := Except.ok.inj h
  generalize htl : BigEndian.read ((body.drop 28).take 2) = topicLen at htopic hpayload ⊢
  rw [List.length_drop] at htopic
  rw [List.length_drop, List.length_drop, List.length_drop, List.drop_drop] at hpayload
  rw [List.drop_drop, List.drop_drop]
  generalize hpl : BigEndian.read ((body.drop (30 + topicLen)).take 4) = payloadLen at hpayload ⊢
  have hfirst : WolfMqtt.readByte blob hdrLen = .ok (body.headD 0) := by
    rw [show hdrLen = hdrLen + 0 from rfl, hframed.readByte (by omega)]
    cases body <;> rfl
  obtain ⟨f, hf⟩ : ∃ f : QueueEntry, f =
      { addr := 0, topic := [], payload := [], qos := (body.getD 1 0).toNat
        packetId := BigEndian.read ((body.drop 6).take 2), retain := (body.getD 2 0).toNat, state := (body.headD 0).toNat
        retransmitDup := (body.getD 4 0).toNat, enqTime := toTime L (BigEndian.read ((body.drop 8).take 8))
        enqueueSeq := BigEndian.read ((body.drop 16).take 8), expirySec := BigEndian.read ((body.drop 24).take 4)
        protocolLevel := (body.getD 3 0).toNat } := ⟨_, rfl⟩
  have hfields : outqFields L blob (hdrLen + body.length) = .ok (f, topicLen) := by
    rw [hf, outqFields, hfirst, ok_bind, hframed.readByte (by omega), ok_bind, hframed.readByte (by omega), ok_bind,
      hframed.readByte (by omega), ok_bind, hframed.readByte (by omega), ok_bind, if_neg hdup, hframed.readNumber (by omega),
      ok_bind, hframed.readNumber (by omega), ok_bind, hframed.readNumber (by omega), ok_bind, if_neg hseq,
      hframed.readNumber (by omega), ok_bind, hframed.readNumber (by omega), ok_bind, htl,
      wordDiff_of_le (by omega) (by omega), if_neg (by omega)]
  have htopics : WolfMqtt.readBytes blob outqTopicPos topicLen = .ok ((body.drop 30).take topicLen) :=
    hframed.readBytes (by omega)
  have hlength : Load.readNumber 4 blob (outqTopicPos + topicLen) = .ok payloadLen := by
    rw [outqTopicPos, Nat.add_assoc, hframed.readNumber (by omega), hpl]
  have hbytes : (if payloadLen > 0 then WolfMqtt.readBytes blob (outqTopicPos + topicLen + 4) payloadLen else .ok []) =
      .ok ((body.drop (30 + topicLen + 4)).take payloadLen) := by
    split
    · rw [outqTopicPos, Nat.add_assoc, Nat.add_assoc, ← Nat.add_assoc 30]
      exact hframed.readBytes (by omega)
    next hnone => rw [Nat.eq_zero_of_not_pos hnone, List.take_zero]
  have hposition : outqTopicPos + topicLen + 4 = hdrLen + (30 + topicLen + 4) := by
    rw [outqTopicPos]
    omega
  have hflag (b : UInt8) : b.toNat ≠ 0 ↔ decide (b ≠ 0) = true := by
    rw [decide_eq_true_eq, ne_eq, ne_eq, ← UInt8.toNat_inj]
    rfl
  refine ⟨{f with topic := (body.drop 30).take topicLen, payload := (body.drop (30 + topicLen + 4)).take payloadLen}, ?_, rfl, rfl,
    ?_⟩
  · rw [decodeOutq, hkey, ok_bind, hframed.header, ok_bind, if_neg hlen]
    dsimp only
    rw [hfields, ok_bind]
    dsimp only
    rw [htopics, ok_bind, hlength, ok_bind, wordDiff_of_le (by omega) (by omega), if_neg (by omega), hbytes]
    rfl
  · subst hf
    exact ⟨(qosOfByte_ok hqos).symm, rfl, hflag _, (stateOfByte_ok hstate).symm, hflag _, rfl, rfl, rfl, rfl⟩

end WolfMqtt.Persist.Load
