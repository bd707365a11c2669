import WolfMqtt.Persist.Restore

/-! Every record reads back as what was written. -/
namespace WolfMqtt.Persist

open Broker

/-! ### The header -/

theorem length_writeHeader (kind : Ns) (n : Nat) : (writeHeader kind n).length = hdrLen := by
  simp [writeHeader, magic, hdrLen]

/-- A record gives its body back, unless that is longer than the header can say. -/
theorem readHeader_frameRecord (kind : Ns) (body : Bytes) (h : body.length < 256 ^ 4) :
    readHeader (frameRecord kind body) kind = .ok body := by
  have hlen : (frameRecord kind body).length = hdrLen + body.length := by
    rw [frameRecord, List.length_append, length_writeHeader]
  have hbytes : frameRecord kind body = magic ++ (BigEndian.write 2 schemaVer ++
      ([kind.code, wrapMode] ++ (BigEndian.write 4 body.length ++ body))) := by
    simp only [frameRecord, writeHeader, List.append_assoc]
  have hmagic : (frameRecord kind body).take 4 = magic := by
    rw [hbytes]
    exact List.take_left' rfl
  have h4 : (frameRecord kind body).drop 4 =
      BigEndian.write 2 schemaVer ++ ([kind.code, wrapMode] ++ (BigEndian.write 4 body.length ++ body)) := by
    rw [hbytes]
    exact List.drop_left' rfl
  have h6 : (frameRecord kind body).drop 6 =
      [kind.code, wrapMode] ++ (BigEndian.write 4 body.length ++ body) := by
    rw [show 6 = 4 + 2 from rfl, ← List.drop_drop, h4, BigEndian.drop_write]
  have h7 : (frameRecord kind body).drop 7 = wrapMode :: (BigEndian.write 4 body.length ++ body) := by
    rw [show 7 = 6 + 1 from rfl, ← List.drop_drop, h6]
    rfl
  have h8 : (frameRecord kind body).drop 8 = BigEndian.write 4 body.length ++ body := by
    rw [show 8 = 7 + 1 from rfl, ← List.drop_drop, h7]
    rfl
  have h12 : (frameRecord kind body).drop hdrLen = body := by
    rw [show hdrLen = 8 + 4 from rfl, ← List.drop_drop, h8, BigEndian.drop_write]
  rw [readHeader, if_neg (by omega), if_neg (by rw [hmagic]; simp), h4, BigEndian.take_write,
    if_neg (by rw [BigEndian.read_write (by decide)]; simp), h6, if_neg (by simp), h7, if_neg (by simp), h8,
    BigEndian.take_write, BigEndian.read_write h, h12]
  dsimp only
  rw [if_neg (by omega), List.take_length]

/-! ### Sessions -/

theorem decodeSession_record {clientId : Bytes} {level expirySec orphanSince : Nat} (hid : clientId.length < 65536)
    (hlevel : level < 256) (hexp : expirySec < 256 ^ 4) (hnz : expirySec ≠ 0) (hsince : orphanSince < 256 ^ 8) :
    decodeSession (frameRecord .session (sessionBody clientId level expirySec orphanSince)) =
      .ok {clientId, level, expirySec, orphanSince} := by
  have hlen : (sessionBody clientId level expirySec orphanSince).length = 16 + clientId.length := by
    simp [sessionBody]
    omega
  have h2 : (sessionBody clientId level expirySec orphanSince).drop 2 = BigEndian.write 4 expirySec ++
      (BigEndian.write 8 orphanSince ++ (BigEndian.write 2 clientId.length ++ clientId)) := rfl
  have h6 : (sessionBody clientId level expirySec orphanSince).drop 6 =
      BigEndian.write 8 orphanSince ++ (BigEndian.write 2 clientId.length ++ clientId) := by
    rw [show 6 = 2 + 4 from rfl, ← List.drop_drop, h2, BigEndian.drop_write]
  have h14 : (sessionBody clientId level expirySec orphanSince).drop 14 =
      BigEndian.write 2 clientId.length ++ clientId := by
    rw [show 14 = 6 + 8 from rfl, ← List.drop_drop, h6, BigEndian.drop_write]
  have h16 : (sessionBody clientId level expirySec orphanSince).drop 16 = clientId := by
    rw [show 16 = 14 + 2 from rfl, ← List.drop_drop, h14, BigEndian.drop_write]
  have hcid : BigEndian.read (BigEndian.write 2 clientId.length) = clientId.length := BigEndian.read_write hid
  have hbyte : ((sessionBody clientId level expirySec orphanSince).headD 0).toNat = level := by
    show (UInt8.ofNat level).toNat = level
    rw [UInt8.toNat_ofNat', Nat.mod_eq_of_lt hlevel]
  rw [decodeSession, readHeader_frameRecord _ _ (by omega)]
  simp only [bind, Except.bind, h2, h6, h14, h16, BigEndian.take_write, BigEndian.read_write hexp,
    BigEndian.read_write hsince, hcid, hbyte, List.take_length]
  rw [if_neg (by omega), if_neg (by omega), if_neg hnz]

/-! ### Topics and payloads -/

theorem take_mod_length (s : Bytes) (h : s.length < 65536) : s.take (s.length % 65536) = s := by
  rw [Nat.mod_eq_of_lt h, List.take_length]

theorem qosOfByte_toNat (q : QoS) : qosOfByte (UInt8.ofNat q.toNat).toNat = .ok q := by
  cases q <;> rfl

theorem stateOfByte_code (s : OutPubState) : stateOfByte (outPubStateCode s).toNat = .ok s := by
  cases s <;> rfl

/-! ### Retained messages -/

/-- What a retained message has to keep to for its record to hold it. -/
structure Storable (L : Limits) (m : RetainedMsg) : Prop where
  topic : m.topic.length < 65536
  payload : m.payload.length ≤ maxRemainLen
  storeTime : m.storeTime < 2 ^ L.timeBits
  expiry : m.expirySec < 256 ^ 4
  named : m.topic ≠ []

theorem decodeRetained_record {L : Limits} {m : RetainedMsg} (hL : L.timeBits ≤ 64) (h : Storable L m) :
    decodeRetained L (frameRecord .retained (retainedBody m)) = .ok m := by
  have htopic := h.topic
  have hpayload : m.payload.length ≤ 268435455 := h.payload
  have htime : m.storeTime < 256 ^ 8 :=
    Nat.lt_of_lt_of_le h.storeTime (show 2 ^ L.timeBits ≤ 2 ^ 64 from Nat.pow_le_pow_right (by decide) hL)
  have hbody : retainedBody m = [UInt8.ofNat m.qos.toNat, 0] ++ (BigEndian.write 8 m.storeTime ++
      (BigEndian.write 4 m.expirySec ++ (BigEndian.write 2 m.topic.length ++ (m.topic ++
        (BigEndian.write 4 m.payload.length ++ m.payload))))) := by
    rw [retainedBody, take_mod_length _ htopic]
  have hlen : (retainedBody m).length = 20 + m.topic.length + m.payload.length := by
    rw [hbody]
    simp
    omega
  have h2 : (retainedBody m).drop 2 = BigEndian.write 8 m.storeTime ++ (BigEndian.write 4 m.expirySec ++
      (BigEndian.write 2 m.topic.length ++ (m.topic ++ (BigEndian.write 4 m.payload.length ++ m.payload)))) := by
    rw [hbody]
    rfl
  have h10 : (retainedBody m).drop 10 = BigEndian.write 4 m.expirySec ++
      (BigEndian.write 2 m.topic.length ++ (m.topic ++ (BigEndian.write 4 m.payload.length ++ m.payload))) := by
    rw [show 10 = 2 + 8 from rfl, ← List.drop_drop, h2, BigEndian.drop_write]
  have h14 : (retainedBody m).drop 14 =
      BigEndian.write 2 m.topic.length ++ (m.topic ++ (BigEndian.write 4 m.payload.length ++ m.payload)) := by
    rw [show 14 = 10 + 4 from rfl, ← List.drop_drop, h10, BigEndian.drop_write]
  have h16 : (retainedBody m).drop 16 = m.topic ++ (BigEndian.write 4 m.payload.length ++ m.payload) := by
    rw [show 16 = 14 + 2 from rfl, ← List.drop_drop, h14, BigEndian.drop_write]
  have hqos : qosOfByte ((retainedBody m).headD 0).toNat = .ok m.qos := qosOfByte_toNat m.qos
  have htl : BigEndian.read (BigEndian.write 2 m.topic.length) = m.topic.length := BigEndian.read_write htopic
  have hpl : BigEndian.read (BigEndian.write 4 m.payload.length) = m.payload.length :=
    BigEndian.read_write (by omega)
  have hmod : toTime L m.storeTime = m.storeTime := Nat.mod_eq_of_lt h.storeTime
  rw [decodeRetained, readHeader_frameRecord _ _ (by omega)]
  simp only [bind, Except.bind, hqos, h2, h10, h14, h16, BigEndian.take_write, BigEndian.drop_write,
    BigEndian.read_write htime, BigEndian.read_write h.expiry, htl, hpl, hmod, List.take_left, List.drop_left,
    List.take_length]
  rw [if_neg (by unfold retainedBodyMin; omega), if_neg (by simp), if_neg (by omega)]

/-- The expiry test on a record is the test on the message. -/
theorem retainedExpired_record {L : Limits} {m : RetainedMsg} (hL : L.timeBits ≤ 64) (h : Storable L m) (now : Nat) :
    retainedExpired L now (frameRecord .retained (retainedBody m)) = messageExpired L now m.storeTime m.expirySec := by
  have htopic := h.topic
  have hpayload : m.payload.length ≤ 268435455 := h.payload
  have htime : m.storeTime < 256 ^ 8 :=
    Nat.lt_of_lt_of_le h.storeTime (show 2 ^ L.timeBits ≤ 2 ^ 64 from Nat.pow_le_pow_right (by decide) hL)
  have hlen : (retainedBody m).length = 20 + m.topic.length + m.payload.length := by
    rw [retainedBody, take_mod_length _ htopic]
    simp
    omega
  have h2 : (retainedBody m).drop 2 = BigEndian.write 8 m.storeTime ++ (BigEndian.write 4 m.expirySec ++
      (BigEndian.write 2 m.topic.length ++ (m.topic.take (m.topic.length % 65536) ++
        (BigEndian.write 4 m.payload.length ++ m.payload)))) := rfl
  have h10 : (retainedBody m).drop 10 = BigEndian.write 4 m.expirySec ++
      (BigEndian.write 2 m.topic.length ++ (m.topic.take (m.topic.length % 65536) ++
        (BigEndian.write 4 m.payload.length ++ m.payload))) := by
    rw [show 10 = 2 + 8 from rfl, ← List.drop_drop, h2, BigEndian.drop_write]
  have hmin : retainedBodyMin ≤ (retainedBody m).length := by
    unfold retainedBodyMin
    omega
  rw [retainedExpired, readHeader_frameRecord _ _ (by omega)]
  simp only [h2, h10, BigEndian.take_write, BigEndian.read_write htime, BigEndian.read_write h.expiry, hmin,
    decide_true, Bool.true_and]

/-! ### Subscriptions -/

/-- A subscription as it stands while its client is away. -/
def offlineSub (clientId : Bytes) (filter : Bytes) (qos : QoS) : BrokerSub :=
  {filter, clientId := some clientId, client := none, qos}

theorem decodeSubEntries_record (clientId : Bytes) (subs : List BrokerSub) (hlen : ∀ s ∈ subs, s.filter.length < 65536) :
    decodeSubEntries clientId subs.length (subs.map subEntry).flatten =
      .ok (subs.map (fun s => offlineSub clientId s.filter s.qos)) := by
  induction subs with
  | nil => rfl
  | cons s subs ih =>
    have hs := hlen s List.mem_cons_self
    have hbytes : ((s :: subs).map subEntry).flatten = [UInt8.ofNat s.qos.toNat, 0] ++
        (BigEndian.write 2 s.filter.length ++ (s.filter ++ (subs.map subEntry).flatten)) := by
      rw [List.map_cons, List.flatten_cons, subEntry, take_mod_length _ hs]
      simp only [List.append_assoc]
    have h2 : (((s :: subs).map subEntry).flatten).drop 2 =
        BigEndian.write 2 s.filter.length ++ (s.filter ++ (subs.map subEntry).flatten) := by
      rw [hbytes]
      rfl
    have h4 : (((s :: subs).map subEntry).flatten).drop 4 = s.filter ++ (subs.map subEntry).flatten := by
      rw [show 4 = 2 + 2 from rfl, ← List.drop_drop, h2, BigEndian.drop_write]
    have hqos : qosOfByte ((((s :: subs).map subEntry).flatten).headD 0).toNat = .ok s.qos := by
      rw [hbytes]
      exact qosOfByte_toNat s.qos
    have hfl : BigEndian.read (BigEndian.write 2 s.filter.length) = s.filter.length := BigEndian.read_write hs
    have hall : 4 ≤ (((s :: subs).map subEntry).flatten).length := by
      rw [hbytes]
      simp
    generalize ((s :: subs).map subEntry).flatten = buf at h2 h4 hqos hall
    rw [List.length_cons, decodeSubEntries]
    simp only [bind, Except.bind, hqos, h2, h4, BigEndian.take_write, hfl, List.take_left, List.drop_left,
      ih (fun t ht => hlen t (List.mem_cons_of_mem s ht)), offlineSub, List.map_cons]
    rw [if_neg (by omega), if_neg (by simp)]

theorem decodeSubs_record {clientId : Bytes} {subs : List BrokerSub} (hid : clientId ≠ [])
    (hcount : subs.length < 65536) (hlen : ∀ s ∈ subs, s.filter.length < 65536)
    (hbody : (subsBody subs).length < 256 ^ 4) :
    decodeSubs clientId (frameRecord .subs (subsBody subs)) =
      .ok (subs.map (fun s => offlineSub clientId s.filter s.qos)) := by
  have h2 : (subsBody subs).take 2 = BigEndian.write 2 subs.length := BigEndian.take_write _ _ _
  have h2' : (subsBody subs).drop 2 = (subs.map subEntry).flatten := BigEndian.drop_write _ _ _
  have hmin : 2 ≤ (subsBody subs).length := by
    simp [subsBody]
  have hread : BigEndian.read (BigEndian.write 2 subs.length) = subs.length := BigEndian.read_write hcount
  rw [decodeSubs, readHeader_frameRecord _ _ hbody]
  simp only [bind, Except.bind, h2, h2', hread, decodeSubEntries_record clientId subs hlen]
  rw [if_neg hid, if_neg (by omega)]

/-! ### Queue entries -/

/-- What a queue entry has to keep to for its record to hold it: the widths of its fields, a QoS above 0, and a
sequence of its own. -/
structure Queueable (L : Limits) (e : OutPub) : Prop where
  qos : e.qos ≠ .qos0
  seq : e.enqueueSeq ≠ 0
  seqWidth : e.enqueueSeq < 256 ^ 8
  packetId : e.packetId < 65536
  level : e.protocolLevel < 256
  enqTime : e.enqTime < 2 ^ L.timeBits
  expiry : e.expirySec < 256 ^ 4
  topic : e.topic.length < 65536
  payload : e.payload.length ≤ maxRemainLen

/-- The entry as it comes back: at another address, and without its v5 properties. -/
def restoredEntry (addr : Nat) (e : OutPub) : OutPub := {e with addr, props := []}

theorem boolByte_ne_zero (b : Bool) : decide (b.toUInt8 ≠ 0) = b := by
  cases b <;> rfl

theorem decodeOutPub_record {L : Limits} {e : OutPub} (hL : L.timeBits ≤ 64) (h : Queueable L e) (addr : Nat) :
    decodeOutPub L addr (frameRecord .outq (outPubBody e)) = .ok (restoredEntry addr e) := by
  have htopic := h.topic
  have hpayload : e.payload.length ≤ 268435455 := h.payload
  have htime : e.enqTime < 256 ^ 8 :=
    Nat.lt_of_lt_of_le h.enqTime (show 2 ^ L.timeBits ≤ 2 ^ 64 from Nat.pow_le_pow_right (by decide) hL)
  have hbody : outPubBody e = [outPubStateCode e.state, UInt8.ofNat e.qos.toNat, e.retain.toUInt8,
      UInt8.ofNat e.protocolLevel, e.retransmitDup.toUInt8, 0] ++ (BigEndian.write 2 e.packetId ++
        (BigEndian.write 8 e.enqTime ++ (BigEndian.write 8 e.enqueueSeq ++ (BigEndian.write 4 e.expirySec ++
          (BigEndian.write 2 e.topic.length ++ (e.topic ++ (BigEndian.write 4 e.payload.length ++ e.payload))))))) := by
    rw [outPubBody, take_mod_length _ htopic]
  have hlen : (outPubBody e).length = 34 + e.topic.length + e.payload.length := by
    rw [hbody]
    simp
    omega
  have h6 : (outPubBody e).drop 6 = BigEndian.write 2 e.packetId ++
        (BigEndian.write 8 e.enqTime ++ (BigEndian.write 8 e.enqueueSeq ++ (BigEndian.write 4 e.expirySec ++
          (BigEndian.write 2 e.topic.length ++ (e.topic ++ (BigEndian.write 4 e.payload.length ++ e.payload)))))) := by
    rw [hbody]
    rfl
  have h8 : (outPubBody e).drop 8 = BigEndian.write 8 e.enqTime ++ (BigEndian.write 8 e.enqueueSeq ++
      (BigEndian.write 4 e.expirySec ++ (BigEndian.write 2 e.topic.length ++
        (e.topic ++ (BigEndian.write 4 e.payload.length ++ e.payload))))) := by
    rw [show 8 = 6 + 2 from rfl, ← List.drop_drop, h6, BigEndian.drop_write]
  have h16 : (outPubBody e).drop 16 = BigEndian.write 8 e.enqueueSeq ++ (BigEndian.write 4 e.expirySec ++
      (BigEndian.write 2 e.topic.length ++ (e.topic ++ (BigEndian.write 4 e.payload.length ++ e.payload)))) := by
    rw [show 16 = 8 + 8 from rfl, ← List.drop_drop, h8, BigEndian.drop_write]
  have h24 : (outPubBody e).drop 24 = BigEndian.write 4 e.expirySec ++
      (BigEndian.write 2 e.topic.length ++ (e.topic ++ (BigEndian.write 4 e.payload.length ++ e.payload))) := by
    rw [show 24 = 16 + 8 from rfl, ← List.drop_drop, h16, BigEndian.drop_write]
  have h28 : (outPubBody e).drop 28 =
      BigEndian.write 2 e.topic.length ++ (e.topic ++ (BigEndian.write 4 e.payload.length ++ e.payload)) := by
    rw [show 28 = 24 + 4 from rfl, ← List.drop_drop, h24, BigEndian.drop_write]
  have h30 : (outPubBody e).drop 30 = e.topic ++ (BigEndian.write 4 e.payload.length ++ e.payload) := by
    rw [show 30 = 28 + 2 from rfl, ← List.drop_drop, h28, BigEndian.drop_write]
  have hstate : stateOfByte ((outPubBody e).headD 0).toNat = .ok e.state := stateOfByte_code e.state
  have hqos : qosOfByte ((outPubBody e).getD 1 0).toNat = .ok e.qos := qosOfByte_toNat e.qos
  have hretain : (outPubBody e).getD 2 0 = e.retain.toUInt8 := rfl
  have hlevel : ((outPubBody e).getD 3 0).toNat = e.protocolLevel := by
    show (UInt8.ofNat e.protocolLevel).toNat = e.protocolLevel
    rw [UInt8.toNat_ofNat', Nat.mod_eq_of_lt h.level]
  have hdup : (outPubBody e).getD 4 0 = e.retransmitDup.toUInt8 := rfl
  have hdup1 : ¬ e.retransmitDup.toUInt8 > 1 := by
    cases e.retransmitDup <;> decide
  have hpid : BigEndian.read (BigEndian.write 2 e.packetId) = e.packetId := BigEndian.read_write h.packetId
  have htl : BigEndian.read (BigEndian.write 2 e.topic.length) = e.topic.length := BigEndian.read_write htopic
  have hpl : BigEndian.read (BigEndian.write 4 e.payload.length) = e.payload.length :=
    BigEndian.read_write (by omega)
  have hmod : toTime L e.enqTime = e.enqTime := Nat.mod_eq_of_lt h.enqTime
  rw [decodeOutPub, readHeader_frameRecord _ _ (by omega)]
  simp only [bind, Except.bind, hstate, hqos, hretain, hlevel, hdup, h6, h8, h16, h24, h28, h30,
    BigEndian.take_write, BigEndian.drop_write, BigEndian.read_write htime, BigEndian.read_write h.seqWidth,
    BigEndian.read_write h.expiry, hpid, htl, hpl, hmod, List.take_left, List.drop_left, List.take_length,
    boolByte_ne_zero]
  rw [if_neg (by unfold outqBodyMin; omega), if_neg hdup1, if_neg h.seq, if_neg (by simp), if_neg (by omega)]
  rfl

end WolfMqtt.Persist
