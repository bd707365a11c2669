import WolfMqtt.Packet.Vbi
import WolfMqtt.Client.PublishOnce

/-! The packet a publish is to put on the wire, when a client may send it, and the first piece
`MqttEncode_Publish` makes of it. -/
namespace WolfMqtt
open Transfer

namespace MqttClient

/-! ### The packet -/

/-- The request as `MqttPublishMsg` encodes it: with the protocol level of the client. -/
def request (c : MqttClient) (p : MqttPublish) : Publish := {p.toPublish with protocolLevel := c.protocolLevel}

/-- The fixed header, for the Remaining Length of the whole packet, and the variable header. -/
def publishHead (c : MqttClient) (p : MqttPublish) : Bytes :=
  match publishVariable (c.request p) with
  | .ok vh => (encodeFixedHeader c.txBufLen (vh.length + p.totalLen : Nat) .publish p.retain p.qos p.duplicate).out ++ vh
  | .error _ => []

/-- The payload: what the buffer holds, or what the callback supplies. -/
def publishData (cb : Option PublishCb) (p : MqttPublish) : Bytes :=
  match cb with
  | some f => payloadFrom f p.bufferLen p.totalLen p.asked 0
  | none => (p.buffer.getD []).take p.totalLen

def publishPacket (c : MqttClient) (cb : Option PublishCb) (p : MqttPublish) : Bytes :=
  c.publishHead p ++ publishData cb p

/-- A packet has the size its Remaining Length announces. -/
def Announces (packet : Bytes) : Prop := ∃ remainLen n, decodeVbi packet.tail = .ok (remainLen, n) ∧
  packet.length = 1 + n + remainLen

/-- A PUBLISH that is to be sent, and a client that has room to send it. -/
structure Sendable (c : MqttClient) (cb : Option PublishCb) (p : MqttPublish) : Prop where
  fresh : p.stat.write = .begin
  idle : c.writer.isActive = false
  pos : c.writer.pos = 0
  sent : c.checkConnectSent = Code.success
  allowed : c.publishAllowed p.toPublish = Code.success
  encodes : ∃ vh, publishVariable (c.request p) = .ok vh ∧ vh.length + p.totalLen ≤ maxRemainLen
  /-- `tx_buf` is large enough for the header and the topic. -/
  room : maxLenBytes + 1 ≤ c.txBufLen ∧ (c.publishHead p).length ≤ c.txBufLen
  small : c.Small ((c.publishHead p).length + p.totalLen)
  /-- The buffer holds the payload. -/
  buffer : cb = none → p.bufferLen = p.totalLen ∨ p.bufferLen = 0
  holds : cb = none → p.totalLen = 0 ∨ ∃ b, p.buffer = some b ∧ b.length = p.totalLen
  /-- The callback has something each time it is asked. -/
  supplies : ∀ f, cb = some f → Supplies f p.bufferLen ∧ p.bufferPos ≤ p.totalLen

/-- The server's Receive Maximum has a unit for it, and its Packet Identifier is not in use. -/
structure Ready (c : MqttClient) (p : MqttPublish) : Prop where
  quota : c.protocolLevel ≥ level5 → p.qos ≠ .qos0 → 0 < c.serverRecvMax ∧ c.serverRecvMax ≤ c.serverRecvMaxNegotiated
  unused : p.qos ≠ .qos0 → p.duplicate = true ∨ SendIds.find c.sendInflight p.packetId = none

/-- With a callback the encoder takes no payload of length 0 beside a buffer. -/
def Encodable (cb : Option PublishCb) (p : MqttPublish) : Prop :=
  cb.isSome → p.totalLen ≠ 0 ∨ p.bufferLen = 0 ∨ p.buffer = none

/-- How much of the payload goes with the header. -/
def stagedLen (c : MqttClient) (cb : Option PublishCb) (p : MqttPublish) : Nat :=
  if cb.isSome then 0 else min p.totalLen (c.txBufLen - (c.publishHead p).length)

/-- The first piece. -/
def firstPiece (c : MqttClient) (cb : Option PublishCb) (p : MqttPublish) : Bytes :=
  c.publishHead p ++ (publishData cb p).take (c.stagedLen cb p)

section Packet
variable {c : MqttClient} {cb : Option PublishCb} {p : MqttPublish}

theorem encodeFixedHeader_ok {txLen remainLen : Nat} (hroom : maxLenBytes + 1 ≤ txLen) (hlen : remainLen ≤ maxRemainLen)
    (type : PacketType) (retain : Bool) (qos : QoS) (duplicate : Bool) :
    ∃ first, encodeFixedHeader txLen remainLen type retain qos duplicate =
      .done (first :: vbiBytes maxLenBytes remainLen) := by
  have hno : ¬txLen < maxLenBytes + 1 := by omega
  have hmod : ((remainLen : Int) % 4294967296).toNat = remainLen := by
    unfold maxRemainLen at hlen
    omega
  have hle : ¬remainLen > maxRemainLen := by omega
  simp only [encodeFixedHeader, hno, if_false, hmod, encodeVbi, hle]
  exact ⟨_, rfl⟩

theorem Sendable.word (h : Sendable c cb p) : p.totalLen < 2147483648 := by
  obtain ⟨vh, -, hlen⟩ := h.encodes
  unfold maxRemainLen at hlen
  omega

theorem Sendable.head (h : Sendable c cb p) :
    ∃ vh first, publishVariable (c.request p) = .ok vh ∧ vh.length + p.totalLen ≤ maxRemainLen ∧
      encodeFixedHeader c.txBufLen (vh.length + p.totalLen : Nat) .publish p.retain p.qos p.duplicate =
        .done (first :: vbiBytes maxLenBytes (vh.length + p.totalLen)) ∧
      c.publishHead p = first :: vbiBytes maxLenBytes (vh.length + p.totalLen) ++ vh := by
  obtain ⟨vh, hvh, hlen⟩ := h.encodes
  obtain ⟨first, hfirst⟩ := encodeFixedHeader_ok h.room.1 hlen .publish p.retain p.qos p.duplicate
  refine ⟨vh, first, hvh, hlen, hfirst, ?_⟩
  simp only [publishHead, hvh, hfirst]
  rfl

theorem Sendable.head_pos (h : Sendable c cb p) : 0 < (c.publishHead p).length := by
  obtain ⟨vh, first, -, -, -, hhead⟩ := h.head
  rw [hhead, List.cons_append, List.length_cons]
  omega

/-- The payload has as many bytes as the packet announces, if the callback has room for one at a time. -/
theorem Sendable.data_length (h : Sendable c cb p) (hroom : cb.isSome → 0 < p.bufferLen) :
    (publishData cb p).length = p.totalLen := by
  cases cb with
  | some f =>
    have := (h.supplies f rfl).1.length_payloadFrom (hroom rfl) p.totalLen p.asked 0
    simpa [publishData] using this
  | none =>
    rcases h.holds rfl with h0 | ⟨b, hb, hlen⟩
    · simp [publishData, h0]
    · simp [publishData, hb, hlen]

theorem Sendable.announces (h : Sendable c cb p) (hroom : cb.isSome → 0 < p.bufferLen) :
    Announces (c.publishPacket cb p) := by
  obtain ⟨vh, first, -, hlen, -, hhead⟩ := h.head
  have hpacket : c.publishPacket cb p =
      first :: (vbiBytes maxLenBytes (vh.length + p.totalLen) ++ (vh ++ publishData cb p)) := by
    rw [publishPacket, hhead]
    simp only [List.cons_append, List.append_assoc]
  refine ⟨vh.length + p.totalLen, (vbiBytes maxLenBytes (vh.length + p.totalLen)).length, ?_, ?_⟩
  · rw [hpacket, List.tail_cons]
    exact decodeVbi_vbiBytes hlen _
  · rw [hpacket]
    simp only [List.length_cons, List.length_append, h.data_length hroom]
    omega

theorem publishPacket_length_le (c : MqttClient) (cb : Option PublishCb) (p : MqttPublish) :
    (c.publishPacket cb p).length ≤ (c.publishHead p).length + p.totalLen := by
  have hdata : (publishData cb p).length ≤ p.totalLen := by
    cases cb with
    | none => exact List.length_take_le _ _
    | some f => exact length_supplied_le _ _ _
  rw [publishPacket, List.length_append]
  omega

/-! ### The encoder -/

/-- What `MqttEncode_Publish` makes of it: the header and as much of the payload as there is room for. -/
theorem Sendable.encode (h : Sendable c cb p) (hcb : Encodable cb p) :
    encodePublishStaged c.txBufLen (c.request p) cb.isSome =
      (⟨((c.firstPiece cb p).length : Nat), c.firstPiece cb p⟩, c.stagedLen cb p) := by
  obtain ⟨vh, first, hvh, hlen, hfirst, hhead⟩ := h.head
  have hword := h.word
  have htotal : (c.request p).totalLen = p.totalLen := rfl
  have hempty : ((c.request p).buffer.isSome && decide ((c.request p).bufferLen > 0) && decide ((c.request p).totalLen = 0)) = false := by
    have hor : p.totalLen ≠ 0 ∨ p.bufferLen = 0 ∨ p.buffer = none := by
      cases cb with
      | some f => exact hcb rfl
      | none =>
        rcases h.buffer rfl with hb | hb
        · by_cases h0 : p.totalLen = 0
          · exact .inr (.inl (hb.trans h0))
          · exact .inl h0
        · exact .inr (.inl hb)
    rcases hor with h0 | h0 | h0 <;> simp [request, h0]
  have hpayload : (if ((c.request p).buffer.isSome || cb.isSome) && decide ((c.request p).totalLen > 0) then
      toInt32 (c.request p).totalLen else 0) = (p.totalLen : Int) := by
    rw [htotal]
    by_cases h0 : p.totalLen = 0
    · simp [h0]
    · have hsome : ((c.request p).buffer.isSome || cb.isSome) = true := by
        cases cb with
        | some f => simp
        | none =>
          rcases h.holds rfl with h0' | ⟨b, hb, -⟩
          · exact absurd h0' h0
          · simp [request, hb]
      simp [hsome, Nat.pos_of_ne_zero h0, toInt32_of_lt hword]
  have hint : (vh.length + (p.totalLen : Int)) = ((vh.length + p.totalLen : Nat) : Int) := by omega
  have hused : (first :: vbiBytes maxLenBytes (vh.length + p.totalLen)).length + vh.length = (c.publishHead p).length := by
    rw [hhead, List.length_append]
  have hfits : ¬c.txBufLen < (c.publishHead p).length := not_lt.mpr h.room.2
  have hrc : ¬(Encoded.done (first :: vbiBytes maxLenBytes (vh.length + p.totalLen))).rc < 0 := by
    show ¬((_ : Nat) : Int) < 0
    omega
  have hheader : encodeFixedHeader c.txBufLen ((vh.length : Int) + p.totalLen) .publish (c.request p).retain
      (c.request p).qos (c.request p).duplicate = .done (first :: vbiBytes maxLenBytes (vh.length + p.totalLen)) := by
    rw [hint]
    exact hfirst
  rw [encodePublishStaged, hvh]
  simp only [hempty, Bool.false_eq_true, if_false, hpayload, hheader, hrc]
  have hout : (Encoded.done (first :: vbiBytes maxLenBytes (vh.length + p.totalLen))).out =
      first :: vbiBytes maxLenBytes (vh.length + p.totalLen) := rfl
  rw [hout, hused, if_neg hfits, ← hhead]
  cases cb with
  | some f => simp [firstPiece, stagedLen]
  | none =>
    simp only [Option.isSome_none, Bool.false_eq_true, if_false]
    by_cases h0 : p.totalLen = 0
    · simp [firstPiece, stagedLen, h0]
    · have hpos : (p.totalLen : Int) > 0 := by omega
      have hcopied : (if ((c.request p).bufferLen > 0 &&
          ((c.request p).bufferLen : Int) < min (p.totalLen : Int) (c.txBufLen - (c.publishHead p).length : Int)) then
            ((c.request p).bufferLen : Int) else min (p.totalLen : Int) (c.txBufLen - (c.publishHead p).length : Int)) =
          ((c.stagedLen none p : Nat) : Int) := by
        have hmin : min (p.totalLen : Int) (c.txBufLen - (c.publishHead p).length : Int) =
            ((c.stagedLen none p : Nat) : Int) := by
          simp only [stagedLen, Option.isSome_none, Bool.false_eq_true, if_false]
          omega
        rw [hmin]
        refine if_neg fun hlt => ?_
        have hle : c.stagedLen none p ≤ p.totalLen := by
          simp only [stagedLen, Option.isSome_none, Bool.false_eq_true, if_false]
          omega
        have hb : (c.request p).bufferLen = p.totalLen ∨ (c.request p).bufferLen = 0 := h.buffer rfl
        simp only [gt_iff_lt, Bool.and_eq_true, decide_eq_true_eq] at hlt
        omega
      rw [if_pos hpos, hcopied]
      obtain ⟨b, hb, hblen⟩ := (h.holds rfl).resolve_left h0
      have hdata : (c.request p).buffer.getD [] = publishData none p := by
        simp [request, publishData, hb, hblen]
      have hlen' : ((publishData none p).take (c.stagedLen none p)).length = c.stagedLen none p := by
        rw [List.length_take, h.data_length (fun h => absurd h (by simp))]
        simp only [stagedLen, Option.isSome_none, Bool.false_eq_true, if_false]
        omega
      rw [hdata]
      simp only [firstPiece, List.length_append, hlen', Int.toNat_natCast]
      norm_num

/-! ### `MQTT_MSG_BEGIN` -/

theorem staged_eq {p : MqttPublish} (hword : p.totalLen < 2147483648) (useCb : Bool) (copied : Nat) :
    p.staged useCb copied =
      {p with
        intBufPos := 0
        intBufLen := copied
        bufferPos := if !useCb && p.buffer.isSome && p.totalLen > 0 then copied else p.bufferPos
        bufferLen :=
          if (!useCb && p.buffer.isSome && p.totalLen > 0) = true ∧ p.bufferLen = 0 then p.totalLen else p.bufferLen} := by
  have hint : toInt32 p.totalLen > 0 ↔ p.totalLen > 0 := by
    rw [toInt32_of_lt hword]
    omega
  unfold MqttPublish.staged
  simp only [hint]
  by_cases h : (!useCb && p.buffer.isSome && decide (p.totalLen > 0)) = true
  · simp only [h, if_true, true_and]
  · rw [if_neg h, if_neg h, if_neg fun hcon => h hcon.1]

/-- A client that differs in what sending changes: the writer, the read state a cancel resets, the quota, the
reservations and the replay store. -/
def Kin (c c' : MqttClient) : Prop :=
  ∃ w active reader n ids slots ms, c' = {c with
    writer := w, readActive := active, reader := reader, serverRecvMax := n, sendInflight := ids, replay := slots
    mallocs := ms}

/-- The client and the object once the first piece is in `tx_buf`. -/
structure Begun (c : MqttClient) (k : Nat) (cb : Option PublishCb) (p : MqttPublish) (c₁ : MqttClient) (p₁ : MqttPublish) :
    Prop where
  kin : Kin c c₁
  writer : c₁.writer = {c.writer with
    isActive := true, txBuf := c.firstPiece cb p, len := (c.firstPiece cb p).length}
  max : c₁.serverRecvMax ≤ c.serverRecvMax ∧ c.serverRecvMax ≤ c₁.serverRecvMax + 1
  held : c₁.serverRecvMax < c.serverRecvMax → p₁.stat.recvQuotaHeld = true
  ids : c₁.sendInflight = c.sendInflight ∨
    c₁.sendInflight = (SendIds.reserve c.sendInflight p.packetId (.object k) p.duplicate (publishAckType p.qos)).2
  write : p₁.stat.write = .header
  toPublish : ∃ len, p₁.toPublish = {c.request p with bufferLen := len} ∧ (cb.isSome → len = p.bufferLen) ∧
    (cb = none → p.totalLen ≠ 0 → len = p.totalLen) ∧ (cb = none → len = p.totalLen ∨ len = 0)
  bufferPos : (cb.isSome → p₁.bufferPos = p.bufferPos) ∧
    (cb = none → p.totalLen ≠ 0 → p₁.bufferPos = c.stagedLen cb p)
  intBufPos : p₁.intBufPos = 0
  intBufLen : p₁.intBufLen = c.stagedLen cb p
  asked : p₁.asked = p.asked

/-- The reservation of an identifier is refused only for a new packet under one that is in use. -/
theorem reserve_cases (ids : List MqttSendId) (packetId : Nat) (owner : Owner) (isRetransmit : Bool)
    (ackType : PacketType) :
    (SendIds.reserve ids packetId owner isRetransmit ackType).1 = Code.success ∨
      ((SendIds.reserve ids packetId owner isRetransmit ackType).1 = Code.packetId ∧
        ¬(isRetransmit = true ∨ SendIds.find ids packetId = none)) := by
  unfold SendIds.reserve
  split
  · exact .inl rfl
  split
  · next i hi =>
    cases isRetransmit with
    | false => exact .inr ⟨rfl, by simp [hi]⟩
    | true => exact .inl rfl
  · split
    · exact .inl rfl
    · exact .inl rfl

theorem id_reserved (c : MqttClient) (qos : QoS) (packetId : Nat) (owner : Owner) (duplicate : Bool)
    (ackType : PacketType) :
    ((if qos = .qos0 then (0, c) else c.sendIdReserve packetId owner duplicate ackType).1 = Code.packetId ∧
        qos ≠ .qos0 ∧ ¬(duplicate = true ∨ SendIds.find c.sendInflight packetId = none)) ∨
      ∃ ids c', (if qos = .qos0 then (0, c) else c.sendIdReserve packetId owner duplicate ackType) = (0, c') ∧
        c' = {c with sendInflight := ids} ∧
        (ids = c.sendInflight ∨ ids = (SendIds.reserve c.sendInflight packetId owner duplicate ackType).2) := by
  by_cases hq : qos = .qos0
  · rw [if_pos hq]
    exact .inr ⟨c.sendInflight, c, rfl, rfl, .inl rfl⟩
  rw [if_neg hq, sendIdReserve]
  rcases reserve_cases c.sendInflight packetId owner duplicate ackType with hok | ⟨hno, hused⟩
  · exact .inr ⟨_, _, Prod.ext hok rfl, rfl, .inr rfl⟩
  · exact .inl ⟨hno, hq, hused⟩

/-- What the first step leaves when it cannot be made: an error, for which nothing is tried again. -/
def Refused : Stage → Prop
  | .ret rc => rc < 0 ∧ rc ≠ Code.continue ∧ rc ≠ Code.pubContinue
  | _ => False

/-- The unit of the Receive Maximum for a PUBLISH. -/
theorem quota_taken (c₁ : MqttClient) (stat₁ : MqttMsgStat) (level : Nat) (qos : QoS) :
    ((if level ≥ level5 ∧ qos ≠ .qos0 then c₁.recvQuotaReserve stat₁ else (true, c₁, stat₁)).1 = false ∧
        level ≥ level5 ∧ qos ≠ .qos0 ∧ c₁.serverRecvMax = 0) ∨
      ∃ c₂ stat₂, (if level ≥ level5 ∧ qos ≠ .qos0 then c₁.recvQuotaReserve stat₁ else (true, c₁, stat₁)) =
          (true, c₂, stat₂) ∧
        ∃ n held, c₂ = {c₁ with serverRecvMax := n} ∧ stat₂ = {stat₁ with recvQuotaHeld := held} ∧
          n ≤ c₁.serverRecvMax ∧ c₁.serverRecvMax ≤ n + 1 ∧ (n < c₁.serverRecvMax → held = true) := by
  by_cases hq : level ≥ level5 ∧ qos ≠ .qos0
  · rw [if_pos hq]
    by_cases hheld : stat₁.recvQuotaHeld = true
    · refine .inr ⟨c₁, stat₁, ?_, c₁.serverRecvMax, stat₁.recvQuotaHeld, rfl, rfl, by omega, by omega, by omega⟩
      rw [recvQuotaReserve, if_pos hheld]
    · by_cases hpos : c₁.serverRecvMax > 0
      · refine .inr ⟨_, _, ?_, c₁.serverRecvMax - 1, true, rfl, rfl, by omega, by omega, fun _ => rfl⟩
        rw [recvQuotaReserve, if_neg hheld, if_pos hpos]
      · refine .inl ⟨?_, hq.1, hq.2, by omega⟩
        rw [recvQuotaReserve, if_neg hheld, if_neg hpos]
  · rw [if_neg hq]
    exact .inr ⟨c₁, stat₁, rfl, c₁.serverRecvMax, stat₁.recvQuotaHeld, rfl, rfl, by omega, by omega, by omega⟩

/-- The first step of a PUBLISH: the first piece is in `tx_buf`, or it is refused for want of a unit, of
a free identifier, or of a payload. -/
theorem Sendable.begin (h : Sendable c cb p) (k : Nat) :
    (Refused (c.publishBegin k cb {p with protocolLevel := c.protocolLevel}).1 ∧ ¬(Ready c p ∧ Encodable cb p)) ∨
      ∃ c₁ p₁, c.publishBegin k cb {p with protocolLevel := c.protocolLevel} = (.next, c₁, p₁) ∧
        Begun c k cb p c₁ p₁ := by
  obtain ⟨c₁, stat₁, hstart, hc₁, hstat₁⟩ : ∃ c₁ stat₁, c.writeStart p.stat = (Code.success, c₁, stat₁) ∧
      c₁ = c.withWriter {c.writer with isActive := true} ∧ stat₁ = {p.stat with isWriteActive := true} := by
    refine ⟨_, _, ?_, rfl, rfl⟩
    simp only [writeStart, h.idle, Bool.false_eq_true, if_false]
    rfl
  have hok : Code.success = 0 := rfl
  have hlevel : c₁.protocolLevel = c.protocolLevel := by rw [hc₁]; rfl
  have hmax : c₁.serverRecvMax = c.serverRecvMax := by rw [hc₁]; rfl
  have hserver : Refused (.ret Code.serverProp) := ⟨by decide, by decide, by decide⟩
  have hreq : ({p with protocolLevel := c.protocolLevel} : MqttPublish).toPublish = c.request p := rfl
  have hle : c.stagedLen cb p ≤ p.totalLen := by
    unfold stagedLen
    split <;> omega
  rw [publishBegin]
  simp only [hstart, hok, ne_eq, not_true_eq_false, if_false, hlevel]
  rcases quota_taken c₁ stat₁ c.protocolLevel p.qos with
    ⟨hno, h5, hq, h0⟩ | ⟨c₂, stat₂, htaken, n, held, hc₂, hstat₂, hn, hn', hheld⟩
  · left
    simp only [ne_eq] at hno
    simp only [hno, Bool.not_false, if_true]
    refine ⟨hserver, fun hr => ?_⟩
    have := (hr.1.quota h5 hq).1
    omega
  simp only [ne_eq] at htaken
  have htx : c₂.txBufLen = c.txBufLen := by rw [hc₂, hc₁]; rfl
  simp only [htaken, Bool.not_true, Bool.false_eq_true, if_false, htx]
  by_cases hcb : Encodable cb p
  · have henc : encodePublishStaged c.txBufLen {p.toPublish with protocolLevel := c.protocolLevel} cb.isSome =
        (⟨((c.firstPiece cb p).length : Nat), c.firstPiece cb p⟩, c.stagedLen cb p) := h.encode hcb
    have hrc : ¬(((c.firstPiece cb p).length : Nat) : Int) ≤ 0 := by
      have := h.head_pos
      rw [firstPiece, List.length_append]
      omega
    have hsmall : ¬((c₂.fill (c.firstPiece cb p)).packetSzMax > 0 ∧ (p.totalLen > (c₂.fill (c.firstPiece cb p)).packetSzMax ∨
        ((c.firstPiece cb p).length : Int).toNat - c.stagedLen cb p > (c₂.fill (c.firstPiece cb p)).packetSzMax - p.totalLen)) := by
      have hsz : (c₂.fill (c.firstPiece cb p)).packetSzMax = c.packetSzMax := by rw [hc₂, hc₁]; rfl
      have hlen : (c.firstPiece cb p).length ≤ (c.publishHead p).length + c.stagedLen cb p := by
        rw [firstPiece, List.length_append, List.length_take]
        omega
      have := h.small
      unfold Small at this
      rw [hsz]
      omega
    simp only [henc, hrc, if_false, staged_eq, h.word, hsmall]
    rcases id_reserved ((c₂.fill (c.firstPiece cb p)).setLen ((c.firstPiece cb p).length : Int).toNat) p.qos p.packetId
      (.object k) p.duplicate (publishAckType p.qos) with ⟨hno, hq, hused⟩ | ⟨ids, c₃, hid, hc₃, hids⟩
    · left
      have hids : ((c₂.fill (c.firstPiece cb p)).setLen ((c.firstPiece cb p).length : Int).toNat).sendInflight =
          c.sendInflight := by
        rw [hc₂, hc₁]
        rfl
      rw [hids] at hused
      have h0 : ¬Code.packetId = 0 := by decide
      simp only [hno, h0, not_false_eq_true, if_true]
      exact ⟨⟨by decide, by decide, by decide⟩, fun hr => hused (hr.1.unused hq)⟩
    · right
      simp only [hid, not_true_eq_false, if_false]
      obtain ⟨c₄, hc₄, slots, ms, hslots⟩ : ∃ c₄, (if p.qos = .qos0 then c₃ else c₃.replayAdd
          {({p with protocolLevel := c.protocolLevel} : MqttPublish) with
            stat := stat₂
            intBufPos := 0
            intBufLen := c.stagedLen cb p
            bufferPos := if (!cb.isSome && p.buffer.isSome && p.totalLen > 0) = true then c.stagedLen cb p else p.bufferPos
            bufferLen :=
              if (!cb.isSome && p.buffer.isSome && p.totalLen > 0) = true ∧ p.bufferLen = 0 then p.totalLen
              else p.bufferLen}) = c₄ ∧ ∃ slots ms, c₄ = {c₃ with replay := slots, mallocs := ms} := by
        by_cases hq : p.qos = .qos0
        · exact ⟨c₃, if_pos hq, c₃.replay, c₃.mallocs, rfl⟩
        · exact ⟨_, if_neg hq, _, _, rfl⟩
      refine ⟨c₄, _, Prod.ext rfl (Prod.ext hc₄ rfl), ?_⟩
      have hsome : cb = none → p.totalLen ≠ 0 → p.buffer.isSome = true := by
        intro hcb h0
        obtain ⟨b, hb, -⟩ := (h.holds hcb).resolve_left h0
        rw [hb]
        rfl
      constructor
      case kin =>
        rw [hslots, hc₃, hc₂, hc₁]
        exact ⟨_, _, _, _, _, _, _, rfl⟩
      case writer =>
        rw [hslots, hc₃, hc₂, hc₁]
        rfl
      case max =>
        have hn₄ : c₄.serverRecvMax = n := by
          rw [hslots, hc₃, hc₂]
          rfl
        omega
      case held =>
        intro hlt
        have hn₄ : c₄.serverRecvMax = n := by
          rw [hslots, hc₃, hc₂]
          rfl
        show stat₂.recvQuotaHeld = true
        rw [hstat₂]
        exact hheld (by omega)
      case ids =>
        have hids₄ : c₄.sendInflight = ids := by rw [hslots, hc₃]
        have hids₂ : ((c₂.fill (c.firstPiece cb p)).setLen ((c.firstPiece cb p).length : Int).toNat).sendInflight =
            c.sendInflight := by
          rw [hc₂, hc₁]
          rfl
        rw [hids₄, ← hids₂]
        exact hids
      case write => rfl
      case toPublish =>
        refine ⟨_, rfl, fun hcb => ?_, fun hcb h0 => ?_, fun hcb => ?_⟩
        · simp [hcb]
        · have hb := h.buffer hcb
          simp only [hcb, hsome hcb h0, Option.isSome_none, Bool.not_false, Bool.true_and, gt_iff_lt,
            Nat.pos_of_ne_zero h0, decide_true, true_and]
          split <;> omega
        · have hb := h.buffer hcb
          split
          · exact .inl rfl
          · exact hb
      case bufferPos =>
        refine ⟨fun hcb => ?_, fun hcb h0 => ?_⟩
        · simp [hcb]
        · simp [hcb, hsome hcb h0, Nat.pos_of_ne_zero h0]
      case intBufPos => rfl
      case intBufLen => rfl
      case asked => rfl
  · left
    obtain ⟨hsome, h0, hb, hbuf⟩ : cb.isSome ∧ p.totalLen = 0 ∧ p.bufferLen ≠ 0 ∧ p.buffer ≠ none := by
      unfold Encodable at hcb
      push Not at hcb
      exact hcb
    obtain ⟨vh, hvh, -⟩ := h.encodes
    have henc : encodePublishStaged c.txBufLen {p.toPublish with protocolLevel := c.protocolLevel} cb.isSome =
        (.fail Code.badArg, 0) := by
      have hbad : ((c.request p).buffer.isSome && decide ((c.request p).bufferLen > 0) && decide ((c.request p).totalLen = 0)) = true := by
        simp [request, h0, Nat.pos_of_ne_zero hb, Option.isSome_iff_ne_none, hbuf]
      show encodePublishStaged c.txBufLen (c.request p) cb.isSome = _
      rw [encodePublishStaged, hvh]
      simp only [hbad, if_true]
    have hrc : (Encoded.fail Code.badArg).rc ≤ 0 := by decide
    simp only [henc, hrc, if_true]
    exact ⟨⟨by decide, by decide, by decide⟩, fun hr => hcb hr.2⟩

end Packet
end MqttClient
end WolfMqtt
