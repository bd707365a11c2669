import WolfMqtt.Client.PublishAll

/-! Calling `MqttClient_Publish` until the PUBLISH is out. -/
namespace WolfMqtt
open Transfer
namespace MqttClient

/-- A return value that asks for the call to be repeated. -/
def Again (r : Option Int) : Prop := r = some Code.continue ∨ r = some Code.pubContinue

/-- The whole PUBLISH is out, without an error. -/
def IsSent (r : Option Int) : Prop := r = none ∨ r = some Code.success

/-- One call for the object `k`. -/
def publishCall (k : Nat) (cb : Option PublishCb) (s : MqttClient × MqttPublish) :
    Option Int × MqttClient × MqttPublish :=
  s.1.publishMsgWrite k cb s.2

/-- The client and the object after `n` calls. -/
def afterCalls (k : Nat) (cb : Option PublishCb) (n : Nat) (s : MqttClient × MqttPublish) : MqttClient × MqttPublish :=
  (fun s => (publishCall k cb s).2)^[n] s

/-- Repeating the call as often as it asks for it ends with the PUBLISH out: the bytes written are its
header and its payload, of the size the Remaining Length announces. -/
def SendsWhole (k : Nat) (cb : Option PublishCb) (c : MqttClient) (p : MqttPublish) : Prop :=
  ∃ n, (∀ m < n, Again (publishCall k cb (afterCalls k cb m (c, p))).1) ∧
    IsSent (publishCall k cb (afterCalls k cb n (c, p))).1 ∧
    (publishCall k cb (afterCalls k cb n (c, p))).2.1.writer.wire = c.writer.wire ++ c.publishPacket cb p ∧
    Announces (c.publishPacket cb p)

theorem Again.not_sent {r : Option Int} (h : Again r) : ¬IsSent r := by
  unfold Again IsSent at *
  rintro (hs | hs) <;> rcases h with h | h <;> rw [h] at hs <;> revert hs <;> decide

theorem afterCalls_succ (k : Nat) (cb : Option PublishCb) (n : Nat) (s : MqttClient × MqttPublish) :
    afterCalls k cb (n + 1) s = afterCalls k cb n (publishCall k cb s).2 := rfl

theorem publishCall_from {cb : Option PublishCb} {s s' : MqttClient × MqttPublish} (k : Nat)
    (h : publishCall k cb s = publishCall k cb s') (m : Nat) :
    publishCall k cb (afterCalls k cb m s) = publishCall k cb (afterCalls k cb m s') := by
  cases m with
  | zero => exact h
  | succ m => rw [afterCalls_succ, afterCalls_succ, h]

section Call
variable {c : MqttClient} {cb : Option PublishCb} {p : MqttPublish}

/-- What a call makes of the way the switch was left. -/
def returned : Stage × MqttClient × MqttPublish → Option Int × MqttClient × MqttPublish
  | (.ret rc, c, p) => (some rc, c, p)
  | (.brk rc, c, p) => (some (c.publishDone p rc).1, (c.publishDone p rc).2)
  | (.next, c, p) => (none, c, p)

/-- A call of a client that may publish. -/
theorem publishMsgWrite_eq (k : Nat) (hsent : c.checkConnectSent = Code.success)
    (hallowed : c.publishAllowed p.toPublish = Code.success) :
    c.publishMsgWrite k cb p = returned (c.publishWrite k cb {p with protocolLevel := c.protocolLevel}) := by
  have hallowed' : c.publishAllowed {p.toPublish with protocolLevel := c.protocolLevel} = Code.success := hallowed
  simp only [publishMsgWrite, hsent, hallowed', ne_eq, not_true_eq_false, if_false]
  rfl

/-! ### A nonblocking publish -/

/-- A call in the middle of a nonblocking publish. -/
theorem publishMsgWrite_turned {due : Bytes} (k : Nat) (hnb : c.nonblock = true)
    (hnet : Answers Code.continue c.netWrite) (hs : Steady c cb p) (h : InFlight c cb p due) :
    (∃ r w p' due', c.publishMsgWrite k cb p = (r, c.withWriter w, p') ∧ Again r ∧ Steady (c.withWriter w) cb p' ∧
        InFlight (c.withWriter w) cb p' due' ∧ w.wire ++ due' = c.writer.wire ++ due ∧ Moved c.netWrite c.writer w) ∨
      (IsSent (c.publishMsgWrite k cb p).1 ∧ (c.publishMsgWrite k cb p).2.1.writer.wire = c.writer.wire ++ due) := by
  have hlevel : ({p with protocolLevel := c.protocolLevel} : MqttPublish) = p := by rw [← hs.level]
  rw [publishMsgWrite_eq k hs.sent hs.allowed, hlevel]
  generalize hr : c.publishWrite k cb p = r
  have hturned := publishWrite_turned k hnb hnet hs h
  rw [hr] at hturned
  cases hturned with
  | @again rc w p' due' hrc hsteady hflight hdue hmoved =>
    refine .inl ⟨some rc, w, p', due', rfl, ?_, hsteady, hflight, hdue, hmoved⟩
    rcases hrc with rfl | rfl
    · exact .inl rfl
    · exact .inr rfl
  | @out stage c' p' hstage hwire =>
    right
    rcases hstage with rfl | ⟨rc, hrc, rfl⟩
    · exact ⟨.inl rfl, hwire⟩
    · refine ⟨.inr ?_, hwire⟩
      show some (if rc > 0 then Code.success else rc) = some Code.success
      split
      · rfl
      · congr 1
        have : Code.success = 0 := rfl
        omega

/-- The first piece is in `tx_buf`. -/
theorem Begun.piece {c₁ : MqttClient} {p₁ : MqttPublish} {k : Nat} (h : Sendable c cb p) (hb : Begun c k cb p c₁ p₁) :
    p₁.stat.write = .header ∧ c₁.writer.len = (c.firstPiece cb p).length ∧ c₁.writer.txBuf = c.firstPiece cb p ∧
      c₁.Small (c.firstPiece cb p).length ∧ c₁.writer.pos < (c.firstPiece cb p).length := by
  have hle : c.stagedLen cb p ≤ p.totalLen := by
    unfold stagedLen
    split <;> omega
  have hlen : (c.firstPiece cb p).length ≤ (c.publishHead p).length + c.stagedLen cb p := by
    rw [firstPiece, List.length_append, List.length_take]
    omega
  have hpiece : 0 < (c.firstPiece cb p).length := by
    have := h.head_pos
    rw [firstPiece, List.length_append]
    omega
  have hkin : c₁.packetSzMax = c.packetSzMax := by
    obtain ⟨_, _, _, _, _, _, _, hc₁⟩ := hb.kin
    rw [hc₁]
  refine ⟨hb.write, ?_, ?_, ?_, ?_⟩
  · rw [hb.writer]
  · rw [hb.writer]
  · have := h.small
    unfold Small at *
    rw [hkin]
    omega
  · rw [hb.writer]
    show c.writer.pos < _
    rw [h.pos]
    exact hpiece

/-- Once the first piece is in `tx_buf`, the whole packet is due. -/
theorem Begun.inFlight {c₁ : MqttClient} {p₁ : MqttPublish} {k : Nat} (h : Sendable c cb p) (hb : Begun c k cb p c₁ p₁)
    (hnone : cb = none → p.totalLen = 0 ∨ (c.publishHead p).length < c.txBufLen)
    (hsome : cb.isSome → p.bufferPos = 0 ∧ 0 < p.totalLen) : InFlight c₁ cb p₁ (c.publishPacket cb p) := by
  obtain ⟨len, hreq, hlen, hlen', -⟩ := hb.toPublish
  obtain ⟨hwrite, hwlen, hbuf, hsmall, hlt⟩ := hb.piece h
  have hw : c₁.writer.pos = 0 := by
    rw [hb.writer]
    exact h.pos
  have htotal : p₁.totalLen = p.totalLen := by rw [hreq]; rfl
  cases cb with
  | none =>
    obtain ⟨b, hpbuf, hblen⟩ : ∃ b, (p.totalLen ≠ 0 → p.buffer = some b) ∧ b.length = p.totalLen := by
      by_cases h0 : p.totalLen = 0
      · exact ⟨[], fun hne => absurd h0 hne, h0.symm⟩
      · obtain ⟨b, hb, hlen⟩ := (h.holds rfl).resolve_left h0
        exact ⟨b, fun _ => hb, hlen⟩
    have hdata : publishData none p = b := by
      by_cases h0 : p.totalLen = 0
      · have hnil : b = [] := List.eq_nil_of_length_eq_zero (hblen.trans h0)
        simp [publishData, h0, hnil]
      · simp [publishData, hpbuf h0, ← hblen]
    have hpacket : c.publishPacket none p = (c.firstPiece none p).drop c₁.writer.pos ++ b.drop p₁.bufferPos := by
      rw [hw, List.drop_zero, firstPiece, publishPacket, hdata, List.append_assoc]
      by_cases h0 : p.totalLen = 0
      · have hnil : b = [] := List.eq_nil_of_length_eq_zero (hblen.trans h0)
        simp [hnil]
      · rw [hb.bufferPos.2 rfl h0, List.take_append_drop]
    rw [hpacket]
    refine .header rfl hwrite hwlen hbuf hsmall hlt (fun h0 => ?_) hb.intBufPos (fun h0 => ?_) (hblen.trans htotal.symm)
    · rw [htotal] at h0
      have hword := h.word
      exact ⟨by rw [hreq]; exact hpbuf h0, hblen.trans htotal.symm, by rw [htotal, hreq]; exact hlen' rfl h0, by omega⟩
    · rw [htotal]
      by_contra hne
      rw [hb.bufferPos.2 rfl hne] at h0
      have hlt := (hnone rfl).resolve_left hne
      simp only [stagedLen, Option.isSome_none, Bool.false_eq_true, if_false] at h0
      omega
  | some f =>
    obtain ⟨h0, hpos⟩ := hsome rfl
    have hpacket : c.publishPacket (some f) p = (c.firstPiece (some f) p).drop c₁.writer.pos ++
        payloadFrom f p₁.bufferLen p₁.totalLen p₁.asked p₁.bufferPos := by
      have hblen : p₁.bufferLen = p.bufferLen := by
        rw [hreq]
        exact hlen rfl
      rw [hw, List.drop_zero, firstPiece, publishPacket, hblen, htotal, hb.asked, hb.bufferPos.1 rfl, h0]
      simp [stagedLen, publishData]
    rw [hpacket]
    refine .headerCb rfl hwrite hwlen hbuf hsmall hlt hb.intBufPos ?_
    rw [htotal, hb.bufferPos.1 rfl, h0]
    exact hpos

theorem Begun.steady {c₁ : MqttClient} {p₁ : MqttPublish} {k : Nat} (h : Sendable c cb p) (hb : Begun c k cb p c₁ p₁)
    (hroom : cb.isSome → 0 < p.bufferLen) : Steady c₁ cb p₁ := by
  obtain ⟨len, hreq, hlen, -, -⟩ := hb.toPublish
  obtain ⟨w, active, reader, n, ids, slots, ms, hc₁⟩ := hb.kin
  have hword := h.word
  have htx := h.room.1
  refine ⟨?_, ?_, ?_, ?_, ?_, fun m hm => ?_, fun f hf => ?_⟩
  · rw [hc₁]
    exact h.sent
  · rw [hc₁, hreq]
    exact h.allowed
  · rw [hc₁, hreq]
    rfl
  · rw [hreq]
    show p.totalLen < 4294967296
    omega
  · rw [hc₁]
    show 0 < c.txBufLen
    omega
  · have hsmall := h.small
    rw [hreq] at hm
    have hm' : m ≤ p.totalLen := hm
    unfold Small at *
    rw [hc₁]
    show c.packetSzMax = 0 ∨ m ≤ c.packetSzMax
    omega
  · rw [hreq]
    show Supplies f len ∧ 0 < len
    rw [hlen (by rw [hf]; rfl)]
    exact ⟨(h.supplies f hf).1, hroom (by rw [hf]; rfl)⟩

/-- Where a nonblocking publish is between two calls. -/
def Between (c₀ : MqttClient) (cb : Option PublishCb) (packet : Bytes) (s : MqttClient × MqttPublish) : Prop :=
  ∃ due, s.1.nonblock = true ∧ s.1.netWrite = c₀.netWrite ∧ Steady s.1 cb s.2 ∧ InFlight s.1 cb s.2 due ∧
    s.1.writer.wire ++ due = c₀.writer.wire ++ packet

/-- A call in between: again in between and nearer to the end, or out. -/
theorem Between.call {packet : Bytes} {s : MqttClient × MqttPublish} (k : Nat)
    (hnet : Answers Code.continue c.netWrite) (h : Between c cb packet s) :
    (Again (publishCall k cb s).1 ∧ Between c cb packet (publishCall k cb s).2 ∧
        Moved c.netWrite s.1.writer (publishCall k cb s).2.1.writer) ∨
      (IsSent (publishCall k cb s).1 ∧ (publishCall k cb s).2.1.writer.wire = c.writer.wire ++ packet) := by
  obtain ⟨c', p'⟩ := s
  obtain ⟨due, hnb, hsame, hs, hflight, hdue⟩ := h
  have hsame : c'.netWrite = c.netWrite := hsame
  rcases publishMsgWrite_turned k hnb (hsame ▸ hnet) hs hflight with
    ⟨r, w, p'', due', hrun, hagain, hs', hflight', hdue', hmoved⟩ | ⟨hsent, hwire⟩
  · left
    have hrun : publishCall k cb (c', p') = (r, c'.withWriter w, p'') := hrun
    rw [hrun]
    exact ⟨hagain, ⟨due', hnb, hsame, hs', hflight', hdue'.trans hdue⟩, hsame ▸ hmoved⟩
  · exact .inr ⟨hsent, hwire.trans hdue⟩

/-- From in between the end is reached, over a transport that goes on taking something. -/
theorem Between.ends {packet : Bytes} {s : MqttClient × MqttPublish} (k : Nat)
    (hnet : Answers Code.continue c.netWrite) (hfair : Fair c.netWrite) (h : Between c cb packet s) :
    ∃ n, (∀ m < n, Again (publishCall k cb (afterCalls k cb m s)).1) ∧
      IsSent (publishCall k cb (afterCalls k cb n s)).1 ∧
      (publishCall k cb (afterCalls k cb n s)).2.1.writer.wire = c.writer.wire ++ packet := by
  have hprogress : Progress c.netWrite (publishCall k cb) Again (Between c cb packet)
      (fun s => (c.writer.wire ++ packet).length - s.1.writer.wire.length) (fun s => s.1.writer.turn) := by
    refine ⟨fun s hs hagain => ?_, fun s hs hagain => ?_⟩
    · rcases hs.call k hnet with ⟨-, hnext, -⟩ | ⟨hsent, -⟩
      · exact hnext
      · exact absurd hsent hagain.not_sent
    · rcases hs.call k hnet with ⟨-, hnext, hmoved⟩ | ⟨hsent, -⟩
      · obtain ⟨due, -, -, -, -, hdue⟩ := hnext
        have hlen : (publishCall k cb s).2.1.writer.wire.length ≤ (c.writer.wire ++ packet).length := by
          rw [← hdue, List.length_append]
          omega
        rcases hmoved with hlt | ⟨heq, hturn, hno⟩
        · exact .inl (by omega)
        · exact .inr ⟨by simp only [heq], hturn, hno⟩
      · exact absurd hsent hagain.not_sent
  obtain ⟨n, hinv, hstop, hagain⟩ := ends_of_progress hfair hprogress s h
  refine ⟨n, hagain, ?_⟩
  rcases Between.call k hnet hinv with ⟨h, -, -⟩ | hsent
  · exact absurd h hstop
  · exact hsent

theorem Begun.allowed {c₁ : MqttClient} {p₁ : MqttPublish} {k : Nat} (h : Sendable c cb p) (hb : Begun c k cb p c₁ p₁) :
    c₁.checkConnectSent = Code.success ∧ c₁.publishAllowed p₁.toPublish = Code.success ∧
      ({p₁ with protocolLevel := c₁.protocolLevel} : MqttPublish) = p₁ := by
  obtain ⟨len, hreq, -, -, -⟩ := hb.toPublish
  have hlevel : p₁.protocolLevel = c₁.protocolLevel := by
    obtain ⟨w, active, reader, n, ids, slots, ms, hc₁⟩ := hb.kin
    rw [hc₁, hreq]
    rfl
  refine ⟨?_, ?_, by rw [← hlevel]⟩
  · obtain ⟨w, active, reader, n, ids, slots, ms, hc₁⟩ := hb.kin
    rw [hc₁]
    exact h.sent
  · obtain ⟨w, active, reader, n, ids, slots, ms, hc₁⟩ := hb.kin
    rw [hc₁, hreq]
    exact h.allowed

/-- The first call of a publish goes on like one from the first piece. -/
theorem publishCall_begun {c₁ : MqttClient} {p₁ : MqttPublish} (k : Nat) (h : Sendable c cb p)
    (hbegin : c.publishBegin k cb {p with protocolLevel := c.protocolLevel} = (.next, c₁, p₁))
    (hb : Begun c k cb p c₁ p₁) : publishCall k cb (c, p) = publishCall k cb (c₁, p₁) := by
  obtain ⟨hsent, hallowed, hlevel⟩ := hb.allowed h
  show c.publishMsgWrite k cb p = c₁.publishMsgWrite k cb p₁
  rw [publishMsgWrite_eq k h.sent h.allowed, publishMsgWrite_eq k hsent hallowed, hlevel]
  have hsame : c.publishWrite k cb {p with protocolLevel := c.protocolLevel} = c₁.publishWrite k cb p₁ := by
    simp only [publishWrite, h.fresh, hbegin, hb.write]
  rw [hsame]

/-- Over a fair transport a nonblocking publish sends the whole packet, if its header leaves room for some
of the payload in `tx_buf`, or its callback has a payload to supply. -/
theorem Sendable.nonblock_sends (h : Sendable c cb p) (hr : Ready c p) (hnb : c.nonblock = true)
    (hnet : Answers Code.continue c.netWrite) (hfair : Fair c.netWrite) (k : Nat)
    (hnone : cb = none → p.totalLen = 0 ∨ (c.publishHead p).length < c.txBufLen)
    (hsome : cb.isSome → p.bufferPos = 0 ∧ 0 < p.totalLen ∧ 0 < p.bufferLen) : SendsWhole k cb c p := by
  have hencodable : Encodable cb p := fun hcb => .inl (hsome hcb).2.1.ne'
  rcases h.begin k with ⟨-, hno⟩ | ⟨c₁, p₁, hbegin, hb⟩
  · exact absurd ⟨hr, hencodable⟩ hno
  have hcall := publishCall_begun k h hbegin hb
  have hkin : c₁.nonblock = c.nonblock ∧ c₁.netWrite = c.netWrite := by
    obtain ⟨w, active, reader, n, ids, slots, ms, hc₁⟩ := hb.kin
    rw [hc₁]
    exact ⟨rfl, rfl⟩
  have hwire : c₁.writer.wire = c.writer.wire := by rw [hb.writer]
  have hbetween : Between c cb (c.publishPacket cb p) (c₁, p₁) :=
    ⟨_, hkin.1.trans hnb, hkin.2, hb.steady h fun hcb => (hsome hcb).2.2,
      hb.inFlight h hnone fun hcb => ⟨(hsome hcb).1, (hsome hcb).2.1⟩, by rw [hwire]⟩
  obtain ⟨n, hagain, hsent, hout⟩ := hbetween.ends k hnet hfair
  have hstart := publishCall_from k hcall
  refine ⟨n, fun m hm => ?_, ?_, ?_, h.announces fun hcb => (hsome hcb).2.2⟩
  · rw [hstart]
    exact hagain m hm
  · rw [hstart]
    exact hsent
  · rw [hstart]
    exact hout

end Call
end MqttClient
end WolfMqtt
