import WolfMqtt.Client.PublishRun

/-! A blocking publish, call by call.

Each call starts again from the header. It is refused before its first byte, or cut in the middle, or
the publish is out, or it fails for good. -/
namespace WolfMqtt
open Transfer
namespace MqttClient

/-! ### A payload that cannot be sent -/

/-- The header leaves no room for any of the payload, or there is nothing to ask the callback for: the next piece
would be empty, and the socket takes no empty piece. -/
def Starved (cb : Option PublishCb) (p : MqttPublish) : Prop :=
  match cb with
  | none => p.bufferPos = 0 ∧ 0 < p.totalLen
  | some f => Supplies f p.bufferLen ∧ p.intBufPos = 0 ∧ p.totalLen < 4294967296 ∧
      (p.bufferPos = p.totalLen ∨ (p.bufferPos ≤ p.totalLen ∧ p.bufferLen = 0))

theorem packetWrite_zero (c : MqttClient) : c.packetWrite 0 = (Code.badArg, c) := by
  have hno : ¬(c.packetSzMax > 0 ∧ 0 > 0 ∧ 0 > c.packetSzMax) := by omega
  rw [packetWrite, if_neg hno]
  rfl

theorem writePayload_cb (c : MqttClient) (p : MqttPublish) (f : PublishCb) :
    c.writePayload p (some f) = c.writeCb f (p.totalLen + 2) p := rfl

theorem writeFill_empty (c : MqttClient) {p : MqttPublish} (hcb : p.intBufCbLen = 0) (hint : p.intBufPos = 0) :
    ∃ c' p', c.writeFill (p.intBufCbLen + 1) p = (Code.badArg, c', p') := by
  have hneg : Code.badArg < 0 := by decide
  have hsub : word32Sub p.intBufCbLen p.intBufPos = 0 := by
    rw [hcb, hint]
    exact word32Sub_of_le le_rfl (by norm_num)
  simp only [writeFill, hsub, Nat.zero_min, packetWrite_zero, hneg, if_true]
  exact ⟨_, _, rfl⟩

theorem writePayload_starved {c : MqttClient} {cb : Option PublishCb} {p : MqttPublish} (hlen : c.writer.len = 0)
    (h : Starved cb p) : ∃ c' p', c.writePayload p cb = (Code.badArg, c', p') := by
  have hneg : Code.badArg < 0 := by decide
  cases cb with
  | none =>
    obtain ⟨h0, htotal⟩ := h
    have hq : p.bufferPos < p.totalLen := by omega
    have hno : ¬p.bufferPos > 0 := by omega
    simp only [writePayload, hq, if_true, hno, if_false, hlen, packetWrite_zero, writeBuffer, hneg, nextChunk]
    split
    · exact ⟨_, _, rfl⟩
    · exact ⟨_, _, rfl⟩
  | some f =>
    obtain ⟨hf, hint, hword, hnone⟩ := h
    have hsome := hf.some p.asked
    have hnn : ¬(f p.asked).1 < 0 := by omega
    have hok : ¬Code.success < 0 := by decide
    have hzero : min (min (f p.asked).1.toNat p.bufferLen) (word32Sub p.totalLen p.bufferPos) = 0 := by
      rw [word32Sub_of_le (by omega) hword]
      omega
    obtain ⟨c₁, p₁, hask, hcb, hint₁⟩ : ∃ c₁ p₁, c.askCb f p = (Code.success, c₁, p₁) ∧ p₁.intBufCbLen = 0 ∧
        p₁.intBufPos = 0 := by
      simp only [askCb, hlen, if_true, hnn, if_false, hzero]
      exact ⟨_, _, rfl, rfl, hint⟩
    obtain ⟨c', p', hrun⟩ := writeFill_empty c₁ hcb hint₁
    refine ⟨c', p', ?_⟩
    rw [writePayload_cb, writeCb_succ, hask]
    simp only [hok, if_false, hrun, hneg, if_true]

/-- The publish fails with its header sent. -/
theorem publishPayload_starved {c : MqttClient} {cb : Option PublishCb} {p : MqttPublish} (k : Nat)
    (hlen : c.writer.len = 0) (h : Starved cb p) :
    ∃ c' p', c.publishPayload k cb p = (.brk Code.badArg, c', p') := by
  obtain ⟨c', p', hrun⟩ := writePayload_starved hlen h
  have h1 : ¬Code.badArg = Code.continue := by decide
  have h2 : ¬Code.badArg = Code.pubContinue := by decide
  have h3 : Code.badArg < 0 := by decide
  simp only [publishPayload, hrun, h1, h2, and_false, or_self, if_false, h3, if_true]
  exact ⟨_, _, rfl⟩

/-! ### Giving up -/

theorem Kin.trans {c c' c'' : MqttClient} (h : Kin c c') (h' : Kin c' c'') : Kin c c'' := by
  obtain ⟨w, active, reader, n, ids, slots, ms, rfl⟩ := h
  obtain ⟨w', active', reader', n', ids', slots', ms', rfl⟩ := h'
  exact ⟨w', active', reader', n', ids', slots', ms', rfl⟩

/-- The lock, the unit and the reservation go back, and so does the read lock. -/
theorem giveUp_eq (c : MqttClient) (owner : Owner) (stat : MqttMsgStat) (hw : stat.write ≠ .wait) :
    ∃ active reader n stat',
      (((c.writeStop stat).1.recvQuotaRelease (c.writeStop stat).2).1.cancelMessage owner
          ((c.writeStop stat).1.recvQuotaRelease (c.writeStop stat).2).2) =
        ({c with
          writer := {c.writer with pos := 0, len := 0, isActive := false}
          readActive := active
          reader := reader
          serverRecvMax := n
          sendInflight := SendIds.releaseOwner c.sendInflight owner}, stat') ∧
      stat'.write = .begin ∧ c.serverRecvMax ≤ n ∧ n ≤ max c.serverRecvMax c.serverRecvMaxNegotiated ∧
      (stat.recvQuotaHeld = true → c.serverRecvMax < c.serverRecvMaxNegotiated → n = c.serverRecvMax + 1) := by
  obtain ⟨n, hrel, hle, hle', hheld⟩ : ∃ n,
      (c.writeStop stat).1.recvQuotaRelease (c.writeStop stat).2 =
        ({c with
          writer := {c.writer with pos := 0, len := 0, isActive := false}
          serverRecvMax := n}, {stat with isWriteActive := false, recvQuotaHeld := false}) ∧
      c.serverRecvMax ≤ n ∧ n ≤ max c.serverRecvMax c.serverRecvMaxNegotiated ∧
      (stat.recvQuotaHeld = true → c.serverRecvMax < c.serverRecvMaxNegotiated → n = c.serverRecvMax + 1) := by
    by_cases hheld : stat.recvQuotaHeld = true
    · have hheld' : (c.writeStop stat).2.recvQuotaHeld = true := hheld
      rw [recvQuotaRelease, if_pos hheld']
      refine ⟨_, rfl, ?_⟩
      show c.serverRecvMax ≤ (if c.serverRecvMax < c.serverRecvMaxNegotiated then c.serverRecvMax + 1 else c.serverRecvMax) ∧
        (if c.serverRecvMax < c.serverRecvMaxNegotiated then c.serverRecvMax + 1 else c.serverRecvMax) ≤ _ ∧
        (_ → _ → (if c.serverRecvMax < c.serverRecvMaxNegotiated then c.serverRecvMax + 1 else c.serverRecvMax) = _)
      split <;> omega
    · have hheld' : ¬(c.writeStop stat).2.recvQuotaHeld = true := hheld
      rw [recvQuotaRelease, if_neg hheld']
      refine ⟨c.serverRecvMax, ?_, le_rfl, Nat.le_max_left _ _, fun h => absurd h hheld⟩
      simp only [writeStop]
      rw [Bool.eq_false_iff.mpr hheld]
  rw [hrel]
  have hwait : ¬stat.write = .wait := hw
  simp only [cancelMessage, hwait, if_false]
  by_cases hread : stat.isReadActive = true
  · simp only [hread, if_true]
    exact ⟨_, _, n, _, rfl, rfl, hle, hle', hheld⟩
  · simp only [hread, Bool.false_eq_true, if_false]
    exact ⟨_, _, n, _, rfl, rfl, hle, hle', hheld⟩

/-- The header of a blocking publish: out, or given up. -/
theorem publishHeader_all {c : MqttClient} {p : MqttPublish} {piece : Bytes} (k : Nat) (hb : c.nonblock = false)
    (hnet : Answers Code.continue c.netWrite) (hsmall : c.Small piece.length) (hlen : c.writer.len = piece.length)
    (hbuf : c.writer.txBuf = piece) (hpos : c.writer.pos = 0) (hpiece : 0 < piece.length) (hw : p.stat.write = .header) :
    (∃ w', c.publishHeader k p = (.next, c.withWriter w', {p with stat := {p.stat with write := .payload}}) ∧
        w' = {c.writer with
          len := 0, turn := endTurn c.netWrite c.writer.turn [piece.length], wire := c.writer.wire ++ piece} ∧
        Unbroken c.netWrite c.writer.turn [piece.length]) ∨
      ∃ c' p' j stat, c.publishHeader k p = (.ret Code.continue, c', p') ∧ Kin c c' ∧ p' = {p with stat := stat} ∧
        stat.write = .begin ∧ c'.writer.pos = 0 ∧ c'.writer.isActive = false ∧
        c'.writer.wire = c.writer.wire ++ piece.take j ∧ j < piece.length ∧
        ¬Unbroken c.netWrite c.writer.turn [piece.length] ∧
        (j = 0 ∧ c'.writer.turn = c.writer.turn + 1 ∧ c.netWrite c.writer.turn ≤ 0 ∧
            c'.sendInflight = SendIds.releaseOwner c.sendInflight (.object k) ∧ c.serverRecvMax ≤ c'.serverRecvMax ∧
            c'.serverRecvMax ≤ max c.serverRecvMax c.serverRecvMaxNegotiated ∧
            (p.stat.recvQuotaHeld = true → c.serverRecvMax < c.serverRecvMaxNegotiated →
              c'.serverRecvMax = c.serverRecvMax + 1) ∨
          0 < j ∧ 0 < c.netWrite c.writer.turn) := by
  rcases packetWrite_all _ hb hnet hsmall hbuf hpos hpiece with ⟨w', hrun, hw', hok⟩ | ⟨w', j, hrun, hj, hw', hcut, hfront⟩
  · left
    refine ⟨{w' with len := 0}, ?_, by rw [hw'], hok⟩
    simp only [publishHeader, hlen, hrun, withWriter_nonblock, hb, Bool.false_eq_true, false_and, if_false, ne_eq,
      not_true_eq_false]
    rfl
  · right
    have hne : ¬Code.continue = (piece.length : Int) := by
      have : Code.continue < 0 := by decide
      omega
    obtain ⟨active, reader, n, stat, hgive, hbegin, hle, hle', hheld⟩ :=
      giveUp_eq ((c.withWriter w').setLen 0) (.object k) p.stat (by rw [hw]; decide)
    have hrest : c.publishHeader k p =
        (.ret Code.continue,
          (if w'.pos > 0 then
            ((({(c.withWriter w').setLen 0 with
              writer := {((c.withWriter w').setLen 0).writer with pos := 0, len := 0, isActive := false}
              readActive := active
              reader := reader
              serverRecvMax := n
              sendInflight := SendIds.releaseOwner c.sendInflight (.object k)} : MqttClient).sendIdReserve p.packetId
                (.object k) true (publishAckType p.qos)).2)
          else
            ({(c.withWriter w').setLen 0 with
              writer := {((c.withWriter w').setLen 0).writer with pos := 0, len := 0, isActive := false}
              readActive := active
              reader := reader
              serverRecvMax := n
              sendInflight := SendIds.releaseOwner c.sendInflight (.object k)} : MqttClient).replayRemove p.packetId),
          {p with stat}) := by
      simp only [publishHeader, hlen, hrun, withWriter_nonblock, hb, Bool.false_eq_true, false_and, if_false, ne_eq,
        hne, not_false_eq_true, if_true, hgive]
      rfl
    rw [hrest]
    have hpos' : w'.pos = j := by rw [hw']
    have hwire : w'.wire = c.writer.wire ++ piece.take j := by rw [hw']
    rcases hfront with ⟨rfl, hturn, hlater⟩ | ⟨h0, hsome⟩
    · rw [if_neg (by omega)]
      refine ⟨_, _, 0, stat, rfl, ⟨_, _, _, _, _, _, _, rfl⟩, rfl, hbegin, rfl, rfl, hwire, hj, hcut, .inl ⟨rfl, hturn, hlater, rfl, ?_⟩⟩
      exact ⟨hle, hle', hheld⟩
    · rw [if_pos (by omega)]
      exact ⟨_, _, j, stat, rfl, ⟨_, _, _, _, _, _, _, rfl⟩, rfl, hbegin, rfl, rfl, hwire, hj, hcut, .inr ⟨h0, hsome⟩⟩

/-- The payload of a blocking publish given up. -/
theorem publishPayload_cut {c c' : MqttClient} {cb : Option PublishCb} {p p' : MqttPublish} (k : Nat)
    (hb : c'.nonblock = false) (hw : p'.stat.write ≠ .wait) (hrun : c.writePayload p cb = (Code.continue, c', p')) :
    ∃ c'' stat, c.publishPayload k cb p = (.brk Code.continue, c'', {p' with stat := stat}) ∧ Kin c' c'' ∧
      stat.write = .begin ∧ c''.writer.pos = 0 ∧ c''.writer.isActive = false ∧ c''.writer.wire = c'.writer.wire := by
  have hneg : Code.continue < 0 := by decide
  have hstop : ¬((c'.nonblock = true ∧ True) ∨ Code.continue = Code.pubContinue) := by
    rw [hb]
    decide
  obtain ⟨active, reader, n, stat, hgive, hbegin, -⟩ := giveUp_eq c' (.object k) p'.stat hw
  simp only [publishPayload, hrun]
  rw [if_neg hstop]
  simp only [hneg, if_true, hgive]
  exact ⟨_, stat, rfl, ⟨_, _, _, _, _, _, _, rfl⟩, hbegin, rfl, rfl, rfl⟩

/-! ### A call that gives up leaves the publish to be started again -/

/-- The client and the object after such a call. -/
structure Back (c : MqttClient) (cb : Option PublishCb) (p : MqttPublish) (c' : MqttClient) (p' : MqttPublish) : Prop where
  kin : Kin c c'
  fresh : p'.stat.write = .begin
  idle : c'.writer.isActive = false
  pos : c'.writer.pos = 0
  toPublish : ∃ b len, p'.toPublish = {c.request p with buffer := b, bufferLen := len} ∧ (cb = none → b = p.buffer) ∧
    (cb.isSome → len = p.bufferLen) ∧ (cb = none → len = p.totalLen ∨ len = 0)
  bufferPos : cb.isSome → p'.bufferPos ≤ p.totalLen

section Back
variable {c c' : MqttClient} {cb : Option PublishCb} {p p' : MqttPublish}

theorem Back.same (hb : Back c cb p c' p') :
    c'.nonblock = c.nonblock ∧ c'.netWrite = c.netWrite ∧ p'.totalLen = p.totalLen := by
  obtain ⟨b, len, hreq, -⟩ := hb.toPublish
  obtain ⟨_, _, _, _, _, _, _, hc⟩ := hb.kin
  refine ⟨by rw [hc], by rw [hc], by rw [hreq]; rfl⟩

theorem Back.head (hb : Back c cb p c' p') : c'.publishHead p' = c.publishHead p := by
  obtain ⟨b, len, hreq, -⟩ := hb.toPublish
  obtain ⟨w, active, reader, n, ids, slots, ms, hc'⟩ := hb.kin
  rw [hc']
  simp only [publishHead, request, hreq]
  rfl

theorem Back.sendable (h : Sendable c cb p) (hb : Back c cb p c' p') : Sendable c' cb p' := by
  have hhead := hb.head
  obtain ⟨b, len, hreq, hbuf, hlen, hlen'⟩ := hb.toPublish
  have hpos := hb.bufferPos
  obtain ⟨w, active, reader, n, ids, slots, ms, hc'⟩ := hb.kin
  have htotal : p'.totalLen = p.totalLen := by rw [hreq]; rfl
  have hblen : p'.bufferLen = len := by rw [hreq]
  refine ⟨hb.fresh, hb.idle, hb.pos, ?_, ?_, ?_, ?_, ?_, fun hcb => ?_, fun hcb => ?_, fun f hf => ?_⟩
  · rw [hc']
    exact h.sent
  · rw [hc', hreq]
    exact h.allowed
  · obtain ⟨vh, hvh, hle⟩ := h.encodes
    refine ⟨vh, ?_, htotal ▸ hle⟩
    rw [hc', request, hreq]
    exact hvh
  · rw [hhead, hc']
    exact h.room
  · rw [hhead, htotal, hc']
    exact h.small
  · rw [hblen, htotal]
    exact hlen' hcb
  · rw [htotal, hreq]
    show _ ∨ ∃ b', b = some b' ∧ _
    rw [hbuf hcb]
    exact h.holds hcb
  · have hsome : cb.isSome := by rw [hf]; rfl
    rw [hblen, hlen hsome, htotal]
    exact ⟨(h.supplies f hf).1, hpos hsome⟩

/-- The packet, and its pieces, are the same unless the callback has been asked. -/
theorem Back.packet (hb : Back c cb p c' p') (hsame : cb.isSome → p'.asked = p.asked ∧ p'.bufferPos = p.bufferPos) :
    c'.publishPacket cb p' = c.publishPacket cb p ∧ c'.pieceSizes cb p' = c.pieceSizes cb p := by
  have hhead := hb.head
  obtain ⟨b, len, hreq, hbuf, hlen, hlen'⟩ := hb.toPublish
  have htotal : p'.totalLen = p.totalLen := by rw [hreq]; rfl
  have htx : c'.txBufLen = c.txBufLen := by
    obtain ⟨w, active, reader, n, ids, slots, ms, hc'⟩ := hb.kin
    rw [hc']
  have hstaged : c'.stagedLen cb p' = c.stagedLen cb p := by rw [stagedLen, hhead, htotal, htx, stagedLen]
  have hdata : publishData cb p' = publishData cb p := by
    cases cb with
    | none =>
      have hb' : p'.buffer = p.buffer := by
        rw [hreq]
        exact hbuf rfl
      rw [publishData, publishData, hb', htotal]
    | some f =>
      have hl : p'.bufferLen = p.bufferLen := by
        rw [hreq]
        exact hlen rfl
      rw [publishData, publishData, hl, htotal, (hsame rfl).1]
  refine ⟨by rw [publishPacket, publishPacket, hhead, hdata], ?_⟩
  simp only [pieceSizes, firstPiece, hhead, hdata, hstaged, List.cons.injEq, true_and]
  cases cb with
  | none => simp only [htx, htotal, hstaged]
  | some f =>
    have hl : p'.bufferLen = p.bufferLen := by
      rw [hreq]
      exact hlen rfl
    simp only [hl, htotal, htx, (hsame rfl).1, (hsame rfl).2]

end Back

/-! ### A refused call leaves the client as ready as it was -/

theorem find_eq_none {ids : List MqttSendId} {packetId : Nat} :
    SendIds.find ids packetId = none ↔ ∀ s ∈ ids, s.packetId ≠ packetId := by
  simp [SendIds.find, List.findIdx?_eq_none_iff]

/-- An identifier that was free is free again when its new owner has let go. -/
theorem find_releaseOwner {ids : List MqttSendId} {packetId : Nat} (owner : Owner) (isRetransmit : Bool)
    (ackType : PacketType) (h0 : packetId ≠ 0) (h : SendIds.find ids packetId = none) :
    SendIds.find (SendIds.releaseOwner ids owner) packetId = none ∧
      SendIds.find (SendIds.releaseOwner (SendIds.reserve ids packetId owner isRetransmit ackType).2 owner) packetId =
        none := by
  have hfree : ∀ s : MqttSendId, s.packetId ≠ packetId →
      (if s.packetId ≠ 0 ∧ s.owner = some owner then ({} : MqttSendId) else s).packetId ≠ packetId := by
    intro s hs
    split
    · exact h0.symm
    · exact hs
  have hall := find_eq_none.mp h
  constructor
  · refine find_eq_none.mpr fun s hs => ?_
    obtain ⟨s', hs', rfl⟩ := List.mem_map.mp hs
    exact hfree s' (hall s' hs')
  · refine find_eq_none.mpr fun s hs => ?_
    obtain ⟨s', hs', rfl⟩ := List.mem_map.mp hs
    unfold SendIds.reserve at hs'
    rw [if_neg h0, h] at hs'
    simp only at hs'
    split at hs'
    · rcases List.mem_or_eq_of_mem_set hs' with hmem | rfl
      · exact hfree s' (hall s' hmem)
      · rw [if_pos ⟨h0, rfl⟩]
        exact h0.symm
    · exact hfree s' (hall s' hs')

/-- A packet under QoS 1 or 2 has an identifier. -/
theorem publishVariable_packetId {p : Publish} {vh : Bytes} (h : publishVariable p = .ok vh) (hq : p.qos ≠ .qos0) :
    p.packetId ≠ 0 := by
  intro h0
  have hbad : (decide (p.qos ≠ .qos0) && decide (p.packetId = 0)) = true := by simp [hq, h0]
  unfold publishVariable at h
  simp only [hbad, if_true] at h
  repeat' split at h
  all_goals cases h

/-! ### One call -/

/-- The first piece has room for some of the payload, or the callback has some of it to supply. -/
def Feasible (c : MqttClient) (cb : Option PublishCb) (p : MqttPublish) : Prop :=
  match cb with
  | none => p.totalLen = 0 ∨ (c.publishHead p).length < c.txBufLen
  | some _ => p.bufferPos < p.totalLen ∧ 0 < p.bufferLen

/-- What a call that starts here is to put on the wire. -/
def due (c : MqttClient) (cb : Option PublishCb) (p : MqttPublish) : Bytes :=
  c.firstPiece cb p ++
    match cb with
    | some f => payloadFrom f p.bufferLen p.totalLen p.asked p.bufferPos
    | none => (publishData none p).drop (c.stagedLen none p)

/-- The ways a call of a blocking publish ends. -/
inductive Called (c : MqttClient) (cb : Option PublishCb) (p : MqttPublish) : Option Int × MqttClient × MqttPublish → Prop
  /-- For good, without the publish. -/
  | failed {rc : Int} {s : MqttClient × MqttPublish} (hrc : rc < 0 ∧ rc ≠ Code.continue ∧ rc ≠ Code.pubContinue)
      (hno : ¬(Ready c p ∧ Feasible c cb p)) : Called c cb p (some rc, s)
  /-- Before the first byte. -/
  | refused {c' : MqttClient} {p' : MqttPublish} (hnet : c.netWrite c.writer.turn ≤ 0)
      (hturn : c'.writer.turn = c.writer.turn + 1) (hwire : c'.writer.wire = c.writer.wire) (hback : Back c cb p c' p')
      (hready : Ready c p → Ready c' p') (hsame : cb.isSome → p'.asked = p.asked ∧ p'.bufferPos = p.bufferPos) :
      Called c cb p (some Code.continue, c', p')
  /-- In the middle. -/
  | cut {c' : MqttClient} {p' : MqttPublish} (hnet : 0 < c.netWrite c.writer.turn)
      (hcut : ¬Unbroken c.netWrite c.writer.turn (c.pieceSizes cb p)) (hback : Back c cb p c' p')
      (hwire : c.writer.wire.length + 1 ≤ c'.writer.wire.length)
      (hpos : cb.isSome → c.writer.wire.length + 1 + p'.bufferPos ≤ c'.writer.wire.length + p.bufferPos) :
      Called c cb p (some Code.continue, c', p')
  /-- With the publish out. -/
  | out {r : Option Int} {c' : MqttClient} {p' : MqttPublish} (hr : IsSent r) (hfeasible : Feasible c cb p)
      (hall : Unbroken c.netWrite c.writer.turn (c.pieceSizes cb p)) (hwire : c'.writer.wire = c.writer.wire ++ c.due cb p) :
      Called c cb p (r, c', p')

section Call
variable {c c₁ : MqttClient} {cb : Option PublishCb} {p p₁ : MqttPublish} {k : Nat} {w : Writer}

theorem returned_done {stage : Stage} (hstage : stage = .next ∨ ∃ rc ≥ 0, stage = .brk rc) (c : MqttClient)
    (p : MqttPublish) : ∃ r p', returned (stage, c, p) = (r, c, p') ∧ IsSent r := by
  rcases hstage with rfl | ⟨rc, hrc, rfl⟩
  · exact ⟨none, p, rfl, .inl rfl⟩
  · refine ⟨_, _, rfl, .inr ?_⟩
    show some (if rc > 0 then Code.success else rc) = some Code.success
    split
    · rfl
    · congr 1
      have : Code.success = 0 := rfl
      omega

theorem failed_of_error {rc : Int} (h : rc < 0 ∧ rc ≠ Code.continue ∧ rc ≠ Code.pubContinue) :
    ¬Again (some rc) ∧ ¬IsSent (some rc) := by
  have h0 : Code.success = 0 := rfl
  constructor
  · rintro (hr | hr)
    · exact h.2.1 (Option.some.inj hr)
    · exact h.2.2 (Option.some.inj hr)
  · rintro (hr | hr)
    · cases hr
    · have := Option.some.inj hr
      omega

/-- The payload after a header that went out, by what the transport makes of it. -/
theorem called_of_carried {rc : Int} {w' : Writer} {p₂ p₃ : MqttPublish} (rest : List Nat) (bytes : Bytes)
    (hb : c.nonblock = false) (hbegun : Begun c k cb p c₁ p₁) (hfeasible : Feasible c cb p)
    (hpiece : 0 < (c.firstPiece cb p).length)
    (hall : Unbroken c.netWrite c.writer.turn [(c.firstPiece cb p).length])
    (hturn : w.turn = endTurn c.netWrite c.writer.turn [(c.firstPiece cb p).length])
    (hwire : w.wire = c.writer.wire ++ c.firstPiece cb p)
    (hrun : (c₁.withWriter w).writePayload p₂ cb = (rc, c₁.withWriter w', p₃))
    (hcarried : Carried c.netWrite rest bytes w w' rc)
    (hlike : ∃ b, p₃.toPublish = {p₁.toPublish with buffer := b} ∧ (cb = none → b = p₁.buffer))
    (hwait : p₃.stat.write ≠ .wait)
    (hpos : cb.isSome → p₃.bufferPos ≤ p.totalLen ∧ w.wire.length + p₃.bufferPos ≤ w'.wire.length + p.bufferPos)
    (hsizes : c.pieceSizes cb p = (c.firstPiece cb p).length :: rest)
    (hdue : c.due cb p = c.firstPiece cb p ++ bytes) :
    Called c cb p (returned ((c₁.withWriter w).publishPayload k cb p₂)) := by
  have hkin : Kin c (c₁.withWriter w') := hbegun.kin.trans ⟨w', _, _, _, _, _, _, rfl⟩
  have hb' : (c₁.withWriter w').nonblock = false := by
    obtain ⟨_, _, _, _, _, _, _, hc⟩ := hkin
    rw [hc]
    exact hb
  cases hcarried with
  | all hrest hrc _ _ hwire' =>
    obtain ⟨stage, p₄, hdone, hstage⟩ := publishPayload_done k hrun hrc
    obtain ⟨r, p', hret, hsent⟩ := returned_done hstage ((c₁.withWriter w').writeStop p₃.stat).1 p₄
    rw [hdone, hret]
    refine .out hsent hfeasible ?_ ?_
    · rw [hturn] at hrest
      rw [hsizes]
      exact ⟨hall.1, hrest⟩
    · show w'.wire = _
      rw [hwire', hwire, hdue, List.append_assoc]
  | cut hrest hrc hwire' =>
    obtain ⟨j, -, hw'⟩ := hwire'
    subst hrc
    obtain ⟨c', stat, hcut, hkin', hbegin, hpos', hidle, hwire''⟩ := publishPayload_cut k hb' hwait hrun
    have hno : c'.nonblock = false := by
      obtain ⟨_, _, _, _, _, _, _, hc⟩ := hkin'
      rw [hc]
      exact hb'
    have hret : returned ((c₁.withWriter w).publishPayload k cb p₂) =
        (some Code.continue, c', {p₃ with stat := {stat with write := .begin}}) := by
      have hne : Code.continue ≠ Code.pubContinue := by decide
      have hneg : ¬Code.continue > 0 := by decide
      rw [hcut]
      simp only [returned, publishDone, hno, hneg, if_false, ne_eq, hne, not_false_eq_true, and_self, if_true,
        Bool.false_eq_true, false_and]
    have hlen : w.wire.length = c.writer.wire.length + (c.firstPiece cb p).length := by
      rw [hwire, List.length_append]
    have hlen' : c'.writer.wire.length = w'.wire.length := congrArg List.length hwire''
    have hlen'' : w.wire.length ≤ w'.wire.length := by
      rw [hw', List.length_append]
      omega
    rw [hret]
    refine .cut (hall.first hpiece) ?_ ⟨hkin.trans hkin', rfl, hidle, hpos', ?_, fun hcb => (hpos hcb).1⟩ (by omega) fun hcb => ?_
    · rw [hturn] at hrest
      rw [hsizes]
      exact fun hcon => hrest hcon.2
    · obtain ⟨b, hreq, hbuf⟩ := hlike
      obtain ⟨len, hreq₁, hl, hl', hl''⟩ := hbegun.toPublish
      refine ⟨b, len, by rw [hreq, hreq₁], fun hcb => ?_, hl, hl''⟩
      rw [hbuf hcb, hreq₁]
      rfl
    · have := (hpos hcb).2
      show _ + 1 + p₃.bufferPos ≤ _
      omega


theorem pieceSizes_eq (c : MqttClient) (cb : Option PublishCb) (p : MqttPublish) :
    c.pieceSizes cb p = (c.firstPiece cb p).length ::
      match cb with
      | some f => fillSizes f p.bufferLen p.totalLen c.txBufLen (p.totalLen + 2) p.asked p.bufferPos
      | none => chunks c.txBufLen (p.totalLen + 1) (p.totalLen - c.stagedLen none p) := rfl

/-- A header that did not go out: the call is refused, or cut. -/
theorem called_of_header {c' : MqttClient} {stat : MqttMsgStat} {j : Nat} (h : Sendable c cb p)
    (hbegun : Begun c k cb p c₁ p₁) (hkin : Kin c₁ c') (hbegin : stat.write = .begin) (hpos : c'.writer.pos = 0)
    (hidle : c'.writer.isActive = false) (hwire : c'.writer.wire = c.writer.wire ++ (c.firstPiece cb p).take j)
    (hj : j < (c.firstPiece cb p).length)
    (hcut : ¬Unbroken c.netWrite c.writer.turn [(c.firstPiece cb p).length])
    (hfront : j = 0 ∧ c'.writer.turn = c.writer.turn + 1 ∧ c.netWrite c.writer.turn ≤ 0 ∧
        c'.sendInflight = SendIds.releaseOwner c₁.sendInflight (.object k) ∧ c₁.serverRecvMax ≤ c'.serverRecvMax ∧
        c'.serverRecvMax ≤ max c₁.serverRecvMax c.serverRecvMaxNegotiated ∧
        (p₁.stat.recvQuotaHeld = true → c₁.serverRecvMax < c.serverRecvMaxNegotiated →
          c'.serverRecvMax = c₁.serverRecvMax + 1) ∨
      0 < j ∧ 0 < c.netWrite c.writer.turn) :
    Called c cb p (some Code.continue, c', {p₁ with stat := stat}) := by
  obtain ⟨len, hreq, hlen, hlen', hlen''⟩ := hbegun.toPublish
  have hback : Back c cb p c' {p₁ with stat := stat} := by
    refine ⟨hbegun.kin.trans hkin, hbegin, hidle, hpos, ⟨p.buffer, len, hreq, fun _ => rfl, hlen, hlen''⟩, fun hcb => ?_⟩
    show p₁.bufferPos ≤ p.totalLen
    obtain ⟨f, rfl⟩ := Option.isSome_iff_exists.mp hcb
    rw [hbegun.bufferPos.1 rfl]
    exact (h.supplies f rfl).2
  rcases hfront with ⟨rfl, hturn, hno, hids, hle, hle', hheld⟩ | ⟨h0, hsome⟩
  · refine .refused hno hturn (by rw [hwire, List.take_zero, List.append_nil]) hback (fun hr => ⟨fun h5 hq => ?_, fun hq => ?_⟩)
      fun hcb => ⟨hbegun.asked, hbegun.bufferPos.1 hcb⟩
    · have hlevel : c'.protocolLevel = c.protocolLevel := by
        obtain ⟨_, _, _, _, _, _, _, hc⟩ := hback.kin
        rw [hc]
      have hneg : c'.serverRecvMaxNegotiated = c.serverRecvMaxNegotiated := by
        obtain ⟨_, _, _, _, _, _, _, hc⟩ := hback.kin
        rw [hc]
      have hqos : p₁.qos = p.qos := by rw [hreq]; rfl
      obtain ⟨hpos, hmax⟩ := hr.quota (hlevel ▸ h5) (hqos ▸ hq)
      obtain ⟨hle₁, hle₂⟩ := hbegun.max
      rw [hneg]
      by_cases hlt : c₁.serverRecvMax < c.serverRecvMax
      · have := hheld (hbegun.held hlt) (by omega)
        omega
      · omega
    · have hqos : p₁.qos = p.qos := by rw [hreq]; rfl
      have hid : p₁.packetId = p.packetId := by rw [hreq]; rfl
      have hdup : p₁.duplicate = p.duplicate := by rw [hreq]; rfl
      obtain ⟨vh, hvh, -⟩ := h.encodes
      have h0 : p.packetId ≠ 0 := publishVariable_packetId (p := c.request p) hvh (hqos ▸ hq)
      show p₁.duplicate = true ∨ SendIds.find c'.sendInflight p₁.packetId = none
      rw [hdup, hid, hids]
      refine (hr.unused (hqos ▸ hq)).imp id fun hfree => ?_
      have hgone := find_releaseOwner (.object k) p.duplicate (publishAckType p.qos) h0 hfree
      rcases hbegun.ids with hsame | hres
      · rw [hsame]
        exact hgone.1
      · rw [hres]
        exact hgone.2
  · have hlen : c'.writer.wire.length = c.writer.wire.length + j := by
      rw [hwire, List.length_append, List.length_take]
      omega
    refine .cut hsome (fun hcon => hcut ⟨hcon.1, trivial⟩) hback (by omega) fun hcb => ?_
    show c.writer.wire.length + 1 + p₁.bufferPos ≤ _
    rw [hbegun.bufferPos.1 hcb]
    omega

/-- A payload that cannot be sent. -/
theorem called_of_starved {p₂ : MqttPublish} (hlen : w.len = 0) (hstarved : Starved cb p₂)
    (hno : ¬Feasible c cb p) : Called c cb p (returned ((c₁.withWriter w).publishPayload k cb p₂)) := by
  obtain ⟨c', p', hrun⟩ := publishPayload_starved (c := c₁.withWriter w) k hlen hstarved
  have hret : returned (.brk Code.badArg, c', p') = (some Code.badArg, (c'.publishDone p' Code.badArg).2) := rfl
  rw [hrun, hret]
  exact .failed ⟨by decide, by decide, by decide⟩ fun hcon => hno hcon.2

/-- The payload, once the header is out. -/
theorem called_of_payload (h : Sendable c cb p) (hb : c.nonblock = false) (hnet : Answers Code.continue c.netWrite)
    (hbegun : Begun c k cb p c₁ p₁) (hpiece : 0 < (c.firstPiece cb p).length)
    (hall : Unbroken c.netWrite c.writer.turn [(c.firstPiece cb p).length])
    (hturn : w.turn = endTurn c.netWrite c.writer.turn [(c.firstPiece cb p).length]) (hlen : w.len = 0)
    (hpos : w.pos = 0) (hwire : w.wire = c.writer.wire ++ c.firstPiece cb p) :
    Called c cb p
      (returned ((c₁.withWriter w).publishPayload k cb {p₁ with stat := {p₁.stat with write := .payload}})) := by
  obtain ⟨p₂, hp₂⟩ : ∃ p₂ : MqttPublish, p₂ = {p₁ with stat := {p₁.stat with write := .payload}} := ⟨_, rfl⟩
  rw [← hp₂]
  have hword := h.word
  have hkin : c₁.nonblock = c.nonblock ∧ c₁.netWrite = c.netWrite ∧ c₁.packetSzMax = c.packetSzMax ∧
      c₁.txBufLen = c.txBufLen := by
    obtain ⟨_, _, _, _, _, _, _, hc⟩ := hbegun.kin
    rw [hc]
    exact ⟨rfl, rfl, rfl, rfl⟩
  have hwait : p₂.stat.write ≠ .wait := by
    have hpayload : p₂.stat.write = .payload := by rw [hp₂]
    rw [hpayload]
    decide
  have hint : p₂.intBufPos = 0 := by rw [hp₂]; exact hbegun.intBufPos
  obtain ⟨len, hreq, hlen₁, hlen₂, -⟩ := hbegun.toPublish
  have hreq₂ : p₂.toPublish = p₁.toPublish := by rw [hp₂]
  have htotal : p₂.totalLen = p.totalLen := by rw [hp₂, hreq]; rfl
  have htx : 0 < c.txBufLen := by
    have := h.room.1
    omega
  have hsmall : ∀ m ≤ p.totalLen, c.Small m := by
    intro m hm
    have := h.small
    unfold Small at *
    omega
  have hsmall₁ : ∀ m ≤ p₂.totalLen, (c₁.withWriter w).Small m := by
    intro m hm
    have hm' := hsmall m (hm.trans_eq htotal)
    unfold Small at *
    show c₁.packetSzMax = 0 ∨ m ≤ c₁.packetSzMax
    rw [hkin.2.2.1]
    exact hm'
  have hnet₁ : Answers Code.continue (c₁.withWriter w).netWrite := by
    show Answers Code.continue c₁.netWrite
    rw [hkin.2.1]
    exact hnet
  have htx₁ : (c₁.withWriter w).txBufLen = c.txBufLen := hkin.2.2.2
  have hnet₂ : (c₁.withWriter w).netWrite = c.netWrite := hkin.2.1
  cases cb with
  | none =>
    have hsizes := pieceSizes_eq c none p
    have hle : c.stagedLen none p ≤ p.totalLen := by
      simp only [stagedLen, Option.isSome_none, Bool.false_eq_true, if_false]
      omega
    have hdue : c.due none p = c.firstPiece none p ++ (publishData none p).drop (c.stagedLen none p) := rfl
    have hdata := h.data_length (fun h => absurd h (by simp))
    by_cases h0 : p.totalLen = 0
    · have hrun : (c₁.withWriter w).writePayload p₂ none = (Code.success, c₁.withWriter w, p₂) := by
        have hno : ¬p₂.bufferPos < p₂.totalLen := by omega
        rw [writePayload, if_neg hno]
      refine called_of_carried [] [] hb hbegun (.inl h0) hpiece hall hturn hwire hrun
        (.all trivial (by decide) rfl hpos (by rw [List.append_nil])) ⟨p₁.buffer, hreq₂, fun _ => rfl⟩ hwait
        (fun h => absurd h (by simp)) ?_ ?_
      · rw [hsizes]
        have hzero : p.totalLen - c.stagedLen none p = 0 := by omega
        simp only [hzero, chunks_zero]
      · rw [hdue, List.drop_of_length_le (by omega)]
    · have hbp : p₂.bufferPos = c.stagedLen none p := by
        rw [hp₂]
        exact hbegun.bufferPos.2 rfl h0
      by_cases hfit : (c.publishHead p).length < c.txBufLen
      · have hstaged : 0 < c.stagedLen none p := by
          simp only [stagedLen, Option.isSome_none, Bool.false_eq_true, if_false]
          omega
        obtain ⟨b, hbuf, hblen⟩ := (h.holds rfl).resolve_left h0
        have hb' : publishData none p = b := by simp [publishData, hbuf, ← hblen]
        by_cases hmore : c.stagedLen none p < p.totalLen
        · obtain ⟨rc, w', q, j, l, hrun, hcarried⟩ := writePayload_buffer_all (c := c₁.withWriter w) (p := p₂) (b := b)
            (hkin.1.trans hb) hnet₁
            ⟨by rw [hreq₂, hreq]; exact hbuf, hblen.trans htotal.symm, by
              rw [htotal, hreq₂, hreq]
              exact hlen₂ rfl h0, by omega⟩
            (by rw [htx₁]; exact htx) hsmall₁ (by omega) (by omega) (by omega) hpos hint (by
              rw [hbp, hp₂]
              exact hbegun.intBufLen)
          rw [htx₁, hnet₂, htotal, hbp] at hcarried
          refine called_of_carried _ _ hb hbegun (.inr hfit) hpiece hall hturn hwire hrun hcarried
            ⟨p₁.buffer, hreq₂, fun _ => rfl⟩ hwait (fun h => absurd h (by simp)) hsizes ?_
          rw [hdue, hb']
        · have hrun : (c₁.withWriter w).writePayload p₂ none = (Code.success, c₁.withWriter w, p₂) := by
            have hno : ¬p₂.bufferPos < p₂.totalLen := by omega
            rw [writePayload, if_neg hno]
          refine called_of_carried [] [] hb hbegun (.inr hfit) hpiece hall hturn hwire hrun
            (.all trivial (by decide) rfl hpos (by rw [List.append_nil])) ⟨p₁.buffer, hreq₂, fun _ => rfl⟩ hwait
            (fun h => absurd h (by simp)) ?_ ?_
          · rw [hsizes]
            have hzero : p.totalLen - c.stagedLen none p = 0 := by omega
            simp only [hzero, chunks_zero]
          · rw [hdue, List.drop_of_length_le (by omega)]
      · have hstaged : c.stagedLen none p = 0 := by
          simp only [stagedLen, Option.isSome_none, Bool.false_eq_true, if_false]
          omega
        refine called_of_starved hlen ⟨by omega, by omega⟩ fun hcon => ?_
        rcases hcon with hcon | hcon
        · exact h0 hcon
        · exact hfit hcon
  | some f =>
    obtain ⟨hf, hle⟩ := h.supplies f rfl
    have hblen : p₂.bufferLen = p.bufferLen := by
      rw [hreq₂, hreq]
      exact hlen₁ rfl
    have hbp : p₂.bufferPos = p.bufferPos := by
      rw [hp₂]
      exact hbegun.bufferPos.1 rfl
    have hasked : p₂.asked = p.asked := by
      rw [hp₂]
      exact hbegun.asked
    by_cases hfeasible : Feasible c (some f) p
    · have hfeasible' : p.bufferPos < p.totalLen ∧ 0 < p.bufferLen := hfeasible
      obtain ⟨rc, w', p₃, hrun, hlike, hcarried, hle₃, hwire₃⟩ := writeCb_all (p₂.totalLen + 2)
        (c := c₁.withWriter w) (p := p₂) (hkin.1.trans hb) hnet₁ (hblen ▸ hf) (hblen ▸ hfeasible'.2)
        (by rw [htx₁]; exact htx) (by omega) hsmall₁ hlen hpos hint (by omega) (by omega)
      rw [htx₁, hnet₂, htotal, hbp, hasked, hblen] at hcarried
      obtain ⟨hstat, b, hreq₃⟩ := hlike
      refine called_of_carried _ _ hb hbegun hfeasible hpiece hall hturn hwire hrun hcarried
        ⟨b, by rw [hreq₃, hreq₂], fun h => absurd h (by simp)⟩ (hstat ▸ hwait) (fun _ => ?_) (pieceSizes_eq c (some f) p) rfl
      rw [htotal] at hle₃
      rw [hbp] at hwire₃
      exact ⟨hle₃, hwire₃⟩
    · refine called_of_starved hlen ⟨hblen ▸ hf, hint, by omega, ?_⟩ hfeasible
      have hno : ¬(p.bufferPos < p.totalLen ∧ 0 < p.bufferLen) := hfeasible
      omega

/-- A publish that is refused before its first piece. -/
theorem publishCall_refused (h : Sendable c cb p)
    (hrefused : Refused (c.publishBegin k cb {p with protocolLevel := c.protocolLevel}).1) :
    ∃ rc s, publishCall k cb (c, p) = (some rc, s) ∧ rc < 0 ∧ rc ≠ Code.continue ∧ rc ≠ Code.pubContinue := by
  have hcall : publishCall k cb (c, p) = returned (c.publishWrite k cb {p with protocolLevel := c.protocolLevel}) :=
    publishMsgWrite_eq k h.sent h.allowed
  have hwrite : c.publishWrite k cb {p with protocolLevel := c.protocolLevel} =
      c.publishBegin k cb {p with protocolLevel := c.protocolLevel} := by
    simp only [publishWrite, h.fresh]
    generalize c.publishBegin k cb {p with protocolLevel := c.protocolLevel} = r at hrefused
    obtain ⟨stage, c', p'⟩ := r
    cases stage with
    | ret rc => rfl
    | brk rc => exact hrefused.elim
    | next => exact hrefused.elim
  rw [hcall, hwrite]
  generalize c.publishBegin k cb {p with protocolLevel := c.protocolLevel} = r at hrefused
  obtain ⟨stage, c', p'⟩ := r
  cases stage with
  | ret rc => exact ⟨rc, (c', p'), rfl, hrefused⟩
  | brk rc => exact hrefused.elim
  | next => exact hrefused.elim

/-- A publish whose header has been begun goes on with it. -/
theorem publishWrite_resumed (k : Nat) (cb : Option PublishCb) {c : MqttClient} {p : MqttPublish}
    (h : p.stat.write = .header) : c.publishWrite k cb p =
      match c.publishHeader k p with
      | (.next, c, p) => c.publishPayload k cb p
      | done => done := by
  unfold publishWrite
  exact h ▸ rfl

/-- A call of a blocking publish. -/
theorem Sendable.called (h : Sendable c cb p) (hb : c.nonblock = false) (hnet : Answers Code.continue c.netWrite)
    (k : Nat) : Called c cb p (publishCall k cb (c, p)) := by
  rcases h.begin k with ⟨hrefused, hno⟩ | ⟨c₁, p₁, hbegin, hbegun⟩
  · obtain ⟨rc, s, hcall, hrc⟩ := publishCall_refused h hrefused
    rw [hcall]
    refine .failed hrc fun hcon => hno ⟨hcon.1, fun hcb => ?_⟩
    obtain ⟨f, rfl⟩ := Option.isSome_iff_exists.mp hcb
    have hlt : p.bufferPos < p.totalLen := hcon.2.1
    exact .inl (by omega)
  have hpiece : 0 < (c.firstPiece cb p).length := by
    have := h.head_pos
    rw [firstPiece, List.length_append]
    omega
  have hkin : c₁.nonblock = c.nonblock ∧ c₁.netWrite = c.netWrite ∧ c₁.packetSzMax = c.packetSzMax ∧
      c₁.txBufLen = c.txBufLen ∧ c₁.serverRecvMaxNegotiated = c.serverRecvMaxNegotiated := by
    obtain ⟨_, _, _, _, _, _, _, hc⟩ := hbegun.kin
    rw [hc]
    exact ⟨rfl, rfl, rfl, rfl, rfl⟩
  obtain ⟨hsent, hallowed, hlevel⟩ := hbegun.allowed h
  have hcall : publishCall k cb (c, p) = returned (c₁.publishWrite k cb p₁) := by
    rw [publishCall_begun k h hbegin hbegun]
    show c₁.publishMsgWrite k cb p₁ = _
    rw [publishMsgWrite_eq k hsent hallowed, hlevel]
  rw [hcall, publishWrite_resumed k cb hbegun.write]
  obtain ⟨-, -, -, hsmall, -⟩ := hbegun.piece h
  have hw₁ : c₁.writer.len = (c.firstPiece cb p).length ∧ c₁.writer.txBuf = c.firstPiece cb p ∧ c₁.writer.pos = 0 ∧
      c₁.writer.turn = c.writer.turn ∧ c₁.writer.wire = c.writer.wire := by
    rw [hbegun.writer]
    exact ⟨rfl, rfl, h.pos, rfl, rfl⟩
  rcases publishHeader_all k (hkin.1.trans hb) (hkin.2.1 ▸ hnet) hsmall hw₁.1 hw₁.2.1 hw₁.2.2.1 hpiece hbegun.write with
    ⟨w', hhead, hw', hall⟩ | ⟨c', p', j, stat, hhead, hkin', rfl, hbegin', hpos, hidle, hwire, hj, hcut, hfront⟩
  · rw [hhead]
    rw [hkin.2.1, hw₁.2.2.2.1] at hall hw'
    refine called_of_payload h hb hnet hbegun hpiece hall (by rw [hw']) (by rw [hw']) (by rw [hw']; exact hw₁.2.2.1) ?_
    rw [hw', hw₁.2.2.2.2]
  · rw [hhead]
    rw [hkin.2.1, hw₁.2.2.2.1] at hcut
    rw [hkin.2.1, hw₁.2.2.2.1, hkin.2.2.2.2] at hfront
    rw [hw₁.2.2.2.2] at hwire
    exact called_of_header h hbegun hkin' hbegin' hpos hidle hwire hj hcut hfront

end Call
end MqttClient
end WolfMqtt
