import WolfMqtt.Client.Pieces

/-! A nonblocking publish, call by call.

Between two calls a piece is in `tx_buf` up to `pos`, and the wire together with what is still due is
the packet (`InFlight`). A call either leaves it so, with less due or one refusal of the transport
used up, or the publish is out. -/
namespace WolfMqtt
open Transfer
namespace MqttClient

/-! ### One call of a nonblocking publish -/

/-- What stays as it is while a PUBLISH goes out. -/
structure Steady (c : MqttClient) (cb : Option PublishCb) (p : MqttPublish) : Prop where
  sent : c.checkConnectSent = Code.success
  allowed : c.publishAllowed p.toPublish = Code.success
  level : p.protocolLevel = c.protocolLevel
  word : p.totalLen < 4294967296
  room : 0 < c.txBufLen
  small : ∀ m ≤ p.totalLen, c.Small m
  supplies : ∀ f, cb = some f → Supplies f p.bufferLen ∧ 0 < p.bufferLen

theorem Steady.alike {c : MqttClient} {cb : Option PublishCb} {p p' : MqttPublish} (h : Steady c cb p)
    (hp : Alike p p') (w : Writer) : Steady (c.withWriter w) cb p' := by
  obtain ⟨-, b, hb⟩ := hp
  have htotal : p'.totalLen = p.totalLen := by rw [hb]
  have hlen : p'.bufferLen = p.bufferLen := by rw [hb]
  refine ⟨h.sent, ?_, ?_, htotal ▸ h.word, h.room, fun m hm => h.small m (hm.trans_eq htotal), fun f hf => hlen ▸ h.supplies f hf⟩
  · rw [hb]
    exact h.allowed
  · rw [hb]
    exact h.level

/-- Where a nonblocking publish stands between two calls, and the bytes that are still due. -/
inductive InFlight (c : MqttClient) (cb : Option PublishCb) (p : MqttPublish) : Bytes → Prop
  /-- In the first piece, with a payload to follow from a buffer. -/
  | header {piece b : Bytes} (hcb : cb = none) (hw : p.stat.write = .header) (hlen : c.writer.len = piece.length)
      (hbuf : c.writer.txBuf = piece) (hsmall : c.Small piece.length) (hpos : c.writer.pos < piece.length)
      (hp : p.totalLen ≠ 0 → Whole p b) (hint : p.intBufPos = 0) (hq : p.bufferPos = 0 → p.totalLen = 0)
      (hb : b.length = p.totalLen) : InFlight c cb p (piece.drop c.writer.pos ++ b.drop p.bufferPos)
  /-- In the first piece, with a payload to follow from a callback. -/
  | headerCb {piece : Bytes} {f : PublishCb} (hcb : cb = some f) (hw : p.stat.write = .header)
      (hlen : c.writer.len = piece.length) (hbuf : c.writer.txBuf = piece) (hsmall : c.Small piece.length)
      (hpos : c.writer.pos < piece.length) (hint : p.intBufPos = 0) (hq : p.bufferPos < p.totalLen) :
      InFlight c cb p (piece.drop c.writer.pos ++ payloadFrom f p.bufferLen p.totalLen p.asked p.bufferPos)
  /-- In a later piece from the buffer. -/
  | buffer {b : Bytes} (hcb : cb = none) (hw : p.stat.write = .payload) (hp : Whole p b) (hint : p.intBufPos = 0)
      (h0 : 0 < p.bufferPos) (hq : p.bufferPos < p.totalLen)
      (hpos : c.writer.pos < min (p.totalLen - p.bufferPos) c.txBufLen) :
      InFlight c cb p ((b.drop p.bufferPos).drop c.writer.pos)
  /-- In a later piece from the callback. -/
  | fill {f : PublishCb} {due : Bytes} (hcb : cb = some f) (hw : p.stat.write = .payload)
      (hfill : Filling f c.txBufLen c.writer p due) : InFlight c cb p due

/-- How a case of the switch leaves a publish of which `due` was to come: again in flight with less to
come, or out. -/
inductive Turned (c : MqttClient) (cb : Option PublishCb) (due : Bytes) : Stage × MqttClient × MqttPublish → Prop
  | again {rc : Int} {w : Writer} {p : MqttPublish} {due' : Bytes} (hrc : rc = Code.continue ∨ rc = Code.pubContinue)
      (hsteady : Steady (c.withWriter w) cb p) (hflight : InFlight (c.withWriter w) cb p due')
      (hdue : w.wire ++ due' = c.writer.wire ++ due) (hmoved : Moved c.netWrite c.writer w) :
      Turned c cb due (.ret rc, c.withWriter w, p)
  | out {stage : Stage} {c' : MqttClient} {p : MqttPublish} (hstage : stage = .next ∨ ∃ rc ≥ 0, stage = .brk rc)
      (hwire : c'.writer.wire = c.writer.wire ++ due) : Turned c cb due (stage, c', p)

/-- The end of the payload: the lock is given back, and the publish is out. -/
theorem publishPayload_done {c c' : MqttClient} (k : Nat) {cb : Option PublishCb} {p p' : MqttPublish} {rc : Int}
    (hrun : c.writePayload p cb = (rc, c', p')) (hrc : 0 ≤ rc) :
    ∃ stage p'', c.publishPayload k cb p = (stage, (c'.writeStop p'.stat).1, p'') ∧
      (stage = .next ∨ ∃ rc ≥ 0, stage = .brk rc) := by
  have h1 : ¬rc = Code.continue := by
    have : Code.continue < 0 := by decide
    omega
  have h2 : ¬rc = Code.pubContinue := by
    have : Code.pubContinue < 0 := by decide
    omega
  have h3 : ¬rc < 0 := by omega
  simp only [publishPayload, hrun, h1, h2, and_false, or_self, if_false, h3]
  split
  · exact ⟨_, _, rfl, .inr ⟨rc, hrc, rfl⟩⟩
  · exact ⟨_, _, rfl, .inl rfl⟩

theorem publishPayload_out {c c' : MqttClient} {k : Nat} {cb : Option PublishCb} {p p' : MqttPublish} {rc : Int}
    {due : Bytes} (hrun : c.writePayload p cb = (rc, c', p')) (hrc : 0 ≤ rc)
    (hwire : c'.writer.wire = c.writer.wire ++ due) : Turned c cb due (c.publishPayload k cb p) := by
  obtain ⟨stage, p'', hdone, hstage⟩ := publishPayload_done k hrun hrc
  rw [hdone]
  exact .out hstage hwire

/-- The payload case, from between two pieces or inside one. -/
theorem publishPayload_turned {c : MqttClient} (k : Nat) {cb : Option PublishCb} {p : MqttPublish} {due : Bytes}
    (hnb : c.nonblock = true) (hnet : Answers Code.continue c.netWrite) (hs : Steady c cb p)
    (hw : p.stat.write = .payload) (h : InFlight c cb p due) : Turned c cb due (c.publishPayload k cb p) := by
  cases h with
  | header hcb hw' => rw [hw] at hw'; cases hw'
  | headerCb hcb hw' => rw [hw] at hw'; cases hw'
  | @buffer b hcb hw hp hint h0 hq hpos =>
    subst hcb
    rcases writePayload_buffer_once hnb hnet hp hint h0 hq (hs.small _ (by omega)) hpos with
      ⟨w', hrun, hpos', hrest, hmoved⟩ | ⟨w', q, rc, hrun, hpos', hrest, hgrew, hlt, hmore | ⟨hend, hrc⟩⟩
    · have hret : c.publishPayload k none p = (.ret Code.continue, c.withWriter w', p) := by
        simp only [publishPayload, hrun, withWriter_nonblock, hnb, true_and, true_or, if_true]
      rw [hret]
      exact .again (.inl rfl) (hs.alike (.refl p) w') (.buffer rfl hw hp hint h0 hq hpos') hrest hmoved
    · obtain ⟨hlt', rfl⟩ := hmore
      have hret : c.publishPayload k none p =
          (.ret Code.pubContinue, c.withWriter w', {p with bufferPos := q}) := by
        simp only [publishPayload, hrun, or_true, if_true]
      have hp' : Whole {p with bufferPos := q} b := ⟨hp.buffer, hp.total, hp.len, hp.word⟩
      have hpos'' : w'.pos < min (p.totalLen - q) c.txBufLen := by
        have := hs.room
        omega
      rw [hret]
      have hlike : Alike p {p with bufferPos := q} := ⟨rfl, p.buffer, rfl⟩
      refine .again (.inr rfl) (hs.alike hlike w') (.buffer rfl hw hp' hint (h0.trans hlt) hlt' hpos'') ?_
        (.inl hgrew)
      rw [withWriter_writer, hpos', List.drop_zero]
      exact hrest
    · have hnil : b.drop q = [] := List.drop_of_length_le (by rw [hp.total, hend])
      rw [hnil, List.append_nil] at hrest
      exact publishPayload_out hrun hrc.le hrest
  | @fill f due hcb hw hfill =>
    subst hcb
    obtain ⟨hcb, hroom⟩ := hs.supplies f rfl
    have hrun := writeCb_once (p.totalLen + 2) hnb hnet hcb hroom hs.room hs.word hs.small hfill (by omega)
    rcases hrun with ⟨w', p', due', hrun, hlike, hfill', hwire, hmoved⟩ | ⟨w', p', rc, hrun, hlike, hrc, hwire⟩
    · have hret : c.publishPayload k (some f) p = (.ret Code.continue, c.withWriter w', p') := by
        have hrun' : c.writePayload p (some f) = (Code.continue, c.withWriter w', p') := hrun
        simp only [publishPayload, hrun', withWriter_nonblock, hnb, true_and, true_or, if_true]
      rw [hret]
      exact .again (.inl rfl) (hs.alike hlike w') (.fill rfl (by rw [hlike.1, hw]) hfill') hwire hmoved
    · exact publishPayload_out hrun hrc.le hwire

theorem Turned.after {c : MqttClient} {cb : Option PublishCb} {due due' : Bytes} {w : Writer}
    {r : Stage × MqttClient × MqttPublish} (hgrew : c.writer.wire.length < w.wire.length)
    (hdue : w.wire ++ due' = c.writer.wire ++ due) (h : Turned (c.withWriter w) cb due' r) : Turned c cb due r := by
  cases h with
  | @again rc w' p due'' hrc hsteady hflight hdue' hmoved =>
    exact .again (c := c) (w := w') hrc hsteady hflight (hdue'.trans hdue) (.grew hgrew hmoved)
  | out hstage hwire => exact .out hstage (hwire.trans hdue)

/-- The payload of a publish from a buffer may all be in the first piece. -/
theorem publishPayload_whole {c : MqttClient} {p : MqttPublish} (k : Nat) (hq : ¬p.bufferPos < p.totalLen) :
    Turned c none [] (c.publishPayload k none p) := by
  have hrun : c.writePayload p none = (Code.success, c, p) := by
    rw [writePayload, if_neg hq]
  exact publishPayload_out hrun (by decide) (by rw [List.append_nil])

/-- The header case, and what it falls through to. -/
theorem publishWrite_header {c : MqttClient} (k : Nat) {cb : Option PublishCb} {p : MqttPublish} {due : Bytes}
    (hnb : c.nonblock = true) (hnet : Answers Code.continue c.netWrite) (hs : Steady c cb p)
    (hw : p.stat.write = .header) (h : InFlight c cb p due) : Turned c cb due (c.publishWrite k cb p) := by
  have hsteady : ∀ w, Steady (c.withWriter w) cb {p with stat := {p.stat with write := .payload}} := fun w =>
    ⟨hs.sent, hs.allowed, hs.level, hs.word, hs.room, hs.small, hs.supplies⟩
  have hcontinue : ∀ {piece : Bytes} {w' : Writer}, c.writer.len = piece.length →
      c.packetWrite piece.length = (Code.continue, c.withWriter w') →
        c.publishWrite k cb p = (.ret Code.continue, c.withWriter w', p) := by
    intro piece w' hlen hrun
    simp only [publishWrite, hw, publishHeader, hlen, hrun, withWriter_nonblock, hnb, true_and, if_true]
  have hnext : ∀ {piece : Bytes} {w' : Writer}, c.writer.len = piece.length →
      c.packetWrite piece.length = ((piece.length : Int), c.withWriter w') →
        c.publishWrite k cb p =
          (c.withWriter {w' with len := 0}).publishPayload k cb {p with stat := {p.stat with write := .payload}} := by
    intro piece w' hlen hrun
    have hno : ¬((piece.length : Int) = Code.continue) := by
      have : Code.continue < 0 := by decide
      omega
    simp only [publishWrite, hw, publishHeader, hlen, hrun, hno, and_false, if_false, ne_eq, not_true_eq_false]
    rfl
  cases h with
  | buffer hcb hw' => rw [hw] at hw'; cases hw'
  | fill hcb hw' => rw [hw] at hw'; cases hw'
  | @header piece b hcb hw' hlen hbuf hsmall hpos hp hint hq hb =>
    subst hcb
    rcases packetWrite_once _ hnb hnet hsmall hbuf hpos with ⟨w', hrun, hstop⟩ | ⟨w', hrun, hfin⟩
    · rw [hcontinue hlen hrun]
      refine .again (.inl rfl) (hs.alike (.refl p) w')
        (.header rfl hw (hstop.len.trans hlen) (hstop.txBuf.trans hbuf) hsmall hstop.pos hp hint hq hb) ?_ hstop.moved
      rw [withWriter_writer, ← List.append_assoc, hstop.rest, List.append_assoc]
    · rw [hnext hlen hrun]
      have hgrew : c.writer.wire.length < ({w' with len := 0} : Writer).wire.length := by
        show _ < w'.wire.length
        rw [hfin.wire, List.length_append, List.length_drop]
        omega
      have hdue : ({w' with len := 0} : Writer).wire ++ b.drop p.bufferPos =
          c.writer.wire ++ (piece.drop c.writer.pos ++ b.drop p.bufferPos) := by
        show w'.wire ++ _ = _
        rw [hfin.wire, List.append_assoc]
      refine .after hgrew hdue ?_
      by_cases hmore : p.bufferPos < p.totalLen
      · have hpos' : ({w' with len := 0} : Writer).pos < min (p.totalLen - p.bufferPos) c.txBufLen := by
          show w'.pos < _
          have := hs.room
          rw [hfin.pos]
          omega
        have h0 : 0 < p.bufferPos := by
          rcases Nat.eq_zero_or_pos p.bufferPos with h0 | h0
          · have := hq h0
            omega
          · exact h0
        have hwhole := hp (by omega)
        have hflight := InFlight.buffer (c := c.withWriter {w' with len := 0})
          (p := {p with stat := {p.stat with write := .payload}}) rfl rfl
          ⟨hwhole.buffer, hwhole.total, hwhole.len, hwhole.word⟩ hint h0 hmore hpos'
        have hzero : (c.withWriter {w' with len := 0}).writer.pos = 0 := hfin.pos
        rw [hzero, List.drop_zero] at hflight
        exact publishPayload_turned k hnb hnet (hsteady _) rfl hflight
      · have hnil : b.drop p.bufferPos = [] := List.drop_of_length_le (by omega)
        rw [hnil]
        exact publishPayload_whole (p := {p with stat := {p.stat with write := .payload}}) k hmore
  | @headerCb piece f hcb hw' hlen hbuf hsmall hpos hint hq =>
    subst hcb
    rcases packetWrite_once _ hnb hnet hsmall hbuf hpos with ⟨w', hrun, hstop⟩ | ⟨w', hrun, hfin⟩
    · rw [hcontinue hlen hrun]
      refine .again (.inl rfl) (hs.alike (.refl p) w')
        (.headerCb rfl hw (hstop.len.trans hlen) (hstop.txBuf.trans hbuf) hsmall hstop.pos hint hq) ?_ hstop.moved
      rw [withWriter_writer, ← List.append_assoc, hstop.rest, List.append_assoc]
    · rw [hnext hlen hrun]
      have hgrew : c.writer.wire.length < ({w' with len := 0} : Writer).wire.length := by
        show _ < w'.wire.length
        rw [hfin.wire, List.length_append, List.length_drop]
        omega
      have hdue : ({w' with len := 0} : Writer).wire ++ payloadFrom f p.bufferLen p.totalLen p.asked p.bufferPos =
          c.writer.wire ++ (piece.drop c.writer.pos ++ payloadFrom f p.bufferLen p.totalLen p.asked p.bufferPos) := by
        show w'.wire ++ _ = _
        rw [hfin.wire, List.append_assoc]
      refine .after hgrew hdue ?_
      exact publishPayload_turned k hnb hnet (hsteady _) rfl
        (.fill rfl rfl (.fresh (p := {p with stat := {p.stat with write := .payload}}) rfl hfin.pos hint hq))

/-- A call of `MqttClient_Publish` in the middle of a nonblocking publish. -/
theorem publishWrite_turned {c : MqttClient} (k : Nat) {cb : Option PublishCb} {p : MqttPublish} {due : Bytes}
    (hnb : c.nonblock = true) (hnet : Answers Code.continue c.netWrite) (hs : Steady c cb p)
    (h : InFlight c cb p due) : Turned c cb due (c.publishWrite k cb p) := by
  have hpayload : p.stat.write = .payload → Turned c cb due (c.publishWrite k cb p) := by
    intro hw
    have hrun : c.publishWrite k cb p = c.publishPayload k cb p := by
      simp only [publishWrite, hw]
    rw [hrun]
    exact publishPayload_turned k hnb hnet hs hw h
  cases h with
  | header hcb hw hlen hbuf hsmall hpos hp hint hq hb =>
    exact publishWrite_header k hnb hnet hs hw (.header hcb hw hlen hbuf hsmall hpos hp hint hq hb)
  | headerCb hcb hw hlen hbuf hsmall hpos hint hq =>
    exact publishWrite_header k hnb hnet hs hw (.headerCb hcb hw hlen hbuf hsmall hpos hint hq)
  | buffer hcb hw => exact hpayload hw
  | fill hcb hw => exact hpayload hw

end MqttClient
end WolfMqtt
