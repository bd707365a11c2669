import WolfMqtt.Client.Publish
import WolfMqtt.Lib.Transfer

/-! The pieces of a publish: what one write, or one run of `MqttClient_Publish_WritePayload`, does to
the wire.

A nonblocking build writes until the transport stops it and comes back to the same byte; between two
calls the wire together with what is still due is the packet. A blocking build writes a piece
whole or gives up. -/
namespace WolfMqtt
open Transfer

/-! ### One write -/
namespace Writer

/-- A nonblocking write of what is behind `pos` in `buf`: nothing, a part, or all of it. -/
inductive Wrote (net : Nat → Int) (buf : Bytes) (w : Writer) : Int × Writer → Prop
  | later (h : net w.turn ≤ 0) : Wrote net buf w (Code.continue, w.next)
  | part (n : Nat) (h0 : 0 < n) (h : w.pos + n < buf.length) : Wrote net buf w (Code.continue, w.accept buf n)
  | whole : Wrote net buf w (buf.length, {w.accept buf (buf.length - w.pos) with pos := 0})

theorem socketWrite_once {net : Nat → Int} (hnet : Answers Code.continue net) {buf : Bytes} {w : Writer}
    (hpos : w.pos < buf.length) : Wrote net buf w (w.socketWrite true net buf) := by
  have h0 : ¬buf.length = 0 := by omega
  have h1 : ¬w.pos ≥ buf.length := by omega
  simp only [socketWrite, h0, h1, if_false, if_true]
  rcases hnet w.turn with hpos' | hlater
  · have hge : net w.turn ≥ 0 := by omega
    simp only [hge, if_true]
    by_cases hlt : (w.accept buf (min (net w.turn).toNat (buf.length - w.pos))).pos < buf.length
    · rw [if_pos hlt]
      exact .part _ (by omega) hlt
    · rw [if_neg hlt]
      have hall : min (net w.turn).toNat (buf.length - w.pos) = buf.length - w.pos := by
        simp only [accept] at hlt
        omega
      rw [hall, if_pos (by simp only [gt_iff_lt]; omega)]
      have hend : ((w.accept buf (buf.length - w.pos)).pos : Int) = buf.length := by
        simp only [accept]
        omega
      rw [hend]
      exact .whole
  · have hlt : ¬net w.turn ≥ 0 := by rw [hlater]; decide
    simp only [hlt, if_false]
    rw [if_neg (by omega), hlater]
    exact .later (by omega)

/-- The loop of a blocking write, by what the transport makes of it. -/
theorem writeLoop_eq {net : Nat → Int} (hnet : Answers Code.continue net) (buf : Bytes) (fuel : Nat) (w : Writer)
    (hpos : w.pos < buf.length) (hfuel : buf.length - w.pos ≤ fuel) :
    (writeLoop net buf fuel w).2 =
        {w with
          pos := buf.length - (carry net fuel w.turn (buf.length - w.pos)).2
          turn := (carry net fuel w.turn (buf.length - w.pos)).1
          wire := w.wire ++ (buf.drop w.pos).take (buf.length - w.pos - (carry net fuel w.turn (buf.length - w.pos)).2)} ∧
      if (carry net fuel w.turn (buf.length - w.pos)).2 = 0 then 0 < (writeLoop net buf fuel w).1
      else (writeLoop net buf fuel w).1 = Code.continue := by
  induction fuel generalizing w with
  | zero => omega
  | succ fuel ih =>
    rcases hnet w.turn with hsome | hlater
    · have hno : ¬net w.turn ≤ 0 := by omega
      by_cases hlt : (net w.turn).toNat < buf.length - w.pos
      · have hmin : min (net w.turn).toNat (buf.length - w.pos) = (net w.turn).toNat := by omega
        have hpos' : (w.accept buf (net w.turn).toNat).pos < buf.length := by
          simp only [accept]
          omega
        have hrest : buf.length - (w.accept buf (net w.turn).toNat).pos = buf.length - w.pos - (net w.turn).toNat := by
          simp only [accept]
          omega
        have hrun := ih (w.accept buf (net w.turn).toNat) hpos' (by rw [hrest]; omega)
        rw [hrest] at hrun
        simp only [writeLoop, carry, hno, if_false, hmin, hpos', if_true, hlt]
        refine ⟨?_, hrun.2⟩
        rw [hrun.1]
        simp only [accept, Writer.mk.injEq, true_and]
        rw [List.append_assoc, ← List.drop_drop, ← List.take_add]
        congr 2
        have := carry_left_le net fuel (w.turn + 1) (buf.length - w.pos - (net w.turn).toNat)
        omega
      · have hmin : min (net w.turn).toNat (buf.length - w.pos) = buf.length - w.pos := by omega
        have hpos' : ¬(w.accept buf (buf.length - w.pos)).pos < buf.length := by
          simp only [accept]
          omega
        simp only [writeLoop, carry, hno, if_false, hmin, hpos', hlt, if_true]
        refine ⟨?_, by omega⟩
        simp only [accept, Writer.mk.injEq, and_true, Nat.sub_zero]
        omega
    · have hno : net w.turn ≤ 0 := by rw [hlater]; decide
      have hleft : ¬buf.length - w.pos = 0 := by omega
      simp only [writeLoop, carry, hno, if_true, hleft, if_false]
      refine ⟨?_, hlater⟩
      simp only [next, Nat.sub_self, List.take_zero, List.append_nil, Writer.mk.injEq, and_true]
      omega

/-- A blocking write of a fresh piece: the whole of it, or a front of it and a refusal. -/
theorem socketWrite_all {net : Nat → Int} (hnet : Answers Code.continue net) {buf : Bytes} {w : Writer}
    (hpos : w.pos = 0) (hbuf : 0 < buf.length) :
    w.socketWrite false net buf =
      if (carry net buf.length w.turn buf.length).2 = 0 then
        ((buf.length : Int), {w with turn := (carry net buf.length w.turn buf.length).1, wire := w.wire ++ buf})
      else
        (Code.continue,
          {w with
            pos := buf.length - (carry net buf.length w.turn buf.length).2
            turn := (carry net buf.length w.turn buf.length).1
            wire := w.wire ++ buf.take (buf.length - (carry net buf.length w.turn buf.length).2)}) := by
  have h0 : ¬buf.length = 0 := by omega
  have h1 : ¬0 ≥ buf.length := by omega
  obtain ⟨hw, hrc⟩ := writeLoop_eq hnet buf (buf.length - w.pos) w (by omega) le_rfl
  rw [hpos, Nat.sub_zero] at hw hrc
  simp only [socketWrite, h0, h1, if_false, Bool.false_eq_true, hpos, Nat.sub_zero]
  rw [hw]
  split at hrc
  · next hall =>
    simp only [hall, if_true, gt_iff_lt, hrc]
    simp
  · next hleft =>
    have hneg : ¬(Code.continue > 0) := by decide
    simp only [hrc, hneg, if_false, hleft, List.drop_zero]

end Writer
namespace MqttClient

/-- The client with another writer: all that sending the pieces of a packet changes in it. -/
def withWriter (c : MqttClient) (w : Writer) : MqttClient := {c with writer := w}

@[simp] theorem setLen_nonblock (c : MqttClient) (n : Nat) : (c.setLen n).nonblock = c.nonblock := rfl
@[simp] theorem fill_nonblock (c : MqttClient) (b : Bytes) : (c.fill b).nonblock = c.nonblock := rfl
@[simp] theorem setLen_txBufLen (c : MqttClient) (n : Nat) : (c.setLen n).txBufLen = c.txBufLen := rfl
@[simp] theorem fill_txBufLen (c : MqttClient) (b : Bytes) : (c.fill b).txBufLen = c.txBufLen := rfl
@[simp] theorem withWriter_nonblock (c : MqttClient) (w : Writer) : (c.withWriter w).nonblock = c.nonblock := rfl
@[simp] theorem withWriter_txBufLen (c : MqttClient) (w : Writer) : (c.withWriter w).txBufLen = c.txBufLen := rfl
@[simp] theorem withWriter_writer (c : MqttClient) (w : Writer) : (c.withWriter w).writer = w := rfl

/-- A piece no larger than the Maximum Packet Size goes to the socket. -/
def Small (c : MqttClient) (n : Nat) : Prop := c.packetSzMax = 0 ∨ n ≤ c.packetSzMax

theorem packetWrite_small {c : MqttClient} {len : Nat} (h : c.Small len) :
    c.packetWrite len =
      ((c.writer.socketWrite c.nonblock c.netWrite (c.writer.txBuf.take len)).1,
        c.withWriter (c.writer.socketWrite c.nonblock c.netWrite (c.writer.txBuf.take len)).2) := by
  have hno : ¬(c.packetSzMax > 0 ∧ len > 0 ∧ len > c.packetSzMax) := by
    unfold Small at h
    omega
  rw [packetWrite, if_neg hno]
  rfl

/-! ### The pieces of a nonblocking publish

Between two calls a piece is in `tx_buf` up to `pos`, and the wire together with what is still due is
the packet. -/

/-- What a call that has to be repeated has achieved. -/
def Moved (net : Nat → Int) (w w' : Writer) : Prop :=
  w.wire.length < w'.wire.length ∨ (w'.wire.length = w.wire.length ∧ w'.turn = w.turn + 1 ∧ net w.turn ≤ 0)

theorem Moved.grew {net : Nat → Int} {w w' w'' : Writer} (h : w.wire.length < w'.wire.length)
    (h' : Moved net w' w'') : Moved net w w'' := by
  rcases h' with hlt | ⟨heq, -, -⟩
  · exact .inl (h.trans hlt)
  · exact .inl (heq ▸ h)

/-- A write of `piece` that did not get to its end. -/
structure Stopped (net : Nat → Int) (piece : Bytes) (w w' : Writer) : Prop where
  pos : w'.pos < piece.length
  rest : w'.wire ++ piece.drop w'.pos = w.wire ++ piece.drop w.pos
  len : w'.len = w.len
  txBuf : w'.txBuf = w.txBuf
  moved : Moved net w w'

/-- A write of `piece` that got to its end. -/
structure Finished (piece : Bytes) (w w' : Writer) : Prop where
  pos : w'.pos = 0
  wire : w'.wire = w.wire ++ piece.drop w.pos
  len : w'.len = w.len

theorem packetWrite_once {c : MqttClient} (piece : Bytes) (hnb : c.nonblock = true)
    (hnet : Answers Code.continue c.netWrite) (hsmall : c.Small piece.length) (hbuf : c.writer.txBuf = piece)
    (hpos : c.writer.pos < piece.length) :
    (∃ w', c.packetWrite piece.length = (Code.continue, c.withWriter w') ∧ Stopped c.netWrite piece c.writer w') ∨
      ∃ w', c.packetWrite piece.length = ((piece.length : Int), c.withWriter w') ∧ Finished piece c.writer w' := by
  rw [packetWrite_small hsmall, hbuf, List.take_of_length_le le_rfl, hnb]
  generalize hr : c.writer.socketWrite true c.netWrite piece = r
  have hwrote := Writer.socketWrite_once hnet hpos
  rw [hr] at hwrote
  cases hwrote with
  | later h =>
    exact .inl ⟨_, rfl, hpos, rfl, rfl, rfl, .inr ⟨rfl, rfl, h⟩⟩
  | part n h0 h =>
    refine .inl ⟨_, rfl, h, ?_, rfl, rfl, .inl ?_⟩
    · simp only [Writer.accept]
      rw [List.append_assoc, ← List.drop_drop, List.take_append_drop]
    · simp only [Writer.accept, List.length_append, List.length_take, List.length_drop]
      omega
  | whole =>
    refine .inr ⟨_, rfl, rfl, ?_, rfl⟩
    simp only [Writer.accept]
    rw [List.take_of_length_le (by rw [List.length_drop])]

/-- The payload of an object without a callback, as the encoder leaves it. -/
structure Whole (p : MqttPublish) (b : Bytes) : Prop where
  buffer : p.buffer = some b
  total : b.length = p.totalLen
  len : p.bufferLen = p.totalLen
  word : p.totalLen < 4294967296

theorem word32_of_lt {n : Nat} (h : n < 4294967296) : word32 n = n := by
  rw [word32]
  exact Nat.mod_eq_of_lt h

theorem word32Sub_of_le {a b : Nat} (h : b ≤ a) (ha : a < 4294967296) : word32Sub a b = a - b := by
  rw [word32Sub, word32]
  omega

/-- One call of `MqttClient_Publish_WritePayload` in the middle of a nonblocking publish from a buffer. -/
theorem writePayload_buffer_once {c : MqttClient} {p : MqttPublish} {b : Bytes} (hnb : c.nonblock = true)
    (hnet : Answers Code.continue c.netWrite) (hp : Whole p b) (hint : p.intBufPos = 0) (h0 : 0 < p.bufferPos)
    (hq : p.bufferPos < p.totalLen) (hsmall : c.Small (min (p.totalLen - p.bufferPos) c.txBufLen))
    (hpos : c.writer.pos < min (p.totalLen - p.bufferPos) c.txBufLen) :
    (∃ w', c.writePayload p none = (Code.continue, c.withWriter w', p) ∧
        w'.pos < min (p.totalLen - p.bufferPos) c.txBufLen ∧
        w'.wire ++ (b.drop p.bufferPos).drop w'.pos = c.writer.wire ++ (b.drop p.bufferPos).drop c.writer.pos ∧
        Moved c.netWrite c.writer w') ∨
      ∃ w' q rc, c.writePayload p none = (rc, c.withWriter w', {p with bufferPos := q}) ∧ w'.pos = 0 ∧
        w'.wire ++ b.drop q = c.writer.wire ++ (b.drop p.bufferPos).drop c.writer.pos ∧
        c.writer.wire.length < w'.wire.length ∧ p.bufferPos < q ∧
        ((q < p.totalLen ∧ rc = Code.pubContinue) ∨ (q = p.totalLen ∧ 0 < rc)) := by
  have htotal := hp.total
  have hword := hp.word
  generalize hlen : min (p.totalLen - p.bufferPos) c.txBufLen = len at hsmall hpos
  have hpiece : ((b.drop p.bufferPos).take len).length = len := by
    rw [List.length_take, List.length_drop]
    omega
  have hone := packetWrite_once (c := (c.setLen len).fill ((b.drop p.bufferPos).take len))
    ((b.drop p.bufferPos).take len) hnb hnet (by rw [hpiece]; exact hsmall) rfl (by rw [hpiece]; exact hpos)
  rw [hpiece] at hone
  have hbuf : p.buffer.getD [] = b := by rw [hp.buffer]; rfl
  simp only [writePayload, hq, if_true, h0, hnb, hbuf, hlen]
  rcases hone with ⟨w', hw, hstop⟩ | ⟨w', hw, hfin⟩
  · left
    have hneg : Code.continue < 0 := by decide
    refine ⟨w', ?_, by rw [← hpiece]; exact hstop.pos, ?_, hstop.moved⟩
    · have hw' : ((c.setLen len).fill ((b.drop p.bufferPos).take len)).packetWrite
          ((c.setLen len).fill ((b.drop p.bufferPos).take len)).writer.len =
            (Code.continue, ((c.setLen len).fill ((b.drop p.bufferPos).take len)).withWriter w') := hw
      simp only [hw', hneg, if_true, fill_nonblock, setLen_nonblock, hnb]
      rfl
    · have hrest := hstop.rest
      have hle : w'.pos ≤ ((b.drop p.bufferPos).take len).length := hstop.pos.le
      have hle' : c.writer.pos ≤ ((b.drop p.bufferPos).take len).length := by omega
      calc w'.wire ++ (b.drop p.bufferPos).drop w'.pos
          = w'.wire ++ (((b.drop p.bufferPos).take len).drop w'.pos ++ (b.drop p.bufferPos).drop len) := by
            rw [← List.drop_append_of_le_length hle, List.take_append_drop]
        _ = c.writer.wire ++ (((b.drop p.bufferPos).take len).drop c.writer.pos ++ (b.drop p.bufferPos).drop len) := by
            rw [← List.append_assoc, hrest, List.append_assoc]
            rfl
        _ = c.writer.wire ++ (b.drop p.bufferPos).drop c.writer.pos := by
            rw [← List.drop_append_of_le_length hle', List.take_append_drop]
  · right
    have hlen0 : 0 < len := by omega
    have hnn : ¬((len : Int) < 0) := by omega
    have hw' : ((c.setLen len).fill ((b.drop p.bufferPos).take len)).packetWrite
        ((c.setLen len).fill ((b.drop p.bufferPos).take len)).writer.len =
          ((len : Int), ((c.setLen len).fill ((b.drop p.bufferPos).take len)).withWriter w') := hw
    have hwlen : (((c.setLen len).fill ((b.drop p.bufferPos).take len)).withWriter w').writer.len = len := hfin.len
    have hpos' : word32 (p.bufferPos + len) = p.bufferPos + len := word32_of_lt (by omega)
    have hwire : w'.wire = c.writer.wire ++ ((b.drop p.bufferPos).take len).drop c.writer.pos := hfin.wire
    have hrest : w'.wire ++ b.drop (p.bufferPos + len) = c.writer.wire ++ (b.drop p.bufferPos).drop c.writer.pos := by
      rw [hwire, List.append_assoc, ← List.drop_drop,
        ← List.drop_append_of_le_length (by rw [hpiece]; exact hpos.le), List.take_append_drop]
    have hgrew : c.writer.wire.length < w'.wire.length := by
      rw [hwire, List.length_append, List.length_drop, hpiece]
      omega
    simp only [hw', hnn, if_false, hwlen, hpos', hp.len, fill_nonblock, setLen_nonblock, hnb, if_true]
    by_cases hmore : p.bufferPos + len < p.totalLen
    · refine ⟨w', p.bufferPos + len, Code.pubContinue, ?_, hfin.pos, hrest, hgrew, by omega, .inl ⟨hmore, rfl⟩⟩
      rw [if_pos hmore]
      rfl
    · refine ⟨w', p.bufferPos + len, len, ?_, hfin.pos, hrest, hgrew, by omega, .inr ⟨by omega, by omega⟩⟩
      rw [if_neg hmore]
      simp only [nextChunk, hnn, if_false, hint, Nat.add_zero, hpos', hmore]
      rfl

/-! ### The payload of a callback -/

/-- How much of the answer to the `a`-th question goes out when `q` of `total` bytes are out. -/
def fillLen (cb : PublishCb) (bufferLen total a q : Nat) : Nat := min (min (cb a).1.toNat bufferLen) (total - q)

/-- What a callback supplies from its `a`-th answer on, when `q` of `total` bytes are out. -/
def supplied (cb : PublishCb) (bufferLen total : Nat) : Nat → Nat → Nat → Bytes
  | 0, _, _ => []
  | fuel + 1, a, q =>
    (cb a).2.take (fillLen cb bufferLen total a q) ++
      supplied cb bufferLen total fuel (a + 1) (q + fillLen cb bufferLen total a q)

/-- The payload of a publish with a callback, from `q` on. -/
def payloadFrom (cb : PublishCb) (bufferLen total a q : Nat) : Bytes :=
  supplied cb bufferLen total (total - q) a q

/-- A callback that has something for its buffer of `bufferLen` bytes each time it is asked. -/
structure Supplies (cb : PublishCb) (bufferLen : Nat) : Prop where
  some : ∀ a, 1 ≤ (cb a).1
  fills : ∀ a, (cb a).2.length = bufferLen

section Callback
variable {cb : PublishCb} {bufferLen total : Nat}

theorem Supplies.fillLen_pos (h : Supplies cb bufferLen) (hroom : 0 < bufferLen) {a q : Nat} (hq : q < total) :
    0 < fillLen cb bufferLen total a q := by
  have := h.some a
  unfold fillLen
  omega

theorem supplied_done (fuel : Nat) {a q : Nat} (h : total ≤ q) : supplied cb bufferLen total fuel a q = [] := by
  induction fuel generalizing a q with
  | zero => rfl
  | succ fuel ih =>
    have h0 : fillLen cb bufferLen total a q = 0 := by
      unfold fillLen
      omega
    simp only [supplied, h0, List.take_zero, List.nil_append, Nat.add_zero]
    exact ih h

theorem Supplies.supplied_fuel (h : Supplies cb bufferLen) (hroom : 0 < bufferLen) (fuel fuel' : Nat) {a q : Nat}
    (hf : total - q ≤ fuel) (hf' : total - q ≤ fuel') :
    supplied cb bufferLen total fuel a q = supplied cb bufferLen total fuel' a q := by
  induction fuel generalizing fuel' a q with
  | zero => rw [supplied_done 0 (by omega), supplied_done fuel' (by omega)]
  | succ fuel ih =>
    cases fuel' with
    | zero => rw [supplied_done _ (by omega), supplied_done 0 (by omega)]
    | succ fuel' =>
      by_cases hq : q < total
      · have hpos := h.fillLen_pos hroom (a := a) hq
        rw [supplied, supplied, ih fuel' (by omega) (by omega)]
      · rw [supplied_done _ (by omega), supplied_done _ (by omega)]

theorem Supplies.payloadFrom_next (h : Supplies cb bufferLen) (hroom : 0 < bufferLen) {a q : Nat} (hq : q < total) :
    payloadFrom cb bufferLen total a q =
      (cb a).2.take (fillLen cb bufferLen total a q) ++
        payloadFrom cb bufferLen total (a + 1) (q + fillLen cb bufferLen total a q) := by
  have hpos := h.fillLen_pos hroom (a := a) hq
  have hsucc : total - q = (total - q - 1) + 1 := by omega
  rw [payloadFrom, hsucc, supplied, payloadFrom,
    h.supplied_fuel hroom (total - q - 1) (total - (q + fillLen cb bufferLen total a q)) (by omega) le_rfl]

theorem payloadFrom_end (a : Nat) {q : Nat} (h : total ≤ q) : payloadFrom cb bufferLen total a q = [] :=
  supplied_done _ h

theorem length_supplied_le (fuel a q : Nat) : (supplied cb bufferLen total fuel a q).length ≤ total - q := by
  induction fuel generalizing a q with
  | zero => exact Nat.zero_le _
  | succ fuel ih =>
    have hle : fillLen cb bufferLen total a q ≤ total - q := Nat.min_le_right _ _
    have hrest := ih (a + 1) (q + fillLen cb bufferLen total a q)
    rw [supplied, List.length_append, List.length_take]
    omega

theorem Supplies.length_take (h : Supplies cb bufferLen) (total a q : Nat) :
    ((cb a).2.take (fillLen cb bufferLen total a q)).length = fillLen cb bufferLen total a q := by
  have := h.fills a
  rw [List.length_take]
  unfold fillLen
  omega

theorem Supplies.length_payloadFrom (h : Supplies cb bufferLen) (hroom : 0 < bufferLen) (total a q : Nat) :
    (payloadFrom cb bufferLen total a q).length = total - q := by
  obtain ⟨m, hm⟩ : ∃ m, total - q = m := ⟨_, rfl⟩
  induction m using Nat.strong_induction_on generalizing a q with
  | _ m ih =>
    by_cases hq : q < total
    · have hpos := h.fillLen_pos hroom (a := a) hq
      have hle : fillLen cb bufferLen total a q ≤ total - q := Nat.min_le_right _ _
      rw [h.payloadFrom_next hroom hq, List.length_append, h.length_take, ih _ (by omega) _ _ rfl]
      omega
    · rw [payloadFrom_end a (by omega), List.length_nil]
      omega

end Callback

/-! ### A nonblocking publish with a callback -/

/-- The same request, whatever its buffer holds now. -/
def Alike (p p' : MqttPublish) : Prop := p'.stat = p.stat ∧ ∃ b, p'.toPublish = {p.toPublish with buffer := b}

theorem Alike.refl (p : MqttPublish) : Alike p p := ⟨rfl, p.buffer, rfl⟩

theorem Alike.trans {p p' p'' : MqttPublish} (h : Alike p p') (h' : Alike p' p'') : Alike p p'' := by
  obtain ⟨hs, b, hb⟩ := h
  obtain ⟨hs', b', hb'⟩ := h'
  exact ⟨hs'.trans hs, b', by rw [hb', hb]⟩

/-- What the callback has supplied goes out piece by piece; a call stops inside a piece or after the last. -/
theorem writeFill_once {f : Bytes} (fuel : Nat) {c : MqttClient} {p : MqttPublish}
    (hnb : c.nonblock = true) (hnet : Answers Code.continue c.netWrite) (hf : p.buffer = some f)
    (hlen : p.intBufCbLen ≤ f.length) (hword : p.intBufCbLen < 4294967296) (htx : 0 < c.txBufLen)
    (hsmall : ∀ m ≤ p.intBufCbLen, c.Small m) (hi : p.intBufPos < p.intBufCbLen)
    (hpos : c.writer.pos < min (p.intBufCbLen - p.intBufPos) c.txBufLen) (hfuel : p.intBufCbLen - p.intBufPos ≤ fuel) :
    (∃ w' i l, c.writeFill fuel p = (Code.continue, c.withWriter w', {p with intBufPos := i, intBufLen := l}) ∧
        i < p.intBufCbLen ∧ w'.pos < min (p.intBufCbLen - i) c.txBufLen ∧
        w'.len = min (p.intBufCbLen - i) c.txBufLen ∧
        w'.wire ++ (f.take p.intBufCbLen).drop (i + w'.pos) =
          c.writer.wire ++ (f.take p.intBufCbLen).drop (p.intBufPos + c.writer.pos) ∧ Moved c.netWrite c.writer w') ∨
      ∃ w' rc, c.writeFill fuel p = (rc, c.withWriter w', {p with intBufPos := p.intBufCbLen, intBufLen := 0}) ∧
        0 < rc ∧ w'.pos = 0 ∧
        w'.wire = c.writer.wire ++ (f.take p.intBufCbLen).drop (p.intBufPos + c.writer.pos) ∧
        c.writer.wire.length < w'.wire.length := by
  induction fuel generalizing c p with
  | zero => omega
  | succ fuel ih =>
    generalize hl : min (p.intBufCbLen - p.intBufPos) c.txBufLen = len at hpos
    have hlen0 : 0 < len := by omega
    have hpiece : ((f.drop p.intBufPos).take len).length = len := by
      rw [List.length_take, List.length_drop]
      omega
    have hslice : (f.drop p.intBufPos).take len = ((f.take p.intBufCbLen).drop p.intBufPos).take len := by
      rw [List.drop_take, List.take_take]
      congr 1
      omega
    have hsub := word32Sub_of_le hi.le hword
    have hbuf : p.buffer.getD [] = f := by rw [hf]; rfl
    have hone := packetWrite_once (c := (c.setLen len).fill ((f.drop p.intBufPos).take len))
      ((f.drop p.intBufPos).take len) hnb hnet (by rw [hpiece]; exact hsmall len (by omega)) rfl
      (by rw [hpiece]; exact hpos)
    rw [hpiece] at hone
    have hsplit : ∀ j, j ≤ len →
        (f.take p.intBufCbLen).drop (p.intBufPos + j) =
          ((f.drop p.intBufPos).take len).drop j ++ (f.take p.intBufCbLen).drop (p.intBufPos + len) := by
      intro j hj
      rw [hslice, ← List.drop_drop, ← List.drop_drop (i := len), ← List.drop_append_of_le_length
        (by rw [← hslice, hpiece]; exact hj), List.take_append_drop]
    simp only [writeFill, hsub, hl, hbuf]
    rcases hone with ⟨w', hw, hstop⟩ | ⟨w', hw, hfin⟩
    · left
      have hneg : Code.continue < 0 := by decide
      refine ⟨w', p.intBufPos, len, ?_, hi, ?_, ?_, ?_, hstop.moved⟩
      · simp only [hw, hneg, if_true]
        rfl
      · rw [hl, ← hpiece]
        exact hstop.pos
      · rw [hl]
        exact hstop.len
      · rw [hsplit w'.pos (by have := hstop.pos; omega), hsplit c.writer.pos (by omega), ← List.append_assoc,
          hstop.rest, ← List.append_assoc]
        rfl
    · have hnn : ¬((len : Int) < 0) := by omega
      have hi' : word32 (p.intBufPos + len) = p.intBufPos + len := word32_of_lt (by omega)
      have hwire : w'.wire = c.writer.wire ++ ((f.drop p.intBufPos).take len).drop c.writer.pos := hfin.wire
      have hgrew : c.writer.wire.length < w'.wire.length := by
        rw [hwire, List.length_append, List.length_drop, hpiece]
        omega
      simp only [hw, hnn, if_false, hi']
      by_cases hmore : p.intBufPos + len < p.intBufCbLen
      · rw [if_pos hmore]
        have hrun := ih (c := c.withWriter w') (p := {p with intBufPos := p.intBufPos + len, intBufLen := 0}) hnb hnet
          hf hlen hword htx hsmall hmore
          (by
            show w'.pos < min (p.intBufCbLen - (p.intBufPos + len)) c.txBufLen
            rw [hfin.pos]
            omega)
          (by
            show p.intBufCbLen - (p.intBufPos + len) ≤ fuel
            omega)
        have hdue : w'.wire ++ (f.take p.intBufCbLen).drop (p.intBufPos + len + w'.pos) =
            c.writer.wire ++ (f.take p.intBufCbLen).drop (p.intBufPos + c.writer.pos) := by
          rw [hfin.pos, Nat.add_zero, hwire, List.append_assoc, ← hsplit _ hpos.le]
        rcases hrun with ⟨w'', i, l, hrun, hlt, hp'', hlen'', hrest, hmoved⟩ | ⟨w'', rc, hrun, hrc, hp'', hrest, hgrew'⟩
        · exact .inl ⟨w'', i, l, hrun, hlt, hp'', hlen'', hrest.trans hdue, .grew hgrew hmoved⟩
        · exact .inr ⟨w'', rc, hrun, hrc, hp'', hrest.trans hdue, hgrew.trans hgrew'⟩
      · rw [if_neg hmore]
        have hend : p.intBufPos + len = p.intBufCbLen := by omega
        refine .inr ⟨w', len, ?_, by omega, hfin.pos, ?_, hgrew⟩
        · rw [hend]
          rfl
        · have hnil : (f.take p.intBufCbLen).drop p.intBufCbLen = [] :=
            List.drop_of_length_le (List.length_take_le _ _)
          rw [hwire, hsplit _ hpos.le, hend, hnil, List.append_nil]

/-- Where a publish with a callback stands between two writes: all it has supplied is out, or a piece of
its last answer is in `tx_buf`. -/
inductive Filling (cb : PublishCb) (txBufLen : Nat) (w : Writer) (p : MqttPublish) : Bytes → Prop
  | fresh (hlen : w.len = 0) (hpos : w.pos = 0) (hint : p.intBufPos = 0) (hq : p.bufferPos < p.totalLen) :
      Filling cb txBufLen w p (payloadFrom cb p.bufferLen p.totalLen p.asked p.bufferPos)
  | mid {f : Bytes} (hf : p.buffer = some f) (hfits : p.intBufCbLen ≤ f.length)
      (hq : p.bufferPos + p.intBufCbLen ≤ p.totalLen) (hi : p.intBufPos < p.intBufCbLen)
      (hpos : w.pos < min (p.intBufCbLen - p.intBufPos) txBufLen)
      (hlen : w.len = min (p.intBufCbLen - p.intBufPos) txBufLen) :
      Filling cb txBufLen w p ((f.take p.intBufCbLen).drop (p.intBufPos + w.pos) ++
        payloadFrom cb p.bufferLen p.totalLen p.asked (p.bufferPos + p.intBufCbLen))

/-- The callback is asked when there is nothing in hand; then a piece of its answer is to go out. -/
theorem askCb_mid {cb : PublishCb} {c : MqttClient} {p : MqttPublish} {due : Bytes} (hcb : Supplies cb p.bufferLen)
    (hroom : 0 < p.bufferLen) (htx : 0 < c.txBufLen) (hword : p.totalLen < 4294967296)
    (h : Filling cb c.txBufLen c.writer p due) :
    ∃ w' p' f, c.askCb cb p = (Code.success, c.withWriter w', p') ∧ Alike p p' ∧ p'.buffer = some f ∧
      p'.intBufCbLen ≤ f.length ∧ p'.bufferPos = p.bufferPos ∧ p'.bufferPos + p'.intBufCbLen ≤ p.totalLen ∧
      p'.intBufPos < p'.intBufCbLen ∧ w'.pos < min (p'.intBufCbLen - p'.intBufPos) c.txBufLen ∧
      w'.wire = c.writer.wire ∧ w'.turn = c.writer.turn ∧
      due = (f.take p'.intBufCbLen).drop (p'.intBufPos + w'.pos) ++
        payloadFrom cb p.bufferLen p.totalLen p'.asked (p'.bufferPos + p'.intBufCbLen) := by
  cases h with
  | fresh hlen hpos hint hq =>
    have hsome := hcb.some p.asked
    have hnn : ¬(cb p.asked).1 < 0 := by omega
    have hsub := word32Sub_of_le hq.le hword
    have hfill := hcb.fillLen_pos hroom (a := p.asked) hq
    have hle : fillLen cb p.bufferLen p.totalLen p.asked p.bufferPos ≤ p.totalLen - p.bufferPos := Nat.min_le_right _ _
    refine ⟨{c.writer with len := (cb p.asked).1.toNat},
      {p with
        asked := p.asked + 1
        buffer := some (cb p.asked).2
        intBufCbLen := fillLen cb p.bufferLen p.totalLen p.asked p.bufferPos},
      (cb p.asked).2, ?_, ⟨rfl, _, rfl⟩, rfl, ?_, rfl, ?_, ?_, ?_, rfl, rfl, ?_⟩
    · simp only [askCb, hlen, if_true, hnn, if_false, hsub]
      rfl
    · rw [hcb.fills]
      show fillLen cb p.bufferLen p.totalLen p.asked p.bufferPos ≤ p.bufferLen
      unfold fillLen
      omega
    · show p.bufferPos + fillLen cb p.bufferLen p.totalLen p.asked p.bufferPos ≤ p.totalLen
      omega
    · show p.intBufPos < fillLen cb p.bufferLen p.totalLen p.asked p.bufferPos
      omega
    · show c.writer.pos < min (fillLen cb p.bufferLen p.totalLen p.asked p.bufferPos - p.intBufPos) c.txBufLen
      omega
    · show _ = ((cb p.asked).2.take _).drop (p.intBufPos + c.writer.pos) ++ _
      rw [hint, hpos, Nat.add_zero, List.drop_zero]
      exact hcb.payloadFrom_next hroom hq
  | mid hf hfits hq hi hpos hlen =>
    have h0 : ¬c.writer.len = 0 := by omega
    refine ⟨c.writer, p, _, ?_, .refl p, hf, hfits, rfl, hq, hi, hpos, rfl, rfl, rfl⟩
    rw [askCb, if_neg h0]
    rfl

/-- One round of the outer loop. -/
theorem writeCb_succ (cb : PublishCb) (fuel : Nat) (c : MqttClient) (p : MqttPublish) :
    c.writeCb cb (fuel + 1) p =
      let (rc, c, p) := c.askCb cb p
      if rc < 0 then (rc, c, p)
      else
        let (rc, c, p) := c.writeFill (p.intBufCbLen + 1) p
        if rc < 0 then (rc, c, p)
        else
          let p := {p with bufferPos := word32 (p.bufferPos + p.intBufPos), intBufPos := 0}
          let c := c.setLen 0
          if p.bufferPos < p.totalLen then c.writeCb cb fuel p else (rc, c, p) :=
  rfl

/-- One call of `MqttClient_Publish_WritePayload` with a callback: it stops inside a piece, or all of the
payload is out. -/
theorem writeCb_once {cb : PublishCb} (fuel : Nat) {c : MqttClient} {p : MqttPublish} {due : Bytes}
    (hnb : c.nonblock = true) (hnet : Answers Code.continue c.netWrite) (hcb : Supplies cb p.bufferLen)
    (hroom : 0 < p.bufferLen) (htx : 0 < c.txBufLen) (hword : p.totalLen < 4294967296)
    (hsmall : ∀ m ≤ p.totalLen, c.Small m) (h : Filling cb c.txBufLen c.writer p due)
    (hfuel : p.totalLen - p.bufferPos < fuel) :
    (∃ w' p' due', c.writeCb cb fuel p = (Code.continue, c.withWriter w', p') ∧ Alike p p' ∧
        Filling cb c.txBufLen w' p' due' ∧ w'.wire ++ due' = c.writer.wire ++ due ∧ Moved c.netWrite c.writer w') ∨
      ∃ w' p' rc, c.writeCb cb fuel p = (rc, c.withWriter w', p') ∧ Alike p p' ∧ 0 < rc ∧
        w'.wire = c.writer.wire ++ due := by
  induction fuel generalizing c p due with
  | zero => omega
  | succ fuel ih =>
    obtain ⟨w₁, p₁, f, hask, hlike, hf, hfits, hq, hle, hi, hpos, hwire, hturn, rfl⟩ :=
      askCb_mid hcb hroom htx hword h
    obtain ⟨hstat, b, hreq⟩ := hlike
    have htotal : p₁.totalLen = p.totalLen := by rw [hreq]
    have hblen : p₁.bufferLen = p.bufferLen := by rw [hreq]
    have hnn : ¬Code.success < 0 := by decide
    have hfill := writeFill_once (p₁.intBufCbLen + 1) (c := c.withWriter w₁) (p := p₁) (f := f) hnb hnet hf hfits
      (by omega) htx (fun m hm => hsmall m (by omega)) hi hpos (by omega)
    rw [writeCb_succ, hask]
    simp only [hnn, if_false]
    rcases hfill with ⟨w', i, l, hrun, hi', hpos', hlen', hrest, hmoved⟩ | ⟨w', rc, hrun, hrc, hpos', hrest, hgrew⟩
    · left
      have hneg : Code.continue < 0 := by decide
      have hq' : p₁.bufferPos + p₁.intBufCbLen ≤ p₁.totalLen := by omega
      refine ⟨w', {p₁ with intBufPos := i, intBufLen := l}, _, ?_, ⟨hstat, b, hreq⟩,
        .mid (f := f) hf hfits hq' hi' hpos' hlen', ?_, ?_⟩
      · simp only [hrun, hneg, if_true]
        rfl
      · show w'.wire ++ ((f.take p₁.intBufCbLen).drop (i + w'.pos) ++
          payloadFrom cb p₁.bufferLen p₁.totalLen p₁.asked (p₁.bufferPos + p₁.intBufCbLen)) = _
        rw [← List.append_assoc, hrest, withWriter_writer, hwire, htotal, hblen, List.append_assoc]
      · unfold Moved at hmoved ⊢
        rw [withWriter_writer, hwire, hturn] at hmoved
        exact hmoved
    · have hnn' : ¬rc < 0 := by omega
      have hq' : word32 (p₁.bufferPos + p₁.intBufCbLen) = p₁.bufferPos + p₁.intBufCbLen := word32_of_lt (by omega)
      rw [withWriter_writer, hwire] at hrest hgrew
      simp only [hrun, hnn', if_false, hq', htotal]
      by_cases hmore : p₁.bufferPos + p₁.intBufCbLen < p.totalLen
      · rw [if_pos hmore]
        have hword' : p₁.totalLen < 4294967296 := by omega
        have hfuel' : p₁.totalLen - (p₁.bufferPos + p₁.intBufCbLen) < fuel := by omega
        have hfresh : Filling cb c.txBufLen {w' with len := 0}
            {p₁ with bufferPos := p₁.bufferPos + p₁.intBufCbLen, intBufPos := 0, intBufLen := 0}
            (payloadFrom cb p.bufferLen p.totalLen p₁.asked (p₁.bufferPos + p₁.intBufCbLen)) := by
          rw [← htotal, ← hblen]
          exact .fresh rfl hpos' rfl (hmore.trans_eq htotal.symm)
        have hrun' := ih (c := c.withWriter {w' with len := 0})
          (p := {p₁ with bufferPos := p₁.bufferPos + p₁.intBufCbLen, intBufPos := 0, intBufLen := 0}) hnb hnet
          (hblen ▸ hcb) (hblen ▸ hroom) htx hword' (fun m hm => hsmall m (hm.trans_eq htotal)) hfresh hfuel'
        have hdue : w'.wire ++ payloadFrom cb p.bufferLen p.totalLen p₁.asked (p₁.bufferPos + p₁.intBufCbLen) =
            c.writer.wire ++ ((f.take p₁.intBufCbLen).drop (p₁.intBufPos + w₁.pos) ++
              payloadFrom cb p.bufferLen p.totalLen p₁.asked (p₁.bufferPos + p₁.intBufCbLen)) := by
          rw [hrest, List.append_assoc]
        rcases hrun' with ⟨w'', p', due', hrun', hlike', hfill', hwire', hmoved'⟩ | ⟨w'', p', rc', hrun', hlike', hrc', hwire'⟩
        · exact .inl ⟨w'', p', due', hrun', Alike.trans ⟨hstat, b, hreq⟩ hlike', hfill', hwire'.trans hdue,
            .grew hgrew hmoved'⟩
        · exact .inr ⟨w'', p', rc', hrun', Alike.trans ⟨hstat, b, hreq⟩ hlike', hrc', hwire'.trans hdue⟩
      · rw [if_neg hmore]
        refine .inr ⟨{w' with len := 0},
          {p₁ with bufferPos := p₁.bufferPos + p₁.intBufCbLen, intBufPos := 0, intBufLen := 0}, rc, rfl,
          ⟨hstat, b, hreq⟩, hrc, ?_⟩
        rw [payloadFrom_end _ (by omega), List.append_nil]
        exact hrest

end MqttClient
end WolfMqtt
