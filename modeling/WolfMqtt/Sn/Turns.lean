import WolfMqtt.Packet.Vbi
import WolfMqtt.Sn.Wait

/-! What a client owes a message it receives, and that each handler gives no more and no less.

`Turn.calls` is the callback a message is owed, `Turn.answer` the packet it is owed after that. A
message is `Served` when its callback has been called, once and first, and what went to the
transport after it is the front of the answer: then the answer goes out at most once, and only
behind the callback. -/
namespace WolfMqtt.Sn

/-! ### What a message is owed -/

/-- What a client's callbacks and buffers come to, for one message. -/
structure Terms where
  msgCb : Bool
  regCb : Bool
  txLen : Nat

/-- The return code of a REGACK after a register callback that returned `rc`. -/
def Terms.returnCode (k : Terms) (rc : Int) : UInt8 :=
  if !k.regCb then ReturnCode.notSupported
  else if rc ≥ 0 then ReturnCode.accepted
  else ReturnCode.invTopicName

def Turn.packet (t : Turn) : Bytes := t.rxBuf.take t.bufLen

/-- The callbacks a message is owed; `rc` is what a register callback returns. -/
def Turn.calls (k : Terms) (rc : Int) (t : Turn) : List Act :=
  if t.type = MsgType.register then
    match decodeRegister t.rxBuf with
    | .error _ => []
    | .ok d => if k.regCb then [.register d.topicId d.name rc] else []
  else if t.type = MsgType.publish then
    match decodePublish t.packet with
    | .error _ => []
    | .ok publish => if k.msgCb then [.message publish] else []
  else []

/-- The packet a message is owed: a REGACK for a REGISTER, a PUBACK or PUBREC for a PUBLISH that is not of QoS 0
and that the application has, a PUBREL, a PUBCOMP, a PINGRESP. -/
def Turn.answer (k : Terms) (rc : Int) (t : Turn) : Bytes :=
  if t.type = MsgType.register then
    match decodeRegister t.rxBuf with
    | .error _ => []
    | .ok d => (encodeRegAck k.txLen (some (regAckOf d (k.returnCode rc)))).out
  else if t.type = MsgType.publish then
    match decodePublish t.packet with
    | .error _ => []
    | .ok publish => if k.msgCb ∧ publish.qos > 0 then (publishAnswer k.txLen publish).out else []
  else if t.type = MsgType.pubRec ∨ t.type = MsgType.pubRel then
    match decodePublishResp t.type t.packet with
    | .error _ => []
    | .ok resp =>
      (encodePublishResp k.txLen (if t.type = MsgType.pubRec then MsgType.pubRel else MsgType.pubComp) (some resp)).out
  else if t.type = MsgType.pingReq then
    match decodePing t.packet with
    | .error _ => []
    | .ok _ => (encodePing k.txLen none MsgType.pingResp).out
  else []

/-- The callback is called once, and behind it goes out the front of the answer. -/
def Turn.Served (k : Terms) (t : Turn) : Prop :=
  ∃ (rc : Int) (pieces : List Bytes), t.acts = t.calls k rc ++ pieces.map .wrote ∧ pieces.flatten <+: t.answer k rc

/-! ### Writing -/
section Writing

/-- A write puts the next piece of the buffer on the wire; if it has to be taken up again, it stands behind
that piece. -/
structure Wrote (buf : Bytes) (w : Writer) (rc : Int) (w' : Writer) : Prop where
  piece : ∃ n, w'.wire = w.wire ++ (buf.drop w.pos).take n ∧ (rc = Code.continue → w'.pos = w.pos + n)
  txBuf : w'.txBuf = w.txBuf
  len : w'.len = w.len

/-- A count of bytes is no code. -/
theorem natCast_ne_continue (n : Nat) : (n : Int) ≠ Code.continue := by
  have : Code.continue = -101 := rfl
  omega

theorem Wrote.nothing {buf : Bytes} {w : Writer} {rc : Int} (h : rc ≠ Code.continue) : Wrote buf w rc w :=
  ⟨⟨0, (List.append_nil _).symm, fun hrc => absurd hrc h⟩, rfl, rfl⟩

theorem Wrote.next (buf : Bytes) (w : Writer) (rc : Int) : Wrote buf w rc w.next :=
  ⟨⟨0, (List.append_nil _).symm, fun _ => rfl⟩, rfl, rfl⟩

theorem Wrote.accept (buf : Bytes) (w : Writer) (n : Nat) (rc : Int) : Wrote buf w rc (w.accept buf n) :=
  ⟨⟨n, rfl, fun _ => rfl⟩, rfl, rfl⟩

theorem Wrote.accept_then {buf : Bytes} {w w' : Writer} {n : Nat} {rc : Int}
    (h : Wrote buf (w.accept buf n) rc w') : Wrote buf w rc w' := by
  obtain ⟨m, hwire, hpos⟩ := h.piece
  refine ⟨⟨n + m, ?_, ?_⟩, h.txBuf, h.len⟩
  · rw [hwire]
    show w.wire ++ (buf.drop w.pos).take n ++ (buf.drop (w.pos + n)).take m = w.wire ++ (buf.drop w.pos).take (n + m)
    rw [List.append_assoc, List.take_add, List.drop_drop]
  · intro hrc
    rw [hpos hrc]
    exact Nat.add_assoc w.pos n m

theorem Wrote.done {buf : Bytes} {w w' : Writer} {rc : Int} (h : Wrote buf w rc w') (n : Nat) :
    Wrote buf w n {w' with pos := 0} := by
  obtain ⟨m, hwire, -⟩ := h.piece
  exact ⟨⟨m, hwire, fun hrc => absurd hrc (natCast_ne_continue n)⟩, h.txBuf, h.len⟩


theorem writeLoop_wrote (net : Nat → Int) (buf : Bytes) (fuel : Nat) (w : Writer) :
    Wrote buf w (Writer.writeLoop net buf fuel w).1 (Writer.writeLoop net buf fuel w).2 := by
  induction fuel generalizing w with
  | zero => exact Wrote.nothing (natCast_ne_continue w.pos)
  | succ fuel ih =>
    unfold Writer.writeLoop
    dsimp only
    split
    · exact Wrote.next buf w _
    split
    · exact (ih _).accept_then
    · exact Wrote.accept buf w _ _

theorem socketWrite_wrote (nonblock : Bool) (net : Nat → Int) (buf : Bytes) (w : Writer) :
    Wrote buf w (Writer.socketWrite nonblock net buf w).1 (Writer.socketWrite nonblock net buf w).2 := by
  have hdone : ∀ r : Int × Writer, Wrote buf w r.1 r.2 →
      Wrote buf w (if r.1 > 0 then (((r.2.pos : Nat) : Int), {r.2 with pos := 0}) else (r.1, r.2)).1
        (if r.1 > 0 then (((r.2.pos : Nat) : Int), {r.2 with pos := 0}) else (r.1, r.2)).2 := by
    intro r hr
    split
    · exact hr.done r.2.pos
    · exact hr
  unfold Writer.socketWrite
  split
  · exact Wrote.nothing (show Code.badArg ≠ Code.continue by decide)
  split
  · exact Wrote.nothing (show Code.outOfBuffer ≠ Code.continue by decide)
  cases nonblock with
  | false => exact hdone (Writer.writeLoop net buf (buf.length - w.pos) w) (writeLoop_wrote net buf _ w)
  | true =>
    refine hdone (if net w.turn ≥ 0 then _ else _) ?_
    split
    · split
      · exact Wrote.accept buf w _ _
      · exact Wrote.accept buf w _ _
    · exact Wrote.next buf w _

/-- Only the writer of the client has changed. -/
def WriterOnly (c c' : MqttClient) : Prop := c' = {c with writer := c'.writer}

theorem WriterOnly.refl (c : MqttClient) : WriterOnly c c := rfl

theorem WriterOnly.put {c c' : MqttClient} (h : WriterOnly c c') (w : Writer) : WriterOnly c {c' with writer := w} := by
  show {c' with writer := w} = {c with writer := w}
  rw [h]

theorem packetWrite_wrote (c : MqttClient) (len : Nat) :
    Wrote (c.writer.txBuf.take len) c.writer (c.packetWrite len).1 (c.packetWrite len).2.writer ∧
      WriterOnly c (c.packetWrite len).2 := by
  unfold MqttClient.packetWrite
  split
  · exact ⟨Wrote.nothing (show Code.serverProp ≠ Code.continue by decide), rfl⟩
  · exact ⟨socketWrite_wrote _ _ _ _, rfl⟩

end Writing

/-! ### Where a message stands -/
namespace SnClient

/-- What an answer leaves alone. -/
structure Kept (s s' : SnClient) : Prop where
  stats : s'.stats = s.stats
  nonblock : s'.client.nonblock = s.client.nonblock
  txBufLen : s'.client.txBufLen = s.client.txBufLen
  readActive : s'.client.readActive = s.client.readActive
  msgCb : s'.msgCb = s.msgCb
  regCb : s'.regCb = s.regCb
  bufLen : s'.bufLen = s.bufLen
  snWaitPacketType : s'.snWaitPacketType = s.snWaitPacketType
  snWaitPacketId : s'.snWaitPacketId = s.snWaitPacketId

theorem Kept.refl (s : SnClient) : Kept s s := ⟨rfl, rfl, rfl, rfl, rfl, rfl, rfl, rfl, rfl⟩

theorem Kept.trans {s s' s'' : SnClient} (h : Kept s s') (h' : Kept s' s'') : Kept s s'' :=
  ⟨h'.stats.trans h.stats, h'.nonblock.trans h.nonblock, h'.txBufLen.trans h.txBufLen,
    h'.readActive.trans h.readActive, h'.msgCb.trans h.msgCb, h'.regCb.trans h.regCb, h'.bufLen.trans h.bufLen,
    h'.snWaitPacketType.trans h.snWaitPacketType, h'.snWaitPacketId.trans h.snWaitPacketId⟩

def terms (s : SnClient) : Terms := {msgCb := s.msgCb, regCb := s.regCb, txLen := s.client.txBufLen}

theorem Kept.terms {s s' : SnClient} (h : Kept s s') : s'.terms = s.terms := by
  unfold SnClient.terms
  rw [h.msgCb, h.regCb, h.txBufLen]

/-- The buffer still holds the message, but for the zero behind a topic name. -/
structure Holds (s : SnClient) (t : Turn) : Prop where
  bufLen : s.bufLen = t.bufLen
  register : t.type = MsgType.register → decodeRegister s.client.reader.rxBuf = decodeRegister t.rxBuf
  other : t.type ≠ MsgType.register → s.client.reader.rxBuf = t.rxBuf

/-- The state of `ack` keeps what came of the callback. -/
structure Recalled (k : Terms) (t : Turn) (rc : Int) (state : MsgState) : Prop where
  register : t.type = MsgType.register → regAckCode state = some (k.returnCode rc)
  publish : t.type = MsgType.publish → state = .wait ∧ k.msgCb = true
  unwritten : state ≠ .header

/-- The callback has been called, and the answer waits for the writer. -/
structure Waiting (k : Terms) (t : Turn) (stat : MqttMsgStat) : Prop where
  idle : stat.isWriteActive = false
  owed : ∃ rc, t.acts = t.calls k rc ∧ Recalled k t rc stat.ack

/-- The answer is in `tx_buf`, and part of it has gone out. -/
structure Writing (k : Terms) (w : Writer) (t : Turn) (stat : MqttMsgStat) : Prop where
  ack : stat.ack = .header
  active : stat.isWriteActive = true
  owed : ∃ (rc : Int) (pieces : List Bytes), t.acts = t.calls k rc ++ pieces.map .wrote ∧
    pieces.flatten = (t.answer k rc).take w.pos ∧ w.txBuf.take w.len = t.answer k rc

def Pending (k : Terms) (w : Writer) (t : Turn) (stat : MqttMsgStat) : Prop := Waiting k t stat ∨ Writing k w t stat

/-- Is the answer to be gone on with later? -/
def Handled.Open (h : Handled) : Prop := h.rc = Code.continue ∧ h.responsePending = true

/-- What a handler owes, from a client `s` whose last message is `t`. -/
structure Ends (s : SnClient) (stat : MqttMsgStat) (t : Turn) (rest : List Turn) (h : Handled) : Prop where
  kept : Kept s h.sn
  read : h.stat.read = stat.read
  isReadActive : h.stat.isReadActive = stat.isReadActive
  turn : ∃ acts, h.sn.turns = {t with acts} :: rest ∧ Turn.Served s.terms {t with acts} ∧
    (h.Open → Pending s.terms h.sn.client.writer {t with acts} h.stat)
  holds : Holds h.sn t
  closed : ¬h.Open → h.stat.isWriteActive = false ∧ h.stat.ack ≠ .header

/-! ### The answers -/
section Answers
variable {s : SnClient} {stat : MqttMsgStat} {t : Turn} {rest : List Turn}

theorem note_eq (hturns : s.turns = t :: rest) (act : Act) :
    s.note act = {s with turns := {t with acts := t.acts ++ [act]} :: rest} := by
  unfold note
  rw [hturns]

theorem answer_acts (k : Terms) (rc : Int) (t : Turn) (acts : List Act) :
    Turn.answer k rc {t with acts} = t.answer k rc := rfl

/-- What went out so far and the next piece are the front of the answer. -/
theorem front_append {answer : Bytes} {pieces : List Bytes} {pos n : Nat} (h : pieces.flatten = answer.take pos) :
    (pieces ++ [(answer.drop pos).take n]).flatten = answer.take (pos + n) := by
  rw [List.flatten_append, h, List.flatten_singleton, ← List.take_add]

theorem Kept.of_writer {client : MqttClient} (h : WriterOnly s.client client) (turns : List Turn) :
    Kept s {s with client, turns} := by
  have hnonblock : client.nonblock = s.client.nonblock := by rw [h]
  have htx : client.txBufLen = s.client.txBufLen := by rw [h]
  have hread : client.readActive = s.client.readActive := by rw [h]
  exact ⟨rfl, hnonblock, htx, hread, rfl, rfl, rfl, rfl, rfl⟩

theorem Holds.of_writer {client : MqttClient} (h : WriterOnly s.client client) (turns : List Turn)
    (hholds : Holds s t) : Holds {s with client, turns} t := by
  have hreader : client.reader = s.client.reader := by rw [h]
  refine ⟨hholds.bufLen, ?_, ?_⟩
  · intro htype
    show decodeRegister client.reader.rxBuf = decodeRegister t.rxBuf
    rw [hreader, hholds.register htype]
  · intro htype
    show client.reader.rxBuf = t.rxBuf
    rw [hreader, hholds.other htype]

/-- One write of an answer: what goes out is the next piece of it, and either the rest is still to go or the
message is done with. -/
theorem writeOn_ends (hturns : s.turns = t :: rest) (hholds : Holds s t)
    (hwriting : Writing s.terms s.client.writer t stat) : Ends s stat t rest (s.writeOn stat) := by
  obtain ⟨hack, hactive, rc, pieces, hacts, hpieces, hbuf⟩ := hwriting
  obtain ⟨hwrote, hclient⟩ := packetWrite_wrote s.client s.client.writer.len
  unfold writeOn
  dsimp only
  generalize s.client.packetWrite s.client.writer.len = r at hwrote hclient ⊢
  obtain ⟨code, client⟩ := r
  obtain ⟨n, hwire, hpos⟩ := hwrote.piece
  have hdrop : client.writer.wire.drop s.client.writer.wire.length = ((t.answer s.terms rc).drop s.client.writer.pos).take n := by
    rw [hwire, hbuf, List.drop_left]
  have hturn : ({s with client} : SnClient).note (.wrote (client.writer.wire.drop s.client.writer.wire.length)) =
      {s with
        client
        turns := {t with acts := t.acts ++ [.wrote (((t.answer s.terms rc).drop s.client.writer.pos).take n)]} :: rest} := by
    rw [hdrop]
    exact note_eq (s := {s with client}) hturns _
  have hfront := front_append (n := n) hpieces
  have hacts' : t.acts ++ [.wrote (((t.answer s.terms rc).drop s.client.writer.pos).take n)] =
      t.calls s.terms rc ++ (pieces ++ [((t.answer s.terms rc).drop s.client.writer.pos).take n]).map .wrote := by
    rw [hacts, List.append_assoc, List.map_append, List.map_singleton]
  have hserved : Turn.Served s.terms
      {t with acts := t.acts ++ [.wrote (((t.answer s.terms rc).drop s.client.writer.pos).take n)]} :=
    ⟨rc, _, hacts', by rw [answer_acts, hfront]; exact List.take_prefix _ _⟩
  simp only [hturn]
  by_cases hcode : code = Code.continue
  · rw [if_pos hcode]
    refine ⟨Kept.of_writer hclient _, rfl, rfl, ⟨_, rfl, hserved, fun _ => .inr ⟨hack, hactive, rc, _, hacts', ?_, ?_⟩⟩,
      Holds.of_writer hclient _ hholds, fun h => absurd ⟨hcode, rfl⟩ h⟩
    · rw [hfront, hpos hcode]
      rfl
    · show client.writer.txBuf.take client.writer.len = t.answer s.terms rc
      rw [hwrote.txBuf, hwrote.len, hbuf]
  · rw [if_neg hcode]
    have hclosed : ¬(if code = (s.client.writer.len : Int) then Code.success else code) = Code.continue := by
      split
      · decide
      · exact hcode
    have hstop : WriterOnly s.client (client.writeStop stat).1 := WriterOnly.put hclient _
    refine ⟨Kept.of_writer hstop _, rfl, rfl, ⟨_, rfl, hserved, fun h => absurd h.1 hclosed⟩,
      Holds.of_writer hstop _ hholds, fun _ => ⟨rfl, fun h => MsgState.noConfusion h⟩⟩

/-- A handler may have done something before, and put it on record. -/
theorem Ends.of_kept {s' : SnClient} {stat' : MqttMsgStat} {a : List Act} {h : Handled}
    (hends : Ends s' stat' {t with acts := a} rest h) (hkept : Kept s s') (hread : stat'.read = stat.read)
    (hactive : stat'.isReadActive = stat.isReadActive) : Ends s stat t rest h := by
  obtain ⟨acts, hturns, hserved, hopen⟩ := hends.turn
  rw [hkept.terms] at hserved hopen
  exact ⟨hkept.trans hends.kept, hends.read.trans hread, hends.isReadActive.trans hactive,
    ⟨acts, hturns, hserved, hopen⟩, ⟨hends.holds.bufLen, hends.holds.register, hends.holds.other⟩, hends.closed⟩

/-- A message whose callback has been called and of whose answer nothing has gone out. -/
theorem Turn.served_unanswered {k : Terms} {rc : Int} (hacts : t.acts = t.calls k rc) : t.Served k :=
  ⟨rc, [], by rw [hacts, List.map_nil, List.append_nil], List.nil_prefix⟩

/-- The message is done with, and nothing went out. -/
theorem ends_closed {rc : Int} {h : Handled} (hturns : s.turns = t :: rest)
    (hacts : t.acts = t.calls s.terms rc) (hkept : Kept s h.sn) (hholds : Holds h.sn t)
    (hsame : h.sn.turns = s.turns) (hread : h.stat.read = stat.read)
    (hactive : h.stat.isReadActive = stat.isReadActive) (hclosed : ¬h.Open) (hidle : h.stat.isWriteActive = false)
    (hack : h.stat.ack ≠ .header) : Ends s stat t rest h :=
  ⟨hkept, hread, hactive,
    ⟨t.acts, hsame.trans hturns, Turn.served_unanswered hacts, fun hopen => absurd hopen hclosed⟩, hholds,
    fun _ => ⟨hidle, hack⟩⟩

/-- An encoder that returns a length has put as many bytes into the buffer. -/
structure Whole (e : Encoded) : Prop where
  code : e.rc ≠ Code.continue
  length : 0 < e.rc → e.out.length = e.rc.toNat

theorem respond_busy (resets : Bool) (response : Encoded) (hbusy : s.client.writer.isActive = true) :
    s.respond stat resets response = {rc := Code.continue, responsePending := true, sn := s, stat} := by
  have hcode : Code.continue ≠ Code.success := by decide
  have hreset : ¬(resets = true ∧ Code.continue ≠ Code.continue) := fun h => h.2 rfl
  unfold respond MqttClient.writeStart
  simp only [if_pos hbusy, if_pos hcode, if_neg hreset]

/-- The writer is taken, and `tx_buf` holds the answer. -/
def taken (s : SnClient) (response : Encoded) : SnClient :=
  {s with client := {s.client with writer := {s.client.writer with isActive := true, txBuf := response.out}}}

theorem respond_free (resets : Bool) (response : Encoded) (hfree : s.client.writer.isActive ≠ true) :
    s.respond stat resets response =
      if response.rc ≤ 0 then
        {rc := response.rc, responsePending := true,
         sn := {s with client := ((s.taken response).client.writeStop stat).1},
         stat := {stat with isWriteActive := false, ack := if resets then .begin else stat.ack}}
      else (s.taken response).writeResponse {stat with isWriteActive := true} response.rc := by
  have hcode : ¬Code.success ≠ Code.success := fun h => h rfl
  unfold respond MqttClient.writeStart
  simp only [if_neg hfree, if_neg hcode]
  split
  · cases resets <;> rfl
  · rfl

theorem respond_ends {rc : Int} {response : Encoded} (resets : Bool) (hturns : s.turns = t :: rest) (hholds : Holds s t)
    (hacts : t.acts = t.calls s.terms rc) (hrecalled : Recalled s.terms t rc stat.ack)
    (hidle : stat.isWriteActive = false) (hwhole : Whole response) (hresponse : response.out = t.answer s.terms rc) :
    Ends s stat t rest (s.respond stat resets response) := by
  have honly : WriterOnly s.client (s.taken response).client := (WriterOnly.refl s.client).put _
  by_cases hbusy : s.client.writer.isActive = true
  · rw [respond_busy resets response hbusy]
    exact ⟨Kept.refl s, rfl, rfl,
      ⟨t.acts, hturns, Turn.served_unanswered hacts, fun _ => .inl ⟨hidle, rc, hacts, hrecalled⟩⟩, hholds,
      fun h => absurd ⟨rfl, rfl⟩ h⟩
  · rw [respond_free resets response hbusy]
    by_cases hrc : response.rc ≤ 0
    · rw [if_pos hrc]
      refine ends_closed hturns hacts (Kept.of_writer (honly.put _) s.turns) (hholds.of_writer (honly.put _) s.turns) rfl
        rfl rfl (fun h => hwhole.code h.1) rfl ?_
      cases resets with
      | false => exact hrecalled.unwritten
      | true => exact fun h => MsgState.noConfusion h
    · have hpos : response.rc > 0 := Int.not_le.mp hrc
      rw [if_neg hrc, writeResponse, if_pos hpos]
      have hrewound : WriterOnly s.client ((s.taken response).rewound response.rc.toNat).client := honly.put _
      have hbuf : response.out.take response.rc.toNat = t.answer s.terms rc := by
        rw [← hwhole.length hpos, List.take_length, hresponse]
      have hnone : t.acts = t.calls s.terms rc ++ ([] : List Bytes).map .wrote := by
        rw [List.map_nil, List.append_nil, hacts]
      have hwriting : Writing s.terms ((s.taken response).rewound response.rc.toNat).client.writer t
          {stat with isWriteActive := true, ack := .header} := ⟨rfl, rfl, rc, [], hnone, rfl, hbuf⟩
      have hends := writeOn_ends (s := (s.taken response).rewound response.rc.toNat) hturns
        (hholds.of_writer hrewound s.turns) hwriting
      exact Ends.of_kept (a := t.acts) hends (Kept.of_writer hrewound s.turns) rfl rfl

end Answers

/-! ### The encoders of answers -/

theorem encodeFixed_whole {txLen totalLen : Int} {type : UInt8} {rest : Bytes} (h : totalLen = 2 + rest.length) :
    Whole (encodeFixed txLen type totalLen rest) := by
  unfold encodeFixed
  split
  · exact ⟨by decide, fun hpos => absurd hpos (by decide)⟩
  · refine ⟨?_, fun _ => ?_⟩
    · have hcode : Code.continue = -101 := rfl
      show totalLen ≠ Code.continue
      omega
    · show rest.length + 1 + 1 = totalLen.toNat
      omega

theorem encodeRegAck_whole (txLen : Int) (regack : RegAck) : Whole (encodeRegAck txLen (some regack)) := by
  unfold encodeRegAck
  refine encodeFixed_whole ?_
  simp only [List.length_append, encodeNum_length, List.length_singleton]
  rfl

theorem encodePublishResp_whole (txLen : Int) (type : UInt8) (resp : PublishResp) :
    Whole (encodePublishResp txLen type (some resp)) := by
  unfold encodePublishResp
  refine encodeFixed_whole ?_
  by_cases htype : type = MsgType.pubAck
  · simp only [if_pos htype, List.length_append, encodeNum_length, List.length_singleton]
    rfl
  · simp only [if_neg htype, List.length_append, encodeNum_length, List.length_nil]
    rfl

theorem encodePing_whole (txLen : Int) : Whole (encodePing txLen none MsgType.pingResp) :=
  encodeFixed_whole rfl

/-! ### The handlers -/
section Handlers
variable {s : SnClient} {stat : MqttMsgStat} {t : Turn} {rest : List Turn} (p : Pass)

/-- Nothing has been done for the message yet. -/
structure Fresh (t : Turn) (stat : MqttMsgStat) : Prop where
  acts : t.acts = []
  unwritten : stat.ack ≠ .header
  begins : t.type = MsgType.register ∨ t.type = MsgType.publish → stat.ack = .begin

/-- The packet the handlers read is the message. -/
theorem Holds.packet (h : Holds s t) (htype : t.type ≠ MsgType.register) : s.packet = t.packet := by
  rw [SnClient.packet, Turn.packet, h.other htype, h.bufLen]

theorem called_eq (hturns : s.turns = t :: rest) (act : Act) :
    s.called p act =
      {s with
        client := {s.client with writer := p.sends s.client.writer}
        turns := {t with acts := t.acts ++ [act]} :: rest} :=
  note_eq (s := {s with client := {s.client with writer := p.sends s.client.writer}}) hturns act

theorem answerPublish_ends (stat : MqttMsgStat) (code : Int) {rc : Int} {publish : DecodedPublish} (htype : t.type = MsgType.publish)
    (hmsg : decodePublish t.packet = .ok publish) (hturns : s.turns = t :: rest) (hholds : Holds s t)
    (hacts : t.acts = t.calls s.terms rc) (hrecalled : Recalled s.terms t rc stat.ack)
    (hidle : stat.isWriteActive = false) : Ends s stat t rest (s.answerPublish stat code publish) := by
  obtain ⟨hwait, hcb⟩ := hrecalled.publish htype
  unfold answerPublish
  split
  next hqos =>
    rw [if_neg (not_not_intro hwait)]
    refine respond_ends true hturns hholds hacts hrecalled hidle (encodePublishResp_whole _ _ _) ?_
    have hno : ¬MsgType.publish = MsgType.register := by decide
    simp only [Turn.answer, htype, if_neg hno, if_true, hmsg, hcb, hqos, and_self]
    rfl
  next =>
    exact ends_closed hturns hacts (Kept.refl s) hholds rfl rfl rfl (fun h => Bool.noConfusion h.2) hidle
      (fun h => MsgState.noConfusion h)

theorem handlePublish_ends (htype : t.type = MsgType.publish) (hp : p.msgRc = Code.success)
    (hturns : s.turns = t :: rest) (hholds : Holds s t) (hidle : stat.isWriteActive = false)
    (hstage : Fresh t stat ∨ ∃ rc, t.acts = t.calls s.terms rc ∧ Recalled s.terms t rc stat.ack) :
    Ends s stat t rest (s.handlePublish stat p) := by
  have hno : ¬MsgType.publish = MsgType.register := by decide
  have hpacket : s.packet = t.packet := hholds.packet (by rw [htype]; exact hno)
  unfold handlePublish
  rw [hpacket]
  rcases hstage with hfresh | ⟨rc, hacts, hrecalled⟩
  · have hack : stat.ack = .begin := hfresh.begins (.inr htype)
    cases hmsg : decodePublish t.packet with
    | error e =>
      have hacts : t.acts = t.calls s.terms 0 := by
        simp only [Turn.calls, htype, if_neg hno, if_true, hmsg, hfresh.acts]
      exact ends_closed hturns hacts (Kept.refl s) hholds rfl rfl rfl (fun h => Bool.noConfusion h.2) hidle
        hfresh.unwritten
    | ok publish =>
      dsimp only
      rw [if_neg (not_not_intro hack)]
      cases hcb : s.msgCb with
      | false =>
        have hacts : t.acts = t.calls s.terms 0 := by
          simp [Turn.calls, htype, hno, hmsg, hfresh.acts, terms, hcb]
        exact ends_closed hturns hacts (Kept.refl s) hholds rfl rfl rfl (fun h => Bool.noConfusion h.2) hidle
          hfresh.unwritten
      | true =>
        have honly : WriterOnly s.client {s.client with writer := p.sends s.client.writer} :=
          (WriterOnly.refl s.client).put _
        have hcalled : ({t with acts := t.acts ++ [.message publish]} : Turn).acts = t.calls s.terms 0 := by
          simp [Turn.calls, htype, hno, hmsg, hfresh.acts, terms, hcb]
        have hkept := Kept.of_writer honly ({t with acts := t.acts ++ [.message publish]} :: rest)
        have hholds' := hholds.of_writer honly ({t with acts := t.acts ++ [.message publish]} :: rest)
        rw [called_eq p hturns, if_neg (not_not_intro hp)]
        have hends := answerPublish_ends (t := {t with acts := t.acts ++ [.message publish]})
          {stat with ack := .wait} p.msgRc htype hmsg rfl ⟨hholds'.bufLen, hholds'.register, hholds'.other⟩
          (hcalled.trans (by rw [hkept.terms]; rfl))
          ⟨fun h => absurd (htype.symm.trans h) hno, fun _ => ⟨rfl, hcb⟩, fun h => MsgState.noConfusion h⟩ hidle
        exact hends.of_kept hkept rfl rfl
  · have hack : stat.ack ≠ .begin := by
      rw [(hrecalled.publish htype).1]
      exact fun h => MsgState.noConfusion h
    cases hmsg : decodePublish t.packet with
    | error e =>
      exact ends_closed hturns hacts (Kept.refl s) hholds rfl rfl rfl (fun h => Bool.noConfusion h.2) hidle
        hrecalled.unwritten
    | ok publish =>
      dsimp only
      rw [if_pos hack]
      exact answerPublish_ends stat _ htype hmsg hturns hholds hacts hrecalled hidle

/-! ### REGISTER -/

theorem decodeNum_set (bytes : Bytes) {i : Nat} (h : 2 ≤ i) (b : UInt8) : decodeNum (bytes.set i b) = decodeNum bytes := by
  match bytes, i, h with
  | [], _, _ => rfl
  | [_], _ + 2, _ => rfl
  | _ :: _ :: _, _ + 2, _ => rfl

theorem decodeLength_set (bytes : Bytes) {i : Nat} (h : 3 ≤ i) (b : UInt8) :
    decodeLength (bytes.set i b) = decodeLength bytes := by
  match bytes, i, h with
  | [], _, _ => rfl
  | first :: rest, i + 1, h =>
    rw [List.set_cons_succ, decodeLength, decodeLength, decodeNum_set rest (by omega)]

/-- Reading the message again, with the zero behind its topic name, gives the same. -/
theorem decodeRegister_again {rx : Bytes} {d : DecodedRegister} (h : decodeRegister rx = .ok d) :
    decodeRegister d.rx = .ok d := by
  unfold decodeRegister at h
  split at h
  · cases h
  next totalLen n hlength =>
  split at h
  · cases h
  next hroom =>
  split at h
  · cases h
  next hmin =>
  split at h
  · cases h
  next type fields hdrop =>
  split at h
  · cases h
  next htype =>
  split at h
  · cases h
  next topicId htopic =>
  split at h
  · cases h
  next packetId hpacket =>
  split at h
  · cases h
  next hcovers =>
  cases h
  have hlength' : decodeLength (rx.set totalLen 0) = .ok (totalLen, n) := by
    rw [decodeLength_set rx (by omega), hlength]
  have hroom' : ¬totalLen ≥ (rx.set totalLen 0).length := by
    rw [List.length_set]
    exact hroom
  have hdrop' : (rx.set totalLen 0).drop n = type :: fields.set (totalLen - n - 1) 0 := by
    rw [List.drop_set, if_neg (by omega), hdrop]
    obtain ⟨i, hi⟩ : ∃ i, totalLen - n = i + 1 := ⟨totalLen - n - 1, by omega⟩
    rw [hi]
    rfl
  have htopic' : decodeNum (fields.set (totalLen - n - 1) 0) = .ok topicId := by
    rw [decodeNum_set fields (by omega), htopic]
  have hpacket' : decodeNum ((fields.set (totalLen - n - 1) 0).drop 2) = .ok packetId := by
    rw [List.drop_set, if_neg (by omega), decodeNum_set _ (by omega), hpacket]
  simp only [decodeRegister, hlength', if_neg hroom', if_neg hmin, hdrop', if_neg htype, htopic', hpacket',
    if_neg hcovers, List.set_set]

/-- A code that `ack` can hold for a REGISTER is not `MQTT_MSG_BEGIN`, and not `MQTT_MSG_HEADER`. -/
theorem regAckCode_some {state : MsgState} {code : UInt8} (h : regAckCode state = some code) :
    state ≠ .begin ∧ state ≠ .header := by
  constructor
  · rintro rfl
    cases h
  · rintro rfl
    cases h

/-- A REGISTER once the application has it, with the buffer as the decoder leaves it. -/
theorem answerRegister_ends (stat : MqttMsgStat) {rc : Int} {d : DecodedRegister} (htype : t.type = MsgType.register)
    (hmsg : decodeRegister t.rxBuf = .ok d) (hturns : s.turns = t :: rest) (hholds : Holds s t)
    (hacts : t.acts = t.calls s.terms rc) (hcode : regAckCode stat.ack = some (s.terms.returnCode rc))
    (hidle : stat.isWriteActive = false) :
    Ends s stat t rest
      (s.respond stat true (encodeRegAck s.client.txBufLen (some (regAckOf d (s.terms.returnCode rc))))) := by
  have hno : ¬MsgType.register = MsgType.publish := by decide
  refine respond_ends true hturns hholds hacts ⟨fun _ => hcode, fun h => absurd (htype.symm.trans h) hno,
    (regAckCode_some hcode).2⟩ hidle (encodeRegAck_whole _ _) ?_
  simp only [Turn.answer, htype, if_true, hmsg]
  rfl

theorem handleRegister_ends (htype : t.type = MsgType.register) (hturns : s.turns = t :: rest) (hholds : Holds s t)
    (hidle : stat.isWriteActive = false)
    (hstage : Fresh t stat ∨ ∃ rc, t.acts = t.calls s.terms rc ∧ Recalled s.terms t rc stat.ack) :
    Ends s stat t rest (s.handleRegister stat p) := by
  have hread := hholds.register htype
  unfold handleRegister
  cases hreg : decodeRegister s.client.reader.rxBuf with
  | error e =>
    rw [hreg] at hread
    obtain ⟨rc, hacts, hack⟩ : ∃ rc, t.acts = t.calls s.terms rc ∧ stat.ack ≠ .header := by
      rcases hstage with hfresh | ⟨rc, hacts, hrecalled⟩
      · refine ⟨0, ?_, hfresh.unwritten⟩
        simp only [Turn.calls, htype, if_true, ← hread, hfresh.acts]
      · exact ⟨rc, hacts, hrecalled.unwritten⟩
    exact ends_closed hturns hacts (Kept.refl s) hholds rfl rfl rfl (fun h => Bool.noConfusion h.2) hidle hack
  | ok d =>
    rw [hreg] at hread
    have hcalls : ∀ rc, t.calls s.terms rc = if s.regCb then [.register d.topicId d.name rc] else [] := by
      intro rc
      simp only [Turn.calls, htype, if_true, ← hread]
      rfl
    dsimp only
    generalize hs₁ : ({s with client := {s.client with reader := {s.client.reader with rxBuf := d.rx}}} : SnClient) = s₁
    have hkept : Kept s s₁ := by
      subst hs₁
      exact ⟨rfl, rfl, rfl, rfl, rfl, rfl, rfl, rfl, rfl⟩
    have hholds₁ : Holds s₁ t := by
      subst hs₁
      exact ⟨hholds.bufLen, fun _ => (decodeRegister_again hreg).trans hread, fun h => absurd htype h⟩
    have hturns₁ : s₁.turns = t :: rest := by
      subst hs₁
      exact hturns
    unfold callRegCb
    rcases hstage with hfresh | ⟨rc, hacts, hrecalled⟩
    · rw [if_neg (not_not_intro (hfresh.begins (.inl htype)))]
      cases hcb : s.regCb with
      | false =>
        have hcode : regAckCode .payload2 = some (s₁.terms.returnCode 0) := by
          simp [regAckCode, Terms.returnCode, terms, hkept.regCb, hcb]
        have hacts : t.acts = t.calls s₁.terms 0 := by
          rw [hkept.terms, hcalls, hfresh.acts, hcb]
          rfl
        rw [hkept.regCb, hcb]
        simp only [Bool.false_eq_true, if_false, hcode]
        exact Ends.of_kept (a := t.acts) (answerRegister_ends {stat with ack := .payload2} htype hread.symm hturns₁
          hholds₁ hacts hcode hidle) hkept rfl rfl
      | true =>
        have honly : WriterOnly s₁.client {s₁.client with writer := p.sends s₁.client.writer} :=
          (WriterOnly.refl s₁.client).put _
        have hcode : regAckCode (if p.regRc ≥ 0 then .wait else .auth) = some (s₁.terms.returnCode p.regRc) := by
          simp only [Terms.returnCode, terms, hkept.regCb, hcb]
          split
          · rfl
          · rfl
        have hacts : ({t with acts := t.acts ++ [.register d.topicId d.name p.regRc]} : Turn).acts =
            t.calls s₁.terms p.regRc := by
          rw [hkept.terms, hcalls, hfresh.acts, hcb]
          rfl
        have hkept' := hkept.trans
          (Kept.of_writer honly ({t with acts := t.acts ++ [.register d.topicId d.name p.regRc]} :: rest))
        have hholds' := hholds₁.of_writer honly ({t with acts := t.acts ++ [.register d.topicId d.name p.regRc]} :: rest)
        rw [hkept.regCb, hcb]
        simp only [if_true, called_eq p hturns₁, hcode]
        have hends := answerRegister_ends (t := {t with acts := t.acts ++ [.register d.topicId d.name p.regRc]})
          {stat with ack := if p.regRc ≥ 0 then .wait else .auth} htype hread.symm rfl
          ⟨hholds'.bufLen, hholds'.register, hholds'.other⟩ hacts hcode hidle
        exact hends.of_kept hkept' rfl rfl
    · have hcode := hrecalled.register htype
      rw [if_pos (regAckCode_some hcode).1]
      dsimp only
      rw [hcode]
      rw [← hkept.terms] at hacts hcode ⊢
      exact Ends.of_kept (a := t.acts) (answerRegister_ends stat htype hread.symm hturns₁ hholds₁ hacts hcode hidle) hkept
        rfl rfl

/-- A message without a callback stands where it stood. -/
theorem plain_stage (hregister : t.type ≠ MsgType.register) (hpublish : t.type ≠ MsgType.publish)
    (hstage : Fresh t stat ∨ ∃ rc, t.acts = t.calls s.terms rc ∧ Recalled s.terms t rc stat.ack) :
    ∃ rc, t.acts = t.calls s.terms rc ∧ Recalled s.terms t rc stat.ack := by
  rcases hstage with hfresh | hwaiting
  · refine ⟨0, ?_, fun h => absurd h hregister, fun h => absurd h hpublish, hfresh.unwritten⟩
    simp only [Turn.calls, if_neg hregister, if_neg hpublish, hfresh.acts]
  · exact hwaiting

theorem handlePublishResp_ends (htype : t.type = MsgType.pubRec ∨ t.type = MsgType.pubRel)
    (hturns : s.turns = t :: rest) (hholds : Holds s t) (hidle : stat.isWriteActive = false)
    (hstage : Fresh t stat ∨ ∃ rc, t.acts = t.calls s.terms rc ∧ Recalled s.terms t rc stat.ack) :
    Ends s stat t rest (s.handlePublishResp t.type stat) := by
  have hregister : t.type ≠ MsgType.register := by
    rcases htype with h | h <;> rw [h] <;> decide
  have hpublish : t.type ≠ MsgType.publish := by
    rcases htype with h | h <;> rw [h] <;> decide
  obtain ⟨rc, hacts, hrecalled⟩ := plain_stage hregister hpublish hstage
  unfold handlePublishResp
  rw [hholds.packet hregister]
  cases hmsg : decodePublishResp t.type t.packet with
  | error e =>
    exact ends_closed hturns hacts (Kept.refl s) hholds rfl rfl rfl (fun h => Bool.noConfusion h.2) hidle
      hrecalled.unwritten
  | ok resp =>
    refine respond_ends false hturns hholds hacts hrecalled hidle (encodePublishResp_whole _ _ _) ?_
    simp only [Turn.answer, if_neg hregister, if_neg hpublish, if_pos htype, hmsg]
    rfl

theorem handlePingReq_ends (htype : t.type = MsgType.pingReq) (hturns : s.turns = t :: rest) (hholds : Holds s t)
    (hidle : stat.isWriteActive = false)
    (hstage : Fresh t stat ∨ ∃ rc, t.acts = t.calls s.terms rc ∧ Recalled s.terms t rc stat.ack) :
    Ends s stat t rest (s.handlePingReq stat) := by
  have hregister : t.type ≠ MsgType.register := by
    rw [htype]
    decide
  have hpublish : t.type ≠ MsgType.publish := by
    rw [htype]
    decide
  have hresp : ¬(t.type = MsgType.pubRec ∨ t.type = MsgType.pubRel) := by
    rw [htype]
    decide
  obtain ⟨rc, hacts, hrecalled⟩ := plain_stage hregister hpublish hstage
  unfold handlePingReq
  rw [hholds.packet hregister]
  cases hmsg : decodePing t.packet with
  | error e =>
    exact ends_closed hturns hacts (Kept.refl s) hholds rfl rfl rfl (fun h => Bool.noConfusion h.2) hidle
      hrecalled.unwritten
  | ok n =>
    refine respond_ends false hturns hholds hacts hrecalled hidle (encodePing_whole _) ?_
    simp only [Turn.answer, if_neg hregister, if_neg hpublish, if_neg hresp, if_pos htype, hmsg]
    rfl

/-- Whatever stage a message is at, the handler calls what callback is left and goes on with its answer. -/
theorem handlePacket_ends (hp : p.msgRc = Code.success) (hturns : s.turns = t :: rest) (hholds : Holds s t)
    (hstage : (Fresh t stat ∧ stat.isWriteActive = false) ∨ Pending s.terms s.client.writer t stat) :
    Ends s stat t rest (s.handlePacket t.type stat p) := by
  unfold handlePacket
  by_cases hack : stat.ack = .header
  · rw [if_pos hack, writeResponse, if_neg (by decide), if_neg (not_not_intro hack)]
    rcases hstage with ⟨hfresh, -⟩ | hwaiting | hwriting
    · exact absurd hack hfresh.unwritten
    · obtain ⟨rc, -, hrecalled⟩ := hwaiting.owed
      exact absurd hack hrecalled.unwritten
    · exact writeOn_ends hturns hholds hwriting
  · rw [if_neg hack]
    obtain ⟨hidle, hstage⟩ : stat.isWriteActive = false ∧
        (Fresh t stat ∨ ∃ rc, t.acts = t.calls s.terms rc ∧ Recalled s.terms t rc stat.ack) := by
      rcases hstage with ⟨hfresh, hidle⟩ | hwaiting | hwriting
      · exact ⟨hidle, .inl hfresh⟩
      · exact ⟨hwaiting.idle, .inr hwaiting.owed⟩
      · exact absurd hwriting.ack hack
    split
    next htype => exact handleRegister_ends p htype hturns hholds hidle hstage
    next hregister =>
    split
    next htype => exact handlePublish_ends p htype hp hturns hholds hidle hstage
    next hpublish =>
    split
    next htype => exact handlePublishResp_ends htype hturns hholds hidle hstage
    split
    next htype => exact handlePingReq_ends htype hturns hholds hidle hstage
    next =>
      obtain ⟨rc, hacts, hrecalled⟩ := plain_stage hregister hpublish hstage
      exact ends_closed hturns hacts (Kept.refl s) hholds rfl rfl rfl (fun h => Bool.noConfusion h.2) hidle
        hrecalled.unwritten

end Handlers

end SnClient
end WolfMqtt.Sn
