import WolfMqtt.Client.Receive
import WolfMqtt.Packet.Pauses

/-! The payload of a PUBLISH, piece by piece.

The first piece stands behind the header, and each other one is read to the front of `rx_buf`. However the
transport cuts the stream, what has been handed on so far is the beginning of the payload (`Handed`), the rest
of it is what the reader has in `rx_buf` and what is still to come (`AtPayload`), and a turn of the loop keeps
this up or stops with its progress kept. -/
namespace WolfMqtt.Receive

open Function (update)

/-! ### What has been handed on -/

/-- The calls for the first `k` bytes of a payload. -/
inductive Handed (payload : Bytes) : List Delivery → Nat → Prop
  | first (n : Nat) (hn : n ≤ payload.length) :
      Handed payload [{isNew := true, done := n ≥ payload.length, pos := 0, piece := payload.take n}] n
  | next (ds : List Delivery) (k n : Nat) (h : Handed payload ds k) (hpos : 0 < n) (hn : k + n ≤ payload.length) :
      Handed payload
        (ds ++ [{isNew := false, done := k + n ≥ payload.length, pos := k, piece := (payload.drop k).take n}]) (k + n)

/-- The calls for a payload are as they have to be: consecutive pieces of it, at least one, with `buffer_pos` the
bytes in front, `msg_new` in the first one and `msg_done` in the last one. -/
structure Faithful (payload : Bytes) (ds : List Delivery) : Prop where
  called : ds ≠ []
  whole : (ds.map Delivery.piece).flatten = payload
  pos : ∀ i d, ds[i]? = some d → d.pos = (((ds.take i).map Delivery.piece).flatten).length
  isNew : ∀ i d, ds[i]? = some d → d.isNew = decide (i = 0)
  done : ∀ i d, ds[i]? = some d → d.done = decide (i + 1 = ds.length)

namespace Handed
variable {payload : Bytes} {ds : List Delivery} {k : Nat}

theorem le (h : Handed payload ds k) : k ≤ payload.length := by
  cases h with
  | first n hn => exact hn
  | next ds k n h hpos hn => exact hn

theorem called (h : Handed payload ds k) : ds ≠ [] := by
  cases h with
  | first n hn => exact List.cons_ne_nil _ _
  | next ds k n h hpos hn => exact List.append_ne_nil_of_right_ne_nil _ (List.cons_ne_nil _ _)

/-- The pieces so far are the beginning of the payload. -/
theorem flatten (h : Handed payload ds k) : (ds.map Delivery.piece).flatten = payload.take k := by
  induction h with
  | first n hn => exact List.append_nil _
  | next ds k n h hpos hn ih =>
    rw [List.map_append, List.flatten_append, ih, List.map_singleton, List.flatten_singleton, ← List.take_add]

theorem flatten_length (h : Handed payload ds k) : ((ds.map Delivery.piece).flatten).length = k := by
  rw [h.flatten, List.length_take, Nat.min_eq_left h.le]

/-- A call is one of those so far, or the last one. -/
theorem of_concat {ds : List Delivery} {d e : Delivery} {i : Nat} (h : (ds ++ [d])[i]? = some e) :
    (i < ds.length ∧ ds[i]? = some e) ∨ (i = ds.length ∧ e = d) := by
  rcases Nat.lt_trichotomy i ds.length with hlt | rfl | hgt
  · rw [List.getElem?_append_left hlt] at h
    exact .inl ⟨hlt, h⟩
  · rw [List.getElem?_append_right (Nat.le_refl _), Nat.sub_self] at h
    cases h
    exact .inr ⟨rfl, rfl⟩
  · rw [List.getElem?_eq_none (by simp only [List.length_append, List.length_singleton]; omega)] at h
    cases h

theorem of_singleton {d e : Delivery} {i : Nat} (h : [d][i]? = some e) : i = 0 ∧ e = d := by
  rcases of_concat (show ([] ++ [d])[i]? = some e from h) with ⟨-, h⟩ | hlast
  · cases h
  · exact hlast

theorem pos (h : Handed payload ds k) (i : Nat) (d : Delivery) (hd : ds[i]? = some d) :
    d.pos = (((ds.take i).map Delivery.piece).flatten).length := by
  induction h with
  | first n hn =>
    obtain ⟨rfl, rfl⟩ := of_singleton hd
    rfl
  | next ds k n h hpos hn ih =>
    rcases of_concat hd with ⟨hlt, hd⟩ | ⟨rfl, rfl⟩
    · rw [List.take_append_of_le_length (by omega)]
      exact ih hd
    · rw [List.take_left, h.flatten_length]

theorem isNew (h : Handed payload ds k) (i : Nat) (d : Delivery) (hd : ds[i]? = some d) :
    d.isNew = decide (i = 0) := by
  induction h with
  | first n hn =>
    obtain ⟨rfl, rfl⟩ := of_singleton hd
    rfl
  | next ds k n h hpos hn ih =>
    rcases of_concat hd with ⟨-, hd⟩ | ⟨rfl, rfl⟩
    · exact ih hd
    · exact (decide_eq_false fun hzero => h.called (List.length_eq_zero_iff.mp hzero)).symm

/-- None of the calls was the last one while there is more. -/
theorem not_done (h : Handed payload ds k) (hmore : k < payload.length) (i : Nat) (d : Delivery)
    (hd : ds[i]? = some d) : d.done = false := by
  induction h with
  | first n hn =>
    obtain ⟨rfl, rfl⟩ := of_singleton hd
    exact decide_eq_false (Nat.not_le.mpr hmore)
  | next ds k n h hpos hn ih =>
    rcases of_concat hd with ⟨-, hd⟩ | ⟨rfl, rfl⟩
    · exact ih (by omega) hd
    · exact decide_eq_false (Nat.not_le.mpr hmore)

theorem done_of_le (h : Handed payload ds k) (hall : payload.length ≤ k) (i : Nat) (d : Delivery)
    (hd : ds[i]? = some d) : d.done = decide (i + 1 = ds.length) := by
  cases h with
  | first n hn =>
    obtain ⟨rfl, rfl⟩ := of_singleton hd
    exact decide_eq_true hall
  | next ds k n h hpos hn =>
    rw [List.length_append, List.length_singleton]
    rcases of_concat hd with ⟨hlt, hd⟩ | ⟨rfl, rfl⟩
    · rw [h.not_done (by omega) i d hd]
      exact (decide_eq_false (by omega)).symm
    · rw [decide_eq_true rfl]
      exact decide_eq_true hall

/-- With all of the payload handed on, the calls are as they have to be. -/
theorem faithful (h : Handed payload ds payload.length) : Faithful payload ds where
  called := h.called
  whole := by rw [h.flatten, List.take_length]
  pos := h.pos
  isNew := h.isNew
  done := h.done_of_le (Nat.le_refl _)

end Handed

/-! ### What a turn of the loop keeps -/

/-- All that gathering a payload into an object leaves as it is. -/
structure Kept (o : Obj) (s s' : Receiver) : Prop where
  client : s'.client = {s.client with reader := s'.client.reader}
  room : s'.client.reader.rxBufLen = s.client.reader.rxBufLen
  script : s'.client.reader.net.script <:+ s.client.reader.net.script
  phase : s'.client.reader.stat = s.client.reader.stat
  msgCb : s'.msgCb = s.msgCb
  recvQos2 : s'.recvQos2 = s.recvQos2
  qos : (s'.publish o).qos = (s.publish o).qos
  packetId : (s'.publish o).packetId = (s.publish o).packetId
  stat : ∀ p, s'.stat p = {s.stat p with read := (s'.stat p).read}
  others : ∀ p ≠ o, s'.stat p = s.stat p

namespace Kept
variable {o : Obj} {s s' s'' : Receiver}

theorem refl (o : Obj) (s : Receiver) : Kept o s s :=
  ⟨rfl, rfl, List.suffix_rfl, rfl, rfl, rfl, rfl, rfl, fun _ => rfl, fun _ _ => rfl⟩

theorem trans (h : Kept o s s') (h' : Kept o s' s'') : Kept o s s'' where
  client := by rw [h'.client, h.client]
  room := h'.room.trans h.room
  script := h'.script.trans h.script
  phase := h'.phase.trans h.phase
  msgCb := h'.msgCb.trans h.msgCb
  recvQos2 := h'.recvQos2.trans h.recvQos2
  qos := h'.qos.trans h.qos
  packetId := h'.packetId.trans h.packetId
  stat p := by rw [h'.stat p, h.stat p]
  others p hp := (h'.others p hp).trans (h.others p hp)

theorem nonblock (h : Kept o s s') : s'.client.nonblock = s.client.nonblock := by rw [h.client]

theorem protocolLevel (h : Kept o s s') : s'.client.protocolLevel = s.client.protocolLevel := by rw [h.client]

theorem isDup (h : Kept o s s') : s'.isDup o = s.isDup o := by
  rw [Receiver.isDup, Receiver.isDup, h.qos, h.recvQos2, h.packetId]

theorem untrackable (h : Kept o s s') : s'.untrackable o = s.untrackable o := by
  rw [Receiver.untrackable, Receiver.untrackable, h.qos, h.isDup, h.recvQos2]

theorem patient (h : Kept o s s') (hpatient : Patient s.client.nonblock s.client.reader.net) :
    Patient s'.client.nonblock s'.client.reader.net := by
  rw [h.nonblock]
  exact fun why hmem => hpatient why (h.script.subset hmem)

/-- Members of the object that have to do with its payload change. -/
theorem modifyPublish {f : Inbound → Inbound} (hqos : (f (s.publish o)).qos = (s.publish o).qos)
    (hid : (f (s.publish o)).packetId = (s.publish o).packetId) : Kept o s (s.modifyPublish o f) where
  client := rfl
  room := rfl
  script := List.suffix_rfl
  phase := rfl
  msgCb := rfl
  recvQos2 := rfl
  qos := by rw [Receiver.publish_modifyPublish, hqos]
  packetId := by rw [Receiver.publish_modifyPublish, hid]
  stat _ := rfl
  others _ _ := rfl

theorem setRead (o : Obj) (read : MsgState) (s : Receiver) : Kept o s (s.setRead o read) where
  client := rfl
  room := rfl
  script := List.suffix_rfl
  phase := rfl
  msgCb := rfl
  recvQos2 := rfl
  qos := rfl
  packetId := rfl
  stat p := by
    by_cases hp : p = o
    · rw [hp, Receiver.stat_setRead]
    · rw [Receiver.stat_setRead_of_ne o s read hp]
  others p hp := Receiver.stat_setRead_of_ne o s read hp

theorem setReader {reader : Reader} (hroom : reader.rxBufLen = s.client.reader.rxBufLen)
    (hscript : reader.net.script <:+ s.client.reader.net.script) (hphase : reader.stat = s.client.reader.stat) :
    Kept o s (s.setReader reader) :=
  ⟨rfl, hroom, hscript, hphase, rfl, rfl, rfl, rfl, fun _ => rfl, fun _ _ => rfl⟩

theorem setLog (log : List Delivery) : Kept o s {s with log} :=
  ⟨rfl, rfl, List.suffix_rfl, rfl, rfl, rfl, rfl, rfl, fun _ => rfl, fun _ _ => rfl⟩

theorem callMsgCb (cb : Nat → Answer) (o : Obj) (done : Bool) (s : Receiver) : Kept o s (s.callMsgCb cb o done).2 := by
  rw [Receiver.callMsgCb]
  dsimp only
  exact (setLog _).trans (modifyPublish rfl rfl)

end Kept

/-! ### The loop -/

/-- A message callback that takes every message. -/
def Taking (s : Receiver) : Prop := ∃ cb, s.msgCb = some cb ∧ ∀ n, (cb n).rc = Code.success

/-- The first bytes of a payload have been handed on, and the reader is where the rest of it begins: with none of it
in `rx_buf`, or in the middle of the next piece. -/
structure AtPayload (o : Obj) (payload rest : Bytes) (old : List Delivery) (s : Receiver) : Prop where
  total : (s.publish o).totalLen = payload.length
  begun : (s.publish o).bufferNew = false
  log : ∃ ds, s.log = old ++ ds ∧ Handed payload ds ((s.publish o).bufferPos + (s.publish o).buffer.len)
  stream : s.client.reader.rxBuf.take s.client.reader.pos ++ s.client.reader.net.stream =
    payload.drop ((s.publish o).bufferPos + (s.publish o).buffer.len) ++ rest
  pos : s.client.reader.pos = 0 ∨ (s.publish o).buffer.len = 0 ∧
    s.client.reader.pos < min (payload.length - (s.publish o).bufferPos) s.client.reader.rxBufLen

/-- The payload has been handed on, and the reader is behind it. -/
structure AfterPayload (payload rest : Bytes) (old : List Delivery) (s : Receiver) : Prop where
  log : ∃ ds, s.log = old ++ ds ∧ Handed payload ds payload.length
  stream : s.client.reader.net.stream = rest
  pos : s.client.reader.pos = 0

/-- What a turn at a payload comes to: all of it, or the transport has asked for time. -/
inductive Gathered (o : Obj) (payload rest : Bytes) (old : List Delivery) (s : Receiver) : Int × Receiver → Prop
  | all (s' : Receiver) (hkept : Kept o s s') (hafter : AfterPayload payload rest old s') :
      Gathered o payload rest old s (Code.success, s')
  | part (s' : Receiver) (hkept : Kept o s s') (hat : AtPayload o payload rest old s')
      (hread : (s'.stat o).read = .payload2)
      (hspent : s'.client.reader.net.script.length < s.client.reader.net.script.length) (hblock : s.client.nonblock = true) :
      Gathered o payload rest old s (Code.continue, s')

theorem Gathered.after {o : Obj} {payload rest : Bytes} {old : List Delivery} {s s' : Receiver} {result : Int × Receiver}
    (h : Kept o s s') (h' : Gathered o payload rest old s' result) : Gathered o payload rest old s result := by
  cases h' with
  | all s'' hkept hafter => exact .all s'' (h.trans hkept) hafter
  | part s'' hkept hat hread hspent hblock =>
    exact .part s'' (h.trans hkept) hat hread (Nat.lt_of_lt_of_le hspent h.script.length_le) (h.nonblock ▸ hblock)

theorem Kept.taking {o : Obj} {s s' : Receiver} (h : Kept o s s') (htaking : Taking s) : Taking s' := by
  obtain ⟨cb, hcb, hrc⟩ := htaking
  exact ⟨cb, h.msgCb.trans hcb, hrc⟩

section Loop
variable {o : Obj} {payload rest : Bytes} {old : List Delivery} {s : Receiver}

/-- A callback that takes every message is handed the bytes at `buffer`. -/
theorem Taking.deliver (h : Taking s) (done : Bool) :
    ∃ s', s.deliver o false done = (Code.success, s') ∧ Kept o s s' ∧ s'.client = s.client ∧
      s'.log = s.log ++ [{ isNew := (s.publish o).bufferNew, done, pos := (s.publish o).bufferPos
                           piece := (s.publish o).buffer.get s.client.reader.rxBuf }] ∧
      ∃ reasonCode, s'.publish o = {s.publish o with reasonCode} := by
  obtain ⟨cb, hcb, hrc⟩ := h
  have hpublish : (s.callMsgCb cb o done).2.publish o =
      {s.publish o with reasonCode := (cb s.log.length).reasonCode.getD (s.publish o).reasonCode} := by
    rw [Receiver.callMsgCb]
    dsimp only
    exact Receiver.publish_modifyPublish o _ _
  refine ⟨(s.callMsgCb cb o done).2, ?_, Kept.callMsgCb cb o done s, rfl, rfl, _, hpublish⟩
  rw [Receiver.deliver, hcb]
  exact Prod.ext (hrc s.log.length) rfl

theorem AtPayload.le (h : AtPayload o payload rest old s) :
    (s.publish o).bufferPos + (s.publish o).buffer.len ≤ payload.length := by
  obtain ⟨ds, -, hds⟩ := h.log
  exact hds.le

/-- With all of the payload handed on, the reader is behind it. -/
theorem AtPayload.over (h : AtPayload o payload rest old s) (hdone : Receiver.msgDone (s.publish o) = true) :
    AfterPayload payload rest old s := by
  have hle := h.le
  have hover : (s.publish o).bufferPos + (s.publish o).buffer.len = payload.length := by
    have := of_decide_eq_true hdone
    rw [h.total] at this
    omega
  have hpos : s.client.reader.pos = 0 := by
    rcases h.pos with hpos | ⟨hlen, hpos⟩
    · exact hpos
    · omega
  obtain ⟨ds, hlog, hds⟩ := h.log
  refine ⟨⟨ds, hlog, hover ▸ hds⟩, ?_, hpos⟩
  have hstream := h.stream
  rwa [hpos, hover, List.take_zero, List.drop_length] at hstream

theorem Kept.nextPiece (o : Obj) (s : Receiver) : Kept o s (s.nextPiece o) :=
  (Kept.modifyPublish rfl rfl).trans (Kept.setRead o .payload2 _)

theorem AtPayload.nextPiece (h : AtPayload o payload rest old s) :
    AtPayload o payload rest old (s.nextPiece o) ∧
      ((s.nextPiece o).publish o).bufferPos = (s.publish o).bufferPos + (s.publish o).buffer.len ∧
      ((s.nextPiece o).publish o).buffer.len = 0 ∧ ((s.nextPiece o).stat o).read = .payload2 := by
  have hpublish := Receiver.publish_nextPiece o s
  refine ⟨⟨?_, ?_, ?_, ?_, ?_⟩, ?_, ?_, ?_⟩
  · rw [hpublish, h.total]
  · rw [hpublish, h.begun]
  · rw [hpublish]
    exact h.log
  · rw [hpublish]
    exact h.stream
  · rcases h.pos with hpos | ⟨hlen, hpos⟩
    · exact .inl hpos
    · rw [hpublish]
      refine .inr ⟨rfl, ?_⟩
      dsimp only
      rw [hlen]
      exact hpos
  · rw [hpublish]
  · rw [hpublish]
  · rw [Receiver.nextPiece, Receiver.stat_setRead]

/-- The next piece is in `rx_buf`, and the callback takes it. -/
theorem AtPayload.handOn {reader : Reader} {n : Nat} (h : AtPayload o payload rest old s) (htaking : Taking s)
    (hlen : (s.publish o).buffer.len = 0) (hsome : 0 < n) (hle : n ≤ payload.length - (s.publish o).bufferPos)
    (hroom : n ≤ reader.rxBuf.length) (hpos : reader.pos = 0)
    (hkept : reader.rxBuf.take n ++ reader.net.stream = payload.drop (s.publish o).bufferPos ++ rest) :
    ∃ s', ((s.setReader reader).modifyPublish o ({· with buffer := ⟨0, n⟩})).deliver o false (Receiver.msgDone
        (((s.setReader reader).modifyPublish o ({· with buffer := ⟨0, n⟩})).publish o)) = (Code.success, s') ∧
      Kept o (s.setReader reader) s' ∧ Taking s' ∧ AtPayload o payload rest old s' ∧
      (s'.publish o).bufferPos + (s'.publish o).buffer.len = (s.publish o).bufferPos + n := by
  have htake : reader.rxBuf.take n = (payload.drop (s.publish o).bufferPos).take n := by
    have := congrArg (List.take n) hkept
    rwa [List.take_append_of_le_length (by rw [List.length_take]; omega), List.take_take, Nat.min_self,
      List.take_append_of_le_length (by rw [List.length_drop]; omega)] at this
  have hstream : reader.net.stream = payload.drop ((s.publish o).bufferPos + n) ++ rest := by
    have := congrArg (List.drop n) hkept
    rwa [List.drop_append_of_le_length (by rw [List.length_take]; omega), List.drop_take, Nat.sub_self, List.take_zero,
      List.nil_append, List.drop_append_of_le_length (by rw [List.length_drop]; omega), List.drop_drop] at this
  have hkept₁ : Kept o (s.setReader reader) ((s.setReader reader).modifyPublish o ({· with buffer := ⟨0, n⟩})) :=
    .modifyPublish rfl rfl
  have hpublish := Receiver.publish_modifyPublish o (s.setReader reader) ({· with buffer := ⟨0, n⟩})
  have htaking₁ : Taking ((s.setReader reader).modifyPublish o ({· with buffer := ⟨0, n⟩})) := htaking
  have hreader : ((s.setReader reader).modifyPublish o ({· with buffer := ⟨0, n⟩})).client.reader = reader := rfl
  have hlog₁ : ((s.setReader reader).modifyPublish o ({· with buffer := ⟨0, n⟩})).log = s.log := rfl
  generalize (s.setReader reader).modifyPublish o ({· with buffer := ⟨0, n⟩}) = s₁ at *
  obtain ⟨s', hdeliver, hkept', hclient, hlog, reasonCode, hpublish'⟩ :=
    htaking₁.deliver (o := o) (Receiver.msgDone (s₁.publish o))
  rw [hpublish] at hpublish'
  replace hpublish' : s'.publish o = {s.publish o with buffer := ⟨0, n⟩, reasonCode} := hpublish'
  have hend : (s'.publish o).bufferPos + (s'.publish o).buffer.len = (s.publish o).bufferPos + n := by rw [hpublish']
  obtain ⟨ds, hds, hhanded⟩ := h.log
  rw [hlen, Nat.add_zero] at hhanded
  have hcall : ({ isNew := (s₁.publish o).bufferNew, done := Receiver.msgDone (s₁.publish o), pos := (s₁.publish o).bufferPos
                  piece := (s₁.publish o).buffer.get s₁.client.reader.rxBuf } : Delivery) =
      { isNew := false, done := decide ((s.publish o).bufferPos + n ≥ payload.length), pos := (s.publish o).bufferPos
        piece := (payload.drop (s.publish o).bufferPos).take n } := by
    rw [hpublish, hreader, Receiver.msgDone, ← htake]
    show Delivery.mk (s.publish o).bufferNew (decide ((s.publish o).bufferPos + n ≥ (s.publish o).totalLen)) _ _ = _
    rw [h.begun, h.total]
    rfl
  rw [hcall, hlog₁, hds, List.append_assoc] at hlog
  rw [← hclient] at hreader
  refine ⟨s', hdeliver, hkept₁.trans hkept', hkept'.taking htaking₁, ⟨?_, ?_, ⟨_, hlog, ?_⟩, ?_, .inl ?_⟩, hend⟩
  · rw [hpublish', h.total]
  · rw [hpublish', h.begun]
  · rw [hend]
    exact .next ds _ n hhanded hsome (by omega)
  · rw [hend, hreader, hpos]
    exact hstream
  · rw [hreader, hpos]

/-- A part of the next piece is in `rx_buf`. -/
theorem AtPayload.paused {reader : Reader} {n : Nat} (h : AtPayload o payload rest old s)
    (hlen : (s.publish o).buffer.len = 0) (hpos : reader.pos < min (payload.length - (s.publish o).bufferPos) n)
    (hroom : reader.rxBufLen = n)
    (hkept : reader.rxBuf.take reader.pos ++ reader.net.stream = payload.drop (s.publish o).bufferPos ++ rest) :
    AtPayload o payload rest old (s.setReader reader) where
  total := h.total
  begun := h.begun
  log := h.log
  stream := by
    show reader.rxBuf.take reader.pos ++ reader.net.stream =
      payload.drop ((s.publish o).bufferPos + (s.publish o).buffer.len) ++ rest
    rw [hlen, Nat.add_zero]
    exact hkept
  pos := .inr ⟨hlen, hroom ▸ hpos⟩

/-- **The loop hands on piece after piece** until it has handed on all, or the transport asks for time. -/
theorem readPieces_gathers (fuel : Nat) (h : AtPayload o payload rest old s) (htaking : Taking s)
    (hpatient : Patient s.client.nonblock s.client.reader.net) (hroom : 0 < s.client.reader.rxBufLen)
    (hfuel : payload.length < (s.publish o).bufferPos + (s.publish o).buffer.len + fuel) :
    Gathered o payload rest old s (s.readPieces o false fuel) := by
  induction fuel generalizing s with
  | zero => exact absurd h.le (by omega)
  | succ fuel ih =>
    rw [Receiver.readPieces]
    cases hdone : Receiver.msgDone (s.publish o) with
    | true => exact .all s (.refl o s) (h.over hdone)
    | false =>
      have hmore : (s.publish o).bufferPos + (s.publish o).buffer.len < payload.length := by
        have := of_decide_eq_false hdone
        rw [h.total] at this
        omega
      obtain ⟨hnext, hpos, hlen, hread⟩ := h.nextPiece
      have hkept := Kept.nextPiece o s
      have htaking₁ : Taking (s.nextPiece o) := htaking
      refine Gathered.after hkept ?_
      replace hpatient := hkept.patient hpatient
      rw [← hpos] at hmore hfuel
      rw [← hkept.room] at hroom
      dsimp only
      rw [if_neg (by decide), hnext.total]
      generalize s.nextPiece o = s₁ at *
      have hasked : 0 < min (payload.length - (s₁.publish o).bufferPos) s₁.client.reader.rxBufLen := by omega
      rw [if_pos hasked]
      set msgLen := min (payload.length - (s₁.publish o).bufferPos) s₁.client.reader.rxBufLen with hmsgLen
      have hfits : msgLen ≤ s₁.client.reader.rxBuf.length := Nat.min_le_right _ _
      have hbelow : s₁.client.reader.pos < msgLen := by
        rcases hnext.pos with hzero | ⟨-, hlt⟩
        · rw [hzero]
          exact hasked
        · exact hlt
      have hspec := socketRead_spec s₁.client.nonblock 0 msgLen s₁.client.reader (by omega) hbelow
      have hpolls := socketRead_polls s₁.client.nonblock 0 msgLen s₁.client.reader
      have hstream := hnext.stream
      rw [hlen, Nat.add_zero] at hstream
      generalize socketRead s₁.client.nonblock 0 msgLen s₁.client.reader = got at hspec hpolls ⊢
      cases hspec with
      | done r' hfill hzero =>
        have hfilled := hfill.kept
        rw [Nat.zero_add, Nat.zero_add, hstream] at hfilled
        obtain ⟨s₂, hdeliver, hkept₂, htaking₂, hat, hend⟩ := hnext.handOn htaking₁ hlen hasked (Nat.min_le_left _ _)
          (by rw [hfill.room]; exact hfits) hzero hfilled
        dsimp only
        rw [if_neg (by omega), Int.toNat_natCast, hdeliver]
        dsimp only
        rw [if_neg (by decide)]
        replace hkept₂ := (Kept.setReader hfill.room hpolls.script hfill.stat).trans hkept₂
        exact .after hkept₂ (ih hat htaking₂ (hkept₂.patient hpatient) (hkept₂.room ▸ hroom) (by omega))
      | paused why r' hfill hlt hspent =>
        have hfilled := hfill.kept
        rw [Nat.zero_add, Nat.zero_add, hstream] at hfilled
        have hmore' : r'.net.stream ≠ [] := by
          intro hnil
          have hlength := congrArg List.length hfilled
          rw [hnil, List.append_nil, List.length_take, List.length_append, List.length_drop] at hlength
          omega
        obtain ⟨hblock, rfl⟩ := hpolls.again hpatient hmore'
        dsimp only
        rw [if_pos (by decide)]
        exact .part _ (.setReader hfill.room hpolls.script hfill.stat) (hnext.paused hlen hlt hfill.room hfilled) hread
          (hspent.resolve_right hmore') hblock

/-! ### A turn -/

/-- The PUBLISH is in the object, with the beginning of its payload in `rx_buf`. -/
structure AtFront (o : Obj) (payload rest : Bytes) (old : List Delivery) (s : Receiver) : Prop where
  total : (s.publish o).totalLen = payload.length
  fresh : (s.publish o).bufferNew = true
  zero : (s.publish o).bufferPos = 0
  log : s.log = old
  piece : (s.publish o).buffer.get s.client.reader.rxBuf = payload.take (s.publish o).buffer.len
  le : (s.publish o).buffer.len ≤ payload.length
  stream : s.client.reader.net.stream = payload.drop (s.publish o).buffer.len ++ rest
  pos : s.client.reader.pos = 0

/-- The callback takes the first piece. -/
theorem AtFront.deliverFirst (h : AtFront o payload rest old s) (htaking : Taking s) :
    ∃ s', s.deliverFirst o false = (Code.success, s') ∧ Kept o s s' ∧ Taking s' ∧ AtPayload o payload rest old s' := by
  obtain ⟨s₁, hdeliver, hkept, hclient, hlog, reasonCode, hpublish⟩ :=
    htaking.deliver (o := o) (Receiver.msgDone (s.publish o))
  have hpublish' := Receiver.publish_modifyPublish o s₁ ({· with topicName := none, bufferNew := false})
  have hkept' : Kept o s₁ (s₁.modifyPublish o ({· with topicName := none, bufferNew := false})) :=
    .modifyPublish rfl rfl
  have hreader : (s₁.modifyPublish o ({· with topicName := none, bufferNew := false})).client = s.client := hclient
  have hlog' : (s₁.modifyPublish o ({· with topicName := none, bufferNew := false})).log = s₁.log := rfl
  refine ⟨_, ?_, hkept.trans hkept', (hkept.trans hkept').taking htaking, ?_⟩
  · rw [Receiver.deliverFirst, h.fresh, if_pos rfl, hdeliver]
    rfl
  · generalize s₁.modifyPublish o ({· with topicName := none, bufferNew := false}) = s₂ at *
    rw [hpublish] at hpublish'
    have hcall : ({ isNew := (s.publish o).bufferNew, done := Receiver.msgDone (s.publish o), pos := (s.publish o).bufferPos
                    piece := (s.publish o).buffer.get s.client.reader.rxBuf } : Delivery) =
        { isNew := true, done := decide ((s.publish o).buffer.len ≥ payload.length), pos := 0
          piece := payload.take (s.publish o).buffer.len } := by
      rw [h.piece, Receiver.msgDone, h.fresh, h.total, h.zero, Nat.zero_add]
    rw [hcall, h.log, ← hlog'] at hlog
    have hend : (s₂.publish o).bufferPos + (s₂.publish o).buffer.len = (s.publish o).buffer.len := by
      rw [hpublish']
      show (s.publish o).bufferPos + (s.publish o).buffer.len = _
      rw [h.zero, Nat.zero_add]
    refine ⟨?_, ?_, ⟨_, hlog, ?_⟩, ?_, .inl ?_⟩
    · rw [hpublish']
      exact h.total
    · rw [hpublish']
    · rw [hend]
      exact .first _ h.le
    · rw [hend, hreader, h.pos]
      exact h.stream
    · rw [hreader, h.pos]

theorem AtPayload.deliverFirst (h : AtPayload o payload rest old s) : s.deliverFirst o false = (Code.success, s) := by
  rw [Receiver.deliverFirst, h.begun]
  rfl

/-- A message that is handed on. -/
structure Passed (o : Obj) (s : Receiver) : Prop where
  taking : Taking s
  once : s.isDup o = false
  tracked : s.untrackable o = false
  patient : Patient s.client.nonblock s.client.reader.net
  room : 0 < s.client.reader.rxBufLen

theorem Passed.kept {s' : Receiver} (h : Passed o s) (hkept : Kept o s s') : Passed o s' where
  taking := hkept.taking h.taking
  once := hkept.isDup ▸ h.once
  tracked := hkept.untrackable ▸ h.tracked
  patient := hkept.patient h.patient
  room := hkept.room ▸ h.room

theorem readPayload_gathers (h : AtFront o payload rest old s ∨ AtPayload o payload rest old s) (hpassed : Passed o s) :
    Gathered o payload rest old s (s.readPayload o) := by
  obtain ⟨s₁, hfirst, hkept, hat⟩ : ∃ s₁, s.deliverFirst o false = (Code.success, s₁) ∧ Kept o s s₁ ∧
      AtPayload o payload rest old s₁ := by
    rcases h with hfront | hat
    · obtain ⟨s₁, hfirst, hkept, -, hat⟩ := hfront.deliverFirst hpassed.taking
      exact ⟨s₁, hfirst, hkept, hat⟩
    · exact ⟨s, hat.deliverFirst, .refl o s, hat⟩
  have hpassed₁ := hpassed.kept hkept
  have hpieces := readPieces_gathers ((s₁.publish o).totalLen + 1) hat hpassed₁.taking hpassed₁.patient hpassed₁.room
    (by rw [hat.total]; omega)
  rw [Receiver.readPayload, hpassed.once, hpassed.tracked, Bool.or_false, hfirst]
  dsimp only
  rw [if_neg (by decide)]
  generalize s₁.readPieces o false ((s₁.publish o).totalLen + 1) = got at hpieces ⊢
  refine .after hkept ?_
  cases hpieces with
  | all s' hkept' hafter =>
    obtain ⟨cb, hcb, -⟩ := hkept'.taking hpassed₁.taking
    simp only [Bool.false_eq_true, and_false, if_false, hcb, Option.isNone_some]
    exact .all s' hkept' hafter
  | part s' hkept' hat' hread hspent hblock =>
    have hpause : ¬Code.continue = Code.success := by decide
    simp only [Bool.false_eq_true, and_false, if_false, hpause, false_and]
    exact .part s' hkept' hat' hread hspent hblock

end Loop
end WolfMqtt.Receive
