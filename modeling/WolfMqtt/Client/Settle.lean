import WolfMqtt.Client.Payload
import WolfMqtt.Packet.PublishFront

/-! What a wait makes of a PUBLISH, in front of its payload and behind it.

The packet is decoded twice: first to see what it is, and then into the object it is for. Behind the payload an
acknowledgement may be staged and sent; whatever becomes of that, the reader stays at the next packet (`Behind`). -/
namespace WolfMqtt.Receive

/-! ### Waits -/

/-- A wait of the client's: for a packet of any type, which goes into the object of the wait, or for the answer to a
request. -/
structure Wait.Usual (w : Wait) : Prop where
  any : w.type = none → w.packetId = 0 ∧ w.obj = w.stat
  other : w.type ≠ some .publish

/-- Where a wait has a PUBLISH go. -/
def Wait.room (w : Wait) : Obj := w.target none 0

namespace Wait.Usual
variable {w : Wait}

theorem takes (hw : w.Usual) (packetId : Nat) : w.takes (some .publish) packetId = w.type.isNone := by
  cases htype : w.type with
  | none => simp [Wait.takes, htype, (hw.any htype).1]
  | some t =>
    have hother : t ≠ .publish := fun h => hw.other (h ▸ htype)
    simp [Wait.takes, htype, hother, Threads.isPubResp]

theorem takes_none (hw : w.Usual) : w.takes none 0 = w.type.isNone := by
  cases htype : w.type with
  | none => simp [Wait.takes, htype, (hw.any htype).1]
  | some t => simp [Wait.takes, htype]

theorem target (hw : w.Usual) (packetId : Nat) : w.target (some .publish) packetId = w.room := by
  rw [Wait.room, Wait.target, Wait.target, hw.takes, hw.takes_none]

/-- If a PUBLISH ends the wait, it goes into the object that has the state of the wait. -/
theorem room_of_ends (hw : w.Usual) {type : Option PacketType} {packetId : Nat}
    (htype : type = none ∨ type = some .publish) (hends : w.ends type packetId = true) : w.room = w.stat := by
  cases hany : w.type with
  | none =>
    rw [Wait.room, Wait.target, hw.takes_none, hany]
    exact (hw.any hany).2
  | some t =>
    have hother : t ≠ .publish := fun h => hw.other (h ▸ hany)
    rcases htype with rfl | rfl <;> simp [Wait.ends, hany, hother] at hends

end Wait.Usual

/-! ### Decoding -/

section Decode
variable {s : Receiver} {rx : Bytes} {v : PublishView} {p : PropState}

theorem freeList_room {s₀ : PropState} {head : Option Nat} (h : HasList s₀ p) (hpool : s.pool = p.pool)
    (hhead : head = p.head .own) : Pool.freeCount PropItem.isFree (s.freeList head).pool = s₀.room := by
  have hfreed := h.freed
  rw [PropState.room] at hfreed
  rw [← hfreed]
  show Pool.freeCount _ (Pool.release _ s.pool.length head s.pool) = Pool.freeCount _ (freeProps .own p).2.pool
  rw [hpool, hhead, freeProps, PropState.pool_setHead]

theorem packetTypeGet_of {first : UInt8} {type : PacketType} (h : first.toNat / 16 = type.toNat) :
    Receiver.packetTypeGet first = some type := by
  rw [Receiver.packetTypeGet, h]
  cases type <;> rfl

/-- What is in `rx_buf` is a PUBLISH that the decoder takes, without a Topic Alias. -/
structure Holds (rx : Bytes) (v : PublishView) (s : Receiver) : Prop where
  filled : s.rx = rx
  decoded : ∃ p, decodePublish s.client.protocolLevel rx {pool := s.pool} = (.ok v, p)
  plain : s.client.protocolLevel ≥ level5 → v.props.any (·.type = .topicAlias) = false

/-- Both decodings of a PUBLISH come to what is made of its properties. -/
theorem Holds.decodePacket (h : Holds rx v s) (obj : Option Obj) :
    ∃ p, HasList {pool := s.pool} p ∧ s.decodePacket obj =
      ({ rc := (Receiver.decodedPublish obj v (p.head .own) {s with pool := p.pool}).1, type := some .publish, qos := v.qos
         packetId := v.packetId.getD (obj.elim 0 fun o => (s.publish o).packetId) },
        (Receiver.decodedPublish obj v (p.head .own) {s with pool := p.pool}).2) := by
  obtain ⟨p, hdec⟩ := h.decoded
  obtain ⟨headerLen, remainLen, first, hheader, -, -, -, hqos, -⟩ := decodePublish_payload hdec
  obtain ⟨hfirst, htype⟩ := scanHeader_first hheader
  obtain ⟨_, _, _, -, hlong⟩ := decodePublish_topic hdec h.plain
  have hrun : decodeAs s.client.protocolLevel rx .publish {pool := s.pool} =
      (.ok {len := v.len, packetId := v.packetId, props := v.props, publish := some v}, p) := Attempt.run_bind_ok hdec _
  refine ⟨p, (decodePublish_owns _).of_run (Owns.start _) hdec, ?_⟩
  rw [Receiver.decodePacket, h.filled]
  dsimp only
  rw [if_neg (by show ¬rx.length < 2; omega), hfirst, packetTypeGet_of htype, hqos]
  dsimp only
  rw [if_neg (by decide), hrun]
  rfl

theorem Holds.len_pos (h : Holds rx v s) : 0 < v.len := by
  obtain ⟨p, hdec⟩ := h.decoded
  obtain ⟨headerLen, remainLen, first, hheader, hlen, -⟩ := decodePublish_payload hdec
  obtain ⟨n, -, rfl⟩ := scanHeader_ok hheader
  omega

theorem Holds.decodedPublish (h : Holds rx v s) (obj : Option Obj) (props : Option Nat) (pool : PropPool) :
    Receiver.decodedPublish obj v props {s with pool} =
      let r := ({s with pool}.inObject obj fun p => p.decoded v props).handleProps props obj.isSome obj.isNone
      (if r.1 ≠ Code.success then r.1 else (v.len : Int), r.2) := by
  have hplain : ¬(s.client.protocolLevel ≥ level5 ∧ v.props.any (·.type = .topicAlias) = true) := by
    rintro ⟨hfive, halias⟩
    rw [h.plain hfive] at halias
    cases halias
  rw [Receiver.decodedPublish]
  cases obj <;> exact if_neg hplain

/-- Without an object the properties are given back at once. -/
theorem Holds.decode_none (h : Holds rx v s) :
    ∃ pool, s.decodePacket none =
        ({rc := v.len, type := some .publish, qos := v.qos, packetId := v.packetId.getD 0}, {s with pool}) ∧
      Pool.freeCount PropItem.isFree pool = Pool.freeCount PropItem.isFree s.pool := by
  obtain ⟨p, hlist, hdecode⟩ := h.decodePacket none
  rw [h.decodedPublish] at hdecode
  cases hhead : p.head .own with
  | none =>
    rw [hhead] at hdecode
    exact ⟨p.pool, hdecode, hlist.room_of_null hhead⟩
  | some i =>
    rw [hhead] at hdecode
    exact ⟨_, hdecode, freeList_room (s := {s with pool := p.pool}) hlist rfl hhead.symm⟩

/-- A property callback that does not fail. -/
def Heeded (s : Receiver) : Prop := ∀ cb, s.propertyCb = some cb → ∀ n, 0 ≤ cb n

theorem Heeded.ask (h : Heeded s) : ∃ told, s.askPropertyCb = (Code.success, {s with told}) := by
  rw [Receiver.askPropertyCb]
  split
  · exact ⟨s.told, rfl⟩
  next cb hcb => exact ⟨s.told + 1, Prod.ext (Int.min_eq_right (h cb hcb s.told)) rfl⟩

theorem Heeded.handleProps (h : Heeded s) (props : Option Nat) :
    ∃ told, s.handleProps props true false = (Code.success, {s with told}) := by
  cases props with
  | none => exact ⟨s.told, rfl⟩
  | some i =>
    obtain ⟨told, hask⟩ := h.ask
    refine ⟨told, ?_⟩
    rw [Receiver.handleProps, if_neg (by exact Bool.false_ne_true), if_pos rfl, hask]
    rfl

/-- Into an object, the properties stay. -/
theorem Holds.decode_some (h : Holds rx v s) (hheeded : Heeded s) (o : Obj) :
    ∃ pool told props, s.decodePacket (some o) =
      ({ rc := v.len, type := some .publish, qos := v.qos, packetId := v.packetId.getD (s.publish o).packetId },
        {s with pool, told}.modifyPublish o (fun p => p.decoded v props)) := by
  obtain ⟨p, -, hdecode⟩ := h.decodePacket (some o)
  rw [h.decodedPublish] at hdecode
  have hheeded' : Heeded ({s with pool := p.pool}.inObject (some o) fun q => q.decoded v (p.head .own)) := hheeded
  obtain ⟨told, hkeep⟩ := hheeded'.handleProps (p.head .own)
  rw [Option.isSome_some, Option.isNone_some, hkeep] at hdecode
  exact ⟨p.pool, told, p.head .own, hdecode⟩

end Decode

/-! ### The end of a delivery -/

/-- What sending an acknowledgement leaves as it is. -/
structure Acking (w : Wait) (s s' : Receiver) : Prop where
  reader : s'.client.reader = s.client.reader
  readActive : s'.client.readActive = s.client.readActive
  log : s'.log = s.log
  read : (s'.stat w.stat).read = (s.stat w.stat).read

namespace Acking
variable {w : Wait} {s s' s'' : Receiver}

theorem refl (w : Wait) (s : Receiver) : Acking w s s := ⟨rfl, rfl, rfl, rfl⟩

theorem trans (h : Acking w s s') (h' : Acking w s' s'') : Acking w s s'' :=
  ⟨h'.reader.trans h.reader, h'.readActive.trans h.readActive, h'.log.trans h.log, h'.read.trans h.read⟩

theorem modifyStat {f : MqttMsgStat → MqttMsgStat} (hread : (f (s.stat w.stat)).read = (s.stat w.stat).read) :
    Acking w s (s.modifyStat w.stat f) :=
  ⟨rfl, rfl, rfl, by rw [Receiver.stat_modifyStat, hread]⟩

theorem setClient {client : MqttClient} (hreader : client.reader = s.client.reader)
    (hactive : client.readActive = s.client.readActive) : Acking w s {s with client} :=
  ⟨hreader, hactive, rfl, rfl⟩

theorem update {client : MqttClient} {f : MqttMsgStat → MqttMsgStat} (hreader : client.reader = s.client.reader)
    (hactive : client.readActive = s.client.readActive) (hread : (f (s.stat w.stat)).read = (s.stat w.stat).read) :
    Acking w s ({s with client}.modifyStat w.stat f) :=
  (setClient hreader hactive).trans (modifyStat hread)

theorem writeStop (w : Wait) (s : Receiver) : Acking w s (s.writeStop w.stat) :=
  ⟨rfl, rfl, rfl, by rw [Receiver.stat_writeStop]⟩

theorem packetWrite (w : Wait) (s : Receiver) (len : Nat) : Acking w s {s with client := (s.client.packetWrite len).2} := by
  rw [MqttClient.packetWrite]
  split
  · exact .refl w s
  · exact .setClient rfl rfl

theorem writeAck (w : Wait) (s : Receiver) : Acking w s (s.writeAck w).2 := by
  have hwrite := packetWrite w s s.client.writer.len
  rw [Receiver.writeAck]
  generalize s.client.packetWrite s.client.writer.len = got at hwrite ⊢
  dsimp only
  split
  · exact hwrite
  · dsimp only
    generalize (if got.1 = (s.client.writer.len : Int) then Code.success else got.1) = rc
    refine hwrite.trans ((writeStop w _).trans (Acking.trans ?_ (modifyStat rfl)))
    split
    · exact .setClient rfl rfl
    · exact .refl w _

theorem encodeAck (w : Wait) (s : Receiver) : Acking w s (s.encodeAck w).2 := by
  rw [Receiver.encodeAck]
  split
  · exact writeStop w s
  · refine Acking.trans ?_ (writeAck w _)
    exact update rfl rfl rfl

/-- Without an acknowledgement to be sent, the code stays. -/
theorem ackSwitch (w : Wait) (rc : Int) (s : Receiver) :
    Acking w s (s.ackSwitch w rc).2 ∧ ((s.stat w.stat).ack = .begin → (s.ackSwitch w rc).1 = some rc) := by
  rw [Receiver.ackSwitch]
  cases hack : (s.stat w.stat).ack with
  | begin => exact ⟨.refl w s, fun _ => rfl⟩
  | wait =>
    refine ⟨?_, fun h => by cases h⟩
    rw [MqttClient.writeStart]
    cases s.client.writer.isActive with
    | true =>
      show Acking w s ({s with client := s.client}.modifyStat w.stat fun _ => s.stat w.stat)
      exact update rfl rfl rfl
    | false =>
      refine Acking.trans (Acking.trans ?_ (modifyStat ?_)) (encodeAck w _)
      · exact update rfl rfl rfl
      · rfl
  | ack => exact ⟨encodeAck w s, fun h => by cases h⟩
  | header => exact ⟨writeAck w s, fun h => by cases h⟩
  | auth => exact ⟨.refl w s, fun h => by cases h⟩
  | payload => exact ⟨.refl w s, fun h => by cases h⟩
  | payload2 => exact ⟨.refl w s, fun h => by cases h⟩

end Acking

/-- All of the payload has been handed on, and the reader stands at the next packet. -/
structure Behind (payload rest : Bytes) (old : List Delivery) (s : Receiver) : Prop
    extends AfterPayload payload rest old s where
  phase : s.client.reader.stat = .begin
  unlocked : s.client.readActive = false

/-- The wait is to be made again, or it has an acknowledgement to send first. -/
def Starts (w : Wait) (s : Receiver) : Prop := (s.stat w.stat).read = .begin ∨ (s.stat w.stat).read = .ack

section Settle
variable {w : Wait} {payload rest : Bytes} {old : List Delivery} {s s' : Receiver}

theorem Behind.acking (h : Behind payload rest old s) (hacking : Acking w s s') : Behind payload rest old s' where
  log := hacking.log ▸ h.log
  stream := by rw [hacking.reader, h.stream]
  pos := by rw [hacking.reader, h.pos]
  phase := by rw [hacking.reader, h.phase]
  unlocked := by rw [hacking.readActive, h.unlocked]

theorem Behind.modifyStat (h : Behind payload rest old s) (o : Obj) (f : MqttMsgStat → MqttMsgStat) :
    Behind payload rest old (s.modifyStat o f) := ⟨⟨h.log, h.stream, h.pos⟩, h.phase, h.unlocked⟩

theorem AfterPayload.readStop (h : AfterPayload payload rest old s) (hphase : s.client.reader.stat = .begin) (o : Obj) :
    Behind payload rest old (s.readStop o) := ⟨⟨h.log, h.stream, rfl⟩, hphase, rfl⟩

/-- The end of a pass that has not failed. -/
theorem finish_behind {found : Bool} {rc : Int} (h : Behind payload rest old s)
    (hrc : rc = Code.success ∨ (s.stat w.stat).read = .ack) (hfound : found = true → Starts w s) :
    Behind payload rest old (s.finish w false found rc).2 ∧ Starts w (s.finish w false found rc).2 := by
  obtain ⟨s₁, hs₁, hbehind, hrc₁, hstarts⟩ : ∃ s₁,
      (if (s.stat w.stat).read = .wait then s.setRead w.stat .begin else s) = s₁ ∧ Behind payload rest old s₁ ∧
        (rc = Code.success ∨ (s₁.stat w.stat).read = .ack) ∧ (found = true → Starts w s₁) := by
    by_cases hwait : (s.stat w.stat).read = .wait
    · rw [if_pos hwait]
      refine ⟨_, rfl, h.modifyStat _ _, hrc.imp_right fun hack => ?_, fun _ => .inl ?_⟩
      · rw [hwait] at hack
        cases hack
      · rw [Receiver.stat_setRead]
    · rw [if_neg hwait]
      exact ⟨s, rfl, h, hrc, hfound⟩
  rw [Receiver.finish]
  dsimp only
  simp only [hs₁, Bool.false_and, Bool.false_eq_true, if_false]
  have hstop := hbehind.readStop hbehind.phase w.stat
  have hread : ((s₁.readStop w.stat).stat w.stat).read = (s₁.stat w.stat).read := by rw [Receiver.stat_readStop]
  split
  next hpause =>
    refine ⟨hbehind, .inr (hrc₁.resolve_left fun hsuccess => ?_)⟩
    rw [hsuccess] at hpause
    exact absurd hpause.2.1 (by decide)
  split
  next hneg =>
    refine ⟨hstop, .inr (hread.trans (hrc₁.resolve_left fun hsuccess => ?_))⟩
    rw [hsuccess] at hneg
    exact absurd hneg (by decide)
  split
  next hmiss =>
    have hagain : Behind payload rest old ((s₁.readStop w.stat).setRead w.stat .begin) := hstop.modifyStat _ _
    have hbegin : Starts w ((s₁.readStop w.stat).setRead w.stat .begin) := .inl (by rw [Receiver.stat_setRead])
    by_cases hany : s₁.client.nonblock = true ∧ w.type.isNone = true ∧ w.packetId = 0
    · rw [if_pos (by exact hany)]
      exact ⟨hagain, hbegin⟩
    · rw [if_neg (by exact hany)]
      exact ⟨hagain, hbegin⟩
  next hmiss =>
    have hfound : found = true := by simpa using hmiss
    exact ⟨hstop, (hstarts hfound).imp hread.trans hread.trans⟩

/-- Whatever becomes of an acknowledgement, the next packet is next. -/
theorem settle_behind {found : Bool} (h : Behind payload rest old s) (hfound : found = true → Starts w s)
    (hack : (s.stat w.stat).ack = .begin ∨ (s.stat w.stat).read = .ack) :
    Behind payload rest old (s.settle w {rc := Code.success, found}).2 ∧
      Starts w (s.settle w {rc := Code.success, found}).2 := by
  obtain ⟨hacking, hcode⟩ := Acking.ackSwitch w Code.success s
  have hok : ¬(Code.success < 0 ∧ isFatalProtoError Code.success = true) := by decide
  rw [Receiver.settle]
  dsimp only
  rw [if_neg hok]
  generalize s.ackSwitch w Code.success = got at hacking hcode ⊢
  obtain ⟨_ | rc, s₁⟩ := got
  · have hstarts : (s.stat w.stat).read = .ack := hack.resolve_left fun hnone => by cases hcode hnone
    exact ⟨h.acking hacking, .inr (hacking.read.trans hstarts)⟩
  · have hread : (s₁.stat w.stat).read = (s.stat w.stat).read := hacking.read
    have hrc : rc = Code.success ∨ (s₁.stat w.stat).read = .ack :=
      hack.imp (fun hnone => Option.some.inj (hcode hnone)) hread.trans
    exact finish_behind (h.acking hacking) hrc fun hf => (hfound hf).imp hread.trans hread.trans

/-- A pause in the payload ends the pass, and nothing else changes. -/
theorem settle_paused {found : Bool} (hack : (s.stat w.stat).ack = .begin) (hblock : s.client.nonblock = true)
    (hread : (s.stat w.stat).read ≠ .wait) (hbegun : (s.stat w.stat).read ≠ .begin) :
    s.settle w {rc := Code.continue, found} = (some Code.continue, s) := by
  have hnot : ¬(Code.continue < 0 ∧ isFatalProtoError Code.continue = true) := by decide
  rw [Receiver.settle]
  dsimp only
  rw [if_neg hnot, Receiver.ackSwitch, hack]
  dsimp only
  rw [Receiver.finish, if_neg hread]
  exact if_pos ⟨hblock, rfl, hbegun⟩

/-- A pass that has not read anything leaves the wait where it was before. -/
theorem settle_idle (hack : (s.stat w.stat).ack = .begin) (hread : (s.stat w.stat).read = .wait) :
    s.settle w {rc := Code.continue} = (some Code.continue, (s.setRead w.stat .begin).readStop w.stat) := by
  have hnot : ¬(Code.continue < 0 ∧ isFatalProtoError Code.continue = true) := by decide
  have hbegin : ¬((s.setRead w.stat .begin).client.nonblock = true ∧ Code.continue = Code.continue ∧
      ((s.setRead w.stat .begin).stat w.stat).read ≠ .begin) := by
    rw [Receiver.stat_setRead]
    exact fun h => h.2.2 rfl
  rw [Receiver.settle]
  dsimp only
  rw [if_neg hnot, Receiver.ackSwitch, hack]
  dsimp only
  rw [Receiver.finish, if_pos hread]
  dsimp only
  rw [if_neg hbegin]
  rfl

end Settle

end WolfMqtt.Receive
