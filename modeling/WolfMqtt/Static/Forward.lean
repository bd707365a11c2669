import WolfMqtt.Broker.Forward
import WolfMqtt.Static.Serve

/-! What a subscriber gets of a PUBLISH, in either build.

The static-memory broker writes a PUBLISH to each subscriber at once, and closes the connection of one that does not
take all of it (`writeDelivery`). What is written is decided as for a queued copy. -/
namespace WolfMqtt.Static
open Broker

/-- The delivery of a PUBLISH to a subscription of a QoS. -/
def delivery (p : InPublish) (granted : QoS) : Delivery where
  site := .publish
  topic := p.topicName
  payload := p.payload
  qos := p.qos.min granted
  props := p.props

/-- The identifier of a delivery: none at QoS 0. -/
structure Numbered (qos : QoS) (packetId : Nat) : Prop where
  lt : packetId < 65536
  named : qos ≠ .qos0 → packetId ≠ 0

theorem delivery_relays (p : InPublish) (granted : QoS) (level : Nat) {packetId : Nat}
    (h : Numbered (p.qos.min granted) packetId) :
    Relays p granted level (directPublish (delivery p granted) packetId level) where
  topic := rfl
  qos := rfl
  retain := rfl
  packetId := h.lt
  named := h.named
  duplicate := fun _ => rfl
  payload := rfl
  totalLen := rfl
  bufferLen := .inr rfl
  level := rfl
  props := by
    by_cases hlevel : level ≥ level5
    · exact .inl (if_pos ⟨rfl, hlevel⟩)
    · exact .inr ⟨Nat.lt_of_not_le hlevel, if_neg fun h => hlevel h.2⟩

theorem onConn_writeDirect {L : Limits} {out : Bytes} (hsome : 0 < (Encoded.done out).rc) (c : StaticClient) (env : Env) :
    ∃ c₁, Wrote c.toBrokerClient c₁ ∧
      (((onConn (Static.writeDirect L (Encoded.done out).rc) c env).1 = out.length ∧ c₁.writePos = out.length ∧
        (onConn (Static.writeDirect L (Encoded.done out).rc) c env).2.1.wire = c₁.wire) ∨
      (onConn (Static.writeDirect L (Encoded.done out).rc) c env).1 ≠ out.length) := by
  have hdirect : Static.writeDirect L (Encoded.done out).rc ⟨c.toBrokerClient, env⟩ =
      packetWrite L out.length ⟨c.toBrokerClient, env⟩ := by
    unfold Static.writeDirect
    rw [if_neg (Int.not_le.mpr hsome)]
    rfl
  obtain ⟨c₁, hwrote, -, hrun⟩ := @packetWrite_wrote L out.length ⟨c.toBrokerClient, env⟩
  unfold onConn
  rw [hdirect]
  exact ⟨c₁, hwrote, hrun.imp (fun h => ⟨h.1, h.2.1, h.2.2.1⟩) And.left⟩

/-- What a delivery after which the connection stays has put on the wire. -/
theorem writeDelivery_sent {L : StaticLimits} {p : InPublish} {granted : QoS} {packetId : Nat} {c c' : StaticClient}
    {env env' : Env} (hidle : c.writePos = 0)
    (hout : (encodePublish L.txBufSz (directPublish (delivery p granted) packetId c.protocolLevel)).rc ≤ 0 ∨
      ∃ out, encodePublish L.txBufSz (directPublish (delivery p granted) packetId c.protocolLevel) = .done out)
    (h : writeDelivery L (delivery p granted) packetId c env = (true, c', env')) :
    c'.wire =
      c.wire ++ sentBytes (encodePublish L.txBufSz (directPublish (delivery p granted) packetId c.protocolLevel)) := by
  unfold writeDelivery at h
  generalize encodePublish L.txBufSz (directPublish (delivery p granted) packetId c.protocolLevel) = enc at h hout ⊢
  have hinto : onConn (encodeInto enc) c env =
      (enc.rc, {c with toBrokerClient := c.toBrokerClient.holding enc.out}, env) := rfl
  rw [hinto] at h
  dsimp only at h
  split at h
  next hrc =>
    cases h
    rw [sentBytes, if_pos hrc, List.append_nil]
    rfl
  next hrc =>
  obtain hnone | ⟨out, rfl⟩ := hout
  · exact absurd hnone hrc
  have hwr := onConn_writeDirect (L := L.toLimits) (Int.not_le.mp hrc)
    {c with toBrokerClient := c.toBrokerClient.holding (Encoded.done out).out} env
  generalize onConn (Static.writeDirect L.toLimits (Encoded.done out).rc)
    {c with toBrokerClient := c.toBrokerClient.holding (Encoded.done out).out} env = wr at h hwr
  have hzero : (if wr.1 = Code.continue ∧ (delivery p granted).site ≠ .publish then wr
      else (wr.1, (onConn (zeroTxBuf (Encoded.done out).rc.toNat) wr.2.1 wr.2.2).2)).2.1.wire = wr.2.1.wire := by
    split <;> rfl
  generalize (if wr.1 = Code.continue ∧ (delivery p granted).site ≠ .publish then wr
    else (wr.1, (onConn (zeroTxBuf (Encoded.done out).rc.toNat) wr.2.1 wr.2.2).2)) = zeroed at h hzero
  unfold afterDirect at h
  split at h
  next hall =>
    obtain hall | ⟨-, hsite⟩ := hall
    · obtain ⟨c₁, hwrote, ⟨-, hend, hwire⟩ | hpart⟩ := hwr
      · cases h
        have hline : zeroed.2.1.wire = c₁.wire := hzero.trans hwire
        show zeroed.2.1.wire = _
        rw [hline, hwrote.wire, hend, sentBytes_done]
        show c.wire ++ ((out ++ c.txBuf.drop out.length).drop c.writePos).take (out.length - c.writePos) = _
        rw [hidle, List.drop_zero, Nat.sub_zero, List.take_left]
      · exact absurd hall hpart
    · exact absurd rfl hsite
  next hpart =>
    rw [if_pos (show (delivery p granted).site = .publish from rfl)] at h
    cases congrArg Prod.fst h

section Intact
variable {rx : Bytes} {level : Nat} {s s' : PropState} {v : PublishView} {granted : QoS}

theorem writeDelivery_whole_iff {L : StaticLimits} {packetId : Nat} {c c' : StaticClient} {env env' : Env}
    (htx : L.txBufSz ≤ maxRemainLen) (hread : v.Read level rx) (hpassed : (v.inPublish rx).Passed level)
    (hid : Numbered ((v.inPublish rx).qos.min granted) packetId) (hidle : c.writePos = 0)
    (h : writeDelivery L (delivery (v.inPublish rx) granted) packetId c env = (true, c', env')) :
    (∃ bytes, c'.wire = c.wire ++ bytes ∧ Intact rx v level c.protocolLevel granted bytes) ↔
      forwardedSize (v.inPublish rx) granted c.protocolLevel ≤ L.txBufSz := by
  have hrelays := delivery_relays (v.inPublish rx) granted c.protocolLevel hid
  have hout := @Publish.encodePublish_cut L.txBufSz _ (hrelays.held hread hpassed) (hrelays.accepted hread hpassed)
  have hwire := writeDelivery_sent hidle (hout.imp le_of_lt fun hdone => ⟨_, hdone.2.2⟩) h
  refine Iff.trans ?_ (hrelays.whole_iff htx hread hpassed)
  constructor
  · rintro ⟨bytes, hbytes, hwhole⟩
    rw [hwire] at hbytes
    rw [← List.append_cancel_left hbytes] at hwhole
    exact hwhole
  · exact fun hwhole => ⟨_, hwire, hwhole⟩

/-- **A forwarded PUBLISH is whole exactly if the subscriber's buffer holds it**, whatever the two levels and the QoS:
when the drain is through with its entry, in however many turns, and when the static build's delivery is out. The
drain has a clone of the properties, and drops a PUBLISH whose Response Topic is empty there. -/
theorem forwarded_whole_iff (hrx : rx.length < 2147483648) (hdecode : decodePublish level rx s = (.ok v, s'))
    (hpassed : (v.inPublish rx).Passed level) :
    (∀ (L : Limits) (e : OutPub) (conn conn' : Conn), L.txBufSz ≤ maxRemainLen → Forwards (v.inPublish rx) granted e →
      conn.c.writePos = 0 → Attempts L e conn conn' →
      ((∃ bytes, conn'.c.wire = conn.c.wire ++ bytes ∧ Intact rx v level e.protocolLevel granted bytes) ↔
        forwardedSize (v.inPublish rx) granted e.protocolLevel ≤ L.txBufSz ∧
          RespTopicsNamed e.protocolLevel (v.inPublish rx).props)) ∧
    (∀ (L : StaticLimits) (packetId : Nat) (c c' : StaticClient) (env env' : Env), L.txBufSz ≤ maxRemainLen →
      Numbered ((v.inPublish rx).qos.min granted) packetId → c.writePos = 0 →
      writeDelivery L (delivery (v.inPublish rx) granted) packetId c env = (true, c', env') →
      ((∃ bytes, c'.wire = c.wire ++ bytes ∧ Intact rx v level c.protocolLevel granted bytes) ↔
        forwardedSize (v.inPublish rx) granted c.protocolLevel ≤ L.txBufSz)) := by
  have hread := decodePublish_read hrx hdecode
  exact ⟨fun _ _ _ _ htx he hidle hrun => hrun.whole_iff htx hread hpassed he hidle,
    fun _ _ _ _ _ _ htx hid hidle h => writeDelivery_whole_iff htx hread hpassed hid hidle h⟩

end Intact

/-- A PUBLISH at level 4 with a payload of `n` bytes. -/
def zeroPublish (n : Nat) : Publish where
  topicName := [0x61]
  qos := .qos1
  packetId := 7
  retain := false
  duplicate := false
  buffer := some (List.replicate n 0)
  totalLen := n
  bufferLen := n
  protocolLevel := 4
  props := []

theorem zeroPublish_payload (n : Nat) : ((zeroPublish n).buffer.getD []).length = n := List.length_replicate

theorem zeroPublish_body (n : Nat) : (zeroPublish n).body.length = 5 + n := by
  rw [Publish.body_length, zeroPublish_payload]
  rfl

theorem zeroPublish_wire (n : Nat) : (zeroPublish n).wire.length = fixedLen (5 + n) + (5 + n) := by
  rw [Publish.wire, packetWire_length, headerLength, zeroPublish_body, fixedLen]

theorem zeroPublish_read (n : Nat) (hn : n ≤ 4096) :
    ∃ v s', decodePublish 4 (zeroPublish n).wire (freePool 0) = (.ok v, s') ∧
      v.Shows (zeroPublish n).wire (zeroPublish n) := by
  have hlow : ¬4 ≥ level5 := by decide
  have htyped : (zeroPublish n).Typed :=
    ⟨Nat.lt_of_lt_of_le (Nat.lt_succ_self 7) (by decide), List.forall_mem_nil _, (zeroPublish_payload n).symm,
      (zeroPublish_payload n).symm⟩
  have haccepted : (zeroPublish n).Accepted :=
    ⟨⟨Nat.lt_of_lt_of_le (Nat.lt_succ_self 1) (by decide), rfl⟩, rfl, fun hlevel => absurd hlevel hlow,
      fun _ => Nat.succ_ne_zero 6, fun _ => rfl, fun hlevel => absurd hlevel hlow⟩
  have hbody : (zeroPublish n).body.length ≤ maxRemainLen := by
    rw [zeroPublish_body, maxRemainLen]
    omega
  have hwire : (zeroPublish n).wire.length < 2147483648 := by
    have hvbi := vbiBytes_length_le maxLenBytes (5 + n)
    rw [maxLenBytes] at hvbi
    rw [zeroPublish_wire, fixedLen, maxLenBytes]
    omega
  exact decodePublish_wire htyped haccepted hbody hwire (Nat.zero_le _)

/-- A PUBLISH of 4096 bytes does not fit the transmit buffer of a subscriber at level 5: its properties, of which there
are none, have a length. -/
theorem not_forwarded_whole :
    ¬∀ (rx : Bytes) (level : Nat) (s s' : PropState) (v : PublishView) (granted : QoS) (e : OutPub) (conn conn' : Conn),
      rx.length ≤ 4096 → decodePublish level rx s = (.ok v, s') → (v.inPublish rx).Passed level →
      Forwards (v.inPublish rx) granted e → conn.c.writePos = 0 → Attempts {} e conn conn' →
      ∃ bytes, conn'.c.wire = conn.c.wire ++ bytes ∧ Intact rx v level e.protocolLevel granted bytes := by
  intro h
  obtain ⟨v, s', hdecode, hshows⟩ := zeroPublish_read 4088 (by decide)
  have hwire : (zeroPublish 4088).wire.length = 4096 := zeroPublish_wire 4088
  generalize hrx : (zeroPublish 4088).wire = rx at hdecode hshows hwire
  have hread := decodePublish_read (by omega) hdecode
  have hpayload : (v.buffer.get rx).length = 4088 := (congrArg List.length hshows.buffer).trans (zeroPublish_payload 4088)
  have htotal : v.totalLen = 4088 := hshows.totalLen.trans (zeroPublish_payload 4088)
  have hpassed : (v.inPublish rx).Passed 4 :=
    ⟨fun hlevel => absurd hlevel (by decide), fun hlevel => absurd hlevel (by decide), (htotal.trans hpayload.symm).le⟩
  have hqos : v.qos = 1 := hshows.qos
  have hmin : (v.inPublish rx).qos.min .qos1 = .qos1 := by
    show (qosOfBits v.qos).min .qos1 = .qos1
    rw [hqos]
    rfl
  let p := v.inPublish rx
  let e := newOutPub 1 p.topicName p.payload p.props .qos1 9 false 5 0 0 0
  have he : Forwards p .qos1 e :=
    ⟨rfl, rfl, rfl, hmin.symm, rfl, Nat.lt_of_lt_of_le (Nat.lt_succ_self 9) (by decide), fun _ => Nat.succ_ne_zero 8,
      fun _ => rfl⟩
  obtain ⟨conn', hrun⟩ := drainPublish_open {} e 0 (s := ⟨{addr := 0}, {}⟩) rfl rfl rfl rfl
  obtain ⟨hfits, -⟩ := (hrun.whole_iff (by decide) hread hpassed he rfl).mp
    (h rx 4 _ s' v .qos1 e _ conn' hwire.le hdecode hpassed he rfl hrun)
  have htopic : p.topicName = [0x61] := hshows.topicName
  have hprops : p.props = [] := hshows.props
  have hlen : p.payload.length = 4088 := hpassed.payload_length.trans htotal
  change forwardedSize p .qos1 5 ≤ 4096 at hfits
  rw [forwardedSize, hmin, htopic, hprops, hlen] at hfits
  revert hfits
  decide

/-- What is read of a small one. -/
def zeroView : PublishView :=
  { len := 9, qos := 1, retain := 0, duplicate := 0, topicName := ⟨4, 1⟩, packetId := some 7, props := []
    buffer := ⟨7, 2⟩, totalLen := 2 }

def zeroEntry : OutPub := newOutPub 1 [0x61] [0, 0] [] .qos1 9 false 5 0 0 0

theorem zeroEntry_through : (Broker.drainPublish {} zeroEntry 0 ⟨{addr := 0}, {}⟩).1 = .next 1 := by decide +kernel

/-- A subscriber at level 5 gets a small PUBLISH of a publisher at level 4, from a queue and at once. -/
theorem forwarded_whole_iff_sample :
    (∃ bytes, (Broker.drainPublish {} zeroEntry 0 ⟨{addr := 0}, {}⟩).2.c.wire = [] ++ bytes ∧
      Intact (zeroPublish 2).wire zeroView 4 5 .qos1 bytes) ∧
    (∃ bytes, (writeDelivery {} (delivery (zeroView.inPublish (zeroPublish 2).wire) .qos1) 9
        {addr := 0, protocolLevel := 5, outInflight := []} {}).2.1.wire = [] ++ bytes ∧
      Intact (zeroPublish 2).wire zeroView 4 5 .qos1 bytes) := by
  have hpassed : (zeroView.inPublish (zeroPublish 2).wire).Passed 4 :=
    ⟨fun hlevel => absurd hlevel (by decide), fun hlevel => absurd hlevel (by decide), by decide +kernel⟩
  obtain ⟨hqueued, hdirect⟩ := @forwarded_whole_iff (zeroPublish 2).wire 4 (freePool 0) {pool := [], props := some none}
    zeroView .qos1 (by decide +kernel) (by decide +kernel) hpassed
  constructor
  · refine (hqueued {} zeroEntry ⟨{addr := 0}, {}⟩ _ (by decide)
      ⟨by decide +kernel, by decide +kernel, rfl, rfl, rfl, by decide, by decide, by decide⟩ rfl
      (.of_next zeroEntry_through)).mpr ⟨by decide +kernel, fun _ => List.forall_mem_nil _⟩
  · exact (hdirect {} 9 {addr := 0, protocolLevel := 5, outInflight := []} _ {} {} (by decide) ⟨by decide, by decide⟩ rfl
      (by decide +kernel)).mpr (by decide +kernel)

end WolfMqtt.Static
