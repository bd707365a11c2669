import WolfMqtt.Client.PublishBlock

/-! When a publish puts its whole packet on the wire.

It does so from a nonblocking client if it is feasible at all, and from a blocking client if besides the
transport, once it has taken a byte of the packet, takes the rest without a refusal: a blocking call that
is refused in the middle returns `MQTT_CODE_CONTINUE` like one that has not begun, and the next
call sends the packet again from its first byte. -/
namespace WolfMqtt
open Transfer
namespace MqttClient

/-- A PUBLISH that is to be sent, by a client that may send it, from its beginning. -/
structure Publishable (c : MqttClient) (cb : Option PublishCb) (p : MqttPublish) : Prop where
  sendable : Sendable c cb p
  ready : Ready c p
  start : cb.isSome → p.bufferPos = 0

/-- The transport takes the packet, from its first byte to its last, without a refusal. -/
def TakenWhole (c : MqttClient) (cb : Option PublishCb) (p : MqttPublish) : Prop :=
  ∃ t ≥ c.writer.turn, (∀ u, c.writer.turn ≤ u → u < t → c.netWrite u ≤ 0) ∧ Unbroken c.netWrite t (c.pieceSizes cb p)

section Sent
variable {c c' : MqttClient} {cb : Option PublishCb} {p p' : MqttPublish}

/-! ### A nonblocking publish that is not feasible -/

/-- In the header of a publish whose payload cannot be sent. -/
def Stuck (net : Nat → Int) (cb : Option PublishCb) (s : MqttClient × MqttPublish) : Prop :=
  s.1.nonblock = true ∧ s.1.netWrite = net ∧ s.1.checkConnectSent = Code.success ∧
    s.1.publishAllowed s.2.toPublish = Code.success ∧ s.2.protocolLevel = s.1.protocolLevel ∧
    s.2.stat.write = .header ∧ Starved cb s.2 ∧
    ∃ piece, s.1.writer.len = piece.length ∧ s.1.writer.txBuf = piece ∧ s.1.Small piece.length ∧
      s.1.writer.pos < piece.length

/-- From there a call stays there, or fails for good. -/
theorem Stuck.call {net : Nat → Int} {s : MqttClient × MqttPublish} (k : Nat) (hnet : Answers Code.continue net)
    (h : Stuck net cb s) : ¬IsSent (publishCall k cb s).1 ∧
      (Again (publishCall k cb s).1 → Stuck net cb (publishCall k cb s).2) := by
  obtain ⟨c, p⟩ := s
  obtain ⟨hnb, hsame, hsent, hallowed, hlevel, hw, hstarved, piece, hlen, hbuf, hsmall, hpos⟩ := h
  simp only at hnb hsame hsent hallowed hlevel hw hstarved hlen hbuf hsmall hpos
  have hp : ({p with protocolLevel := c.protocolLevel} : MqttPublish) = p := by rw [← hlevel]
  have hcall : publishCall k cb (c, p) = returned (c.publishWrite k cb p) := by
    show c.publishMsgWrite k cb p = _
    rw [publishMsgWrite_eq k hsent hallowed, hp]
  rw [hcall]
  rcases packetWrite_once _ hnb (hsame ▸ hnet) hsmall hbuf hpos with ⟨w', hrun, hstop⟩ | ⟨w', hrun, hfin⟩
  · have hret : c.publishWrite k cb p = (.ret Code.continue, c.withWriter w', p) := by
      simp only [publishWrite, hw, publishHeader, hlen, hrun, withWriter_nonblock, hnb, true_and, if_true]
    rw [hret]
    refine ⟨Again.not_sent (.inl rfl), fun _ => ⟨hnb, hsame, hsent, hallowed, hlevel, hw, hstarved, piece, ?_, ?_, hsmall, hstop.pos⟩⟩
    · exact hstop.len.trans hlen
    · exact hstop.txBuf.trans hbuf
  · have hno : ¬((piece.length : Int) = Code.continue) := by
      have : Code.continue < 0 := by decide
      omega
    have hnext : c.publishWrite k cb p =
        (c.withWriter {w' with len := 0}).publishPayload k cb {p with stat := {p.stat with write := .payload}} := by
      simp only [publishWrite, hw, publishHeader, hlen, hrun, hno, and_false, if_false, ne_eq, not_true_eq_false]
      rfl
    have hstarved' : Starved cb {p with stat := {p.stat with write := .payload}} := by
      cases cb with
      | none => exact hstarved
      | some f => exact hstarved
    obtain ⟨c', p', hfail⟩ := publishPayload_starved (c := c.withWriter {w' with len := 0}) k rfl hstarved'
    have hret : returned (c.publishWrite k cb p) = (some Code.badArg, (c'.publishDone p' Code.badArg).2) := by
      rw [hnext, hfail]
      rfl
    have herror : Code.badArg < 0 ∧ Code.badArg ≠ Code.continue ∧ Code.badArg ≠ Code.pubContinue := by decide
    obtain ⟨hstopped, hfailed⟩ := failed_of_error herror
    rw [hret]
    exact ⟨hfailed, fun hagain => absurd hagain hstopped⟩

theorem Stuck.never_sent {net : Nat → Int} (k : Nat) (hnet : Answers Code.continue net) (n : Nat)
    {s : MqttClient × MqttPublish} (h : Stuck net cb s)
    (hagain : ∀ m < n, Again (publishCall k cb (afterCalls k cb m s)).1) :
    ¬IsSent (publishCall k cb (afterCalls k cb n s)).1 := by
  induction n generalizing s with
  | zero => exact (h.call k hnet).1
  | succ n ih =>
    rw [afterCalls_succ]
    refine ih ((h.call k hnet).2 (hagain 0 (Nat.succ_pos n))) fun m hm => ?_
    have := hagain (m + 1) (by omega)
    rwa [afterCalls_succ] at this

theorem not_feasible_starved {c₁ : MqttClient} {p₁ : MqttPublish} {k : Nat} (h : Sendable c cb p) (hstart : cb.isSome → p.bufferPos = 0)
    (hb : Begun c k cb p c₁ p₁) (hno : ¬Feasible c cb p) : Starved cb p₁ := by
  obtain ⟨len, hreq, hlen, hlen', -⟩ := hb.toPublish
  have htotal : p₁.totalLen = p.totalLen := by rw [hreq]; rfl
  have hword := h.word
  cases cb with
  | none =>
    have hno' : ¬(p.totalLen = 0 ∨ (c.publishHead p).length < c.txBufLen) := hno
    have h0 : p.totalLen ≠ 0 := fun h0 => hno' (.inl h0)
    have hbp := hb.bufferPos.2 rfl h0
    simp only [stagedLen, Option.isSome_none, Bool.false_eq_true, if_false] at hbp
    exact ⟨by omega, by omega⟩
  | some f =>
    have hno' : ¬(p.bufferPos < p.totalLen ∧ 0 < p.bufferLen) := hno
    have hblen : p₁.bufferLen = p.bufferLen := by
      rw [hreq]
      exact hlen rfl
    have hbp := hb.bufferPos.1 rfl
    obtain ⟨hf, hle⟩ := h.supplies f rfl
    exact ⟨hblen ▸ hf, hb.intBufPos, by omega, by omega⟩

/-- What is not feasible is not sent by a nonblocking client. -/
theorem Sendable.nonblock_feasible (h : Sendable c cb p) (hstart : cb.isSome → p.bufferPos = 0) (hnb : c.nonblock = true)
    (hnet : Answers Code.continue c.netWrite) {k : Nat} (hsends : SendsWhole k cb c p) : Feasible c cb p := by
  by_contra hno
  obtain ⟨n, hagain, hsent, -⟩ := hsends
  rcases h.begin k with ⟨hrefused, -⟩ | ⟨c₁, p₁, hbegin, hbegun⟩
  · obtain ⟨rc, s, hcall, hrc⟩ := publishCall_refused h hrefused
    have herror : Code.badArg < 0 ∧ Code.badArg ≠ Code.continue ∧ Code.badArg ≠ Code.pubContinue := by decide
    obtain ⟨hstopped, hfailed⟩ := failed_of_error hrc
    cases n with
    | zero =>
      change IsSent (publishCall k cb (c, p)).1 at hsent
      rw [hcall] at hsent
      exact hfailed hsent
    | succ n =>
      have hfirst := hagain 0 (Nat.succ_pos n)
      change Again (publishCall k cb (c, p)).1 at hfirst
      rw [hcall] at hfirst
      exact hstopped hfirst
  · have hkin : c₁.nonblock = c.nonblock ∧ c₁.netWrite = c.netWrite := by
      obtain ⟨_, _, _, _, _, _, _, hc⟩ := hbegun.kin
      rw [hc]
      exact ⟨rfl, rfl⟩
    obtain ⟨hsent₁, hallowed₁, hlevel₁⟩ := hbegun.allowed h
    obtain ⟨hw, hlen, hbuf, hsmall, hpos⟩ := hbegun.piece h
    have hstuck : Stuck c.netWrite cb (c₁, p₁) :=
      ⟨hkin.1.trans hnb, hkin.2, hsent₁, hallowed₁, congrArg (·.protocolLevel) hlevel₁.symm, hw,
        not_feasible_starved h hstart hbegun hno, c.firstPiece cb p, hlen, hbuf, hsmall, hpos⟩
    have hstart : ∀ m, publishCall k cb (afterCalls k cb m (c, p)) = publishCall k cb (afterCalls k cb m (c₁, p₁)) :=
      publishCall_from k (publishCall_begun k h hbegin hbegun)
    refine hstuck.never_sent k hnet n (fun m hm => ?_) ?_
    · rw [← hstart]
      exact hagain m hm
    · rw [← hstart]
      exact hsent

/-! ### A blocking publish -/

theorem due_length (h : Sendable c cb p) (hfeasible : Feasible c cb p) :
    (c.due cb p).length + (if cb.isSome then p.bufferPos else 0) = (c.publishHead p).length + p.totalLen := by
  cases cb with
  | none =>
    have hdata := h.data_length (fun h => absurd h (by simp))
    have hle : c.stagedLen none p ≤ p.totalLen := by
      simp only [stagedLen, Option.isSome_none, Bool.false_eq_true, if_false]
      omega
    have hdue : c.due none p = c.publishHead p ++ publishData none p := by
      rw [due, firstPiece, List.append_assoc, List.take_append_drop]
    rw [hdue, List.length_append, hdata]
    rfl
  | some f =>
    have hfeasible' : p.bufferPos < p.totalLen ∧ 0 < p.bufferLen := hfeasible
    have hlen := (h.supplies f rfl).1.length_payloadFrom hfeasible'.2 p.totalLen p.asked p.bufferPos
    simp only [due, firstPiece, stagedLen, Option.isSome_some, if_true, List.take_zero, List.append_nil,
      List.length_append, hlen]
    omega

/-- With more on the wire than what the callback has had taken from it, the wire never ends in one packet. -/
theorem Sendable.never_whole (k : Nat) (n : Nat) {before : Nat} (h : Sendable c cb p) (hb : c.nonblock = false)
    (hnet : Answers Code.continue c.netWrite)
    (hwire : before + 1 + (if cb.isSome then p.bufferPos else 0) ≤ c.writer.wire.length)
    (hagain : ∀ m < n, Again (publishCall k cb (afterCalls k cb m (c, p))).1)
    (hsent : IsSent (publishCall k cb (afterCalls k cb n (c, p))).1) :
    before + ((c.publishHead p).length + p.totalLen) <
      (publishCall k cb (afterCalls k cb n (c, p))).2.1.writer.wire.length := by
  induction n generalizing c p with
  | zero =>
    have hcalled := h.called hb hnet k
    change IsSent (publishCall k cb (c, p)).1 at hsent
    show _ < (publishCall k cb (c, p)).2.1.writer.wire.length
    generalize publishCall k cb (c, p) = r at hcalled hsent
    cases hcalled with
    | failed hrc => exact absurd hsent (failed_of_error hrc).2
    | refused => exact absurd hsent (Again.not_sent (.inl rfl))
    | cut => exact absurd hsent (Again.not_sent (.inl rfl))
    | @out r c' p' hr hfeasible hall hwire' =>
      have hlen := due_length h hfeasible
      show _ < c'.writer.wire.length
      rw [hwire', List.length_append]
      omega
  | succ n ih =>
    have hfirst := hagain 0 (Nat.succ_pos n)
    change Again (publishCall k cb (c, p)).1 at hfirst
    have hcalled := h.called hb hnet k
    have hagain' : ∀ m < n, Again (publishCall k cb (afterCalls k cb m (publishCall k cb (c, p)).2)).1 := by
      intro m hm
      have := hagain (m + 1) (by omega)
      rwa [afterCalls_succ] at this
    rw [afterCalls_succ] at hsent ⊢
    generalize publishCall k cb (c, p) = r at hcalled hfirst hagain' hsent
    cases hcalled with
    | failed hrc => exact absurd hfirst (failed_of_error hrc).1
    | out hr => exact absurd hr hfirst.not_sent
    | @refused c' p' hno hturn hwire' hback hready hsame =>
      obtain ⟨hb', hnet', htotal⟩ := hback.same
      have hpos : (if cb.isSome then p'.bufferPos else 0) = if cb.isSome then p.bufferPos else 0 := by
        split
        · next hcb => exact (hsame hcb).2
        · rfl
      have := ih (hback.sendable h) (hb'.trans hb) (hnet' ▸ hnet) (by rw [hpos, hwire']; exact hwire) hagain' hsent
      rwa [hback.head, htotal] at this
    | @cut c' p' hsome hcut hback hwire' hpos =>
      obtain ⟨hb', hnet', htotal⟩ := hback.same
      have hlt : before + 1 + (if cb.isSome then p'.bufferPos else 0) ≤ c'.writer.wire.length := by
        split
        · next hcb =>
          have := hpos hcb
          rw [if_pos hcb] at hwire
          omega
        · omega
      have := ih (hback.sendable h) (hb'.trans hb) (hnet' ▸ hnet) hlt hagain' hsent
      rwa [hback.head, htotal] at this

theorem Back.feasible (hback : Back c cb p c' p') (hsame : cb.isSome → p'.asked = p.asked ∧ p'.bufferPos = p.bufferPos) :
    Feasible c' cb p' ↔ Feasible c cb p := by
  have htx : c'.txBufLen = c.txBufLen := by
    obtain ⟨_, _, _, _, _, _, _, hc⟩ := hback.kin
    rw [hc]
  obtain ⟨-, -, htotal⟩ := hback.same
  cases cb with
  | none => simp only [Feasible, htotal, hback.head, htx]
  | some f =>
    have hblen : p'.bufferLen = p.bufferLen := by
      obtain ⟨b, len, hreq, -, hlen, -⟩ := hback.toPublish
      rw [hreq]
      exact hlen rfl
    simp only [Feasible, htotal, hblen, (hsame rfl).2]

theorem due_start (hstart : cb.isSome → p.bufferPos = 0) : c.due cb p = c.publishPacket cb p := by
  cases cb with
  | none => rw [due, firstPiece, publishPacket, List.append_assoc, List.take_append_drop]
  | some f =>
    simp only [due, firstPiece, publishPacket, stagedLen, Option.isSome_some, if_true, List.take_zero, List.append_nil,
      publishData, hstart rfl]

/-- Turned away before the packet and then not in it, a blocking client sends it. -/
theorem Publishable.block_sends (k : Nat) (d : Nat) (h : Publishable c cb p) (hb : c.nonblock = false)
    (hnet : Answers Code.continue c.netWrite) (hfeasible : Feasible c cb p)
    (hrefused : ∀ u, c.writer.turn ≤ u → u < c.writer.turn + d → c.netWrite u ≤ 0)
    (hall : Unbroken c.netWrite (c.writer.turn + d) (c.pieceSizes cb p)) :
    ∃ n, (∀ m < n, Again (publishCall k cb (afterCalls k cb m (c, p))).1) ∧
      IsSent (publishCall k cb (afterCalls k cb n (c, p))).1 ∧
      (publishCall k cb (afterCalls k cb n (c, p))).2.1.writer.wire = c.writer.wire ++ c.publishPacket cb p := by
  have hpiece : 0 < (c.firstPiece cb p).length := by
    have := h.sendable.head_pos
    rw [firstPiece, List.length_append]
    omega
  have hsizes := pieceSizes_eq c cb p
  induction d generalizing c p with
  | zero =>
    have hcalled := h.sendable.called hb hnet k
    refine ⟨0, fun m hm => absurd hm (Nat.not_lt_zero m), ?_⟩
    show IsSent (publishCall k cb (c, p)).1 ∧ (publishCall k cb (c, p)).2.1.writer.wire = _
    generalize publishCall k cb (c, p) = r at hcalled
    cases hcalled with
    | failed hrc hno => exact absurd ⟨h.ready, hfeasible⟩ hno
    | refused hno =>
      rw [hsizes] at hall
      have := hall.first hpiece
      rw [Nat.add_zero] at this
      omega
    | cut hsome hcut => exact absurd hall hcut
    | out hr hf hu hwire => exact ⟨hr, hwire.trans (by rw [due_start h.start])⟩
  | succ d ih =>
    have hno : c.netWrite c.writer.turn ≤ 0 := hrefused _ le_rfl (by omega)
    have hcalled := h.sendable.called hb hnet k
    rcases hr : publishCall k cb (c, p) with ⟨r, c', p'⟩
    rw [hr] at hcalled
    cases hcalled with
    | failed hrc hnot => exact absurd ⟨h.ready, hfeasible⟩ hnot
    | cut hsome => omega
    | out hsent hf hu =>
      rw [hsizes] at hu
      have := hu.first hpiece
      omega
    | refused _ hturn hwire hback hready hsame =>
      obtain ⟨hb', hnet', htotal⟩ := hback.same
      obtain ⟨hpacket, hsizes'⟩ := hback.packet hsame
      have h' : Publishable c' cb p' :=
        ⟨hback.sendable h.sendable, hready h.ready, fun hcb => (hsame hcb).2.trans (h.start hcb)⟩
      have hpiece' : 0 < (c'.firstPiece cb p').length := by
        have := h'.sendable.head_pos
        rw [firstPiece, List.length_append]
        omega
      obtain ⟨n, hagain, hsent, hout⟩ := ih h' (hb'.trans hb) (hnet' ▸ hnet) ((hback.feasible hsame).mpr hfeasible)
        (fun u hu hu' => by rw [hnet']; exact hrefused u (by omega) (by omega))
        (by
          rw [hnet', hsizes', hturn, Nat.add_assoc, Nat.add_comm 1 d]
          exact hall)
        hpiece' (pieceSizes_eq c' cb p')
      have hafter : ∀ m, afterCalls k cb (m + 1) (c, p) = afterCalls k cb m (c', p') := by
        intro m
        rw [afterCalls_succ, hr]
      refine ⟨n + 1, fun m hm => ?_, ?_, ?_⟩
      · cases m with
        | zero =>
          show Again (publishCall k cb (c, p)).1
          rw [hr]
          exact .inl rfl
        | succ m =>
          rw [hafter]
          exact hagain m (by omega)
      · rw [hafter]
        exact hsent
      · rw [hafter, hout, hwire, hpacket]

/-- What a blocking client sends, the transport has taken whole. -/
theorem Publishable.block_whole (k : Nat) (n : Nat) (h : Publishable c cb p) (hb : c.nonblock = false)
    (hnet : Answers Code.continue c.netWrite)
    (hagain : ∀ m < n, Again (publishCall k cb (afterCalls k cb m (c, p))).1)
    (hsent : IsSent (publishCall k cb (afterCalls k cb n (c, p))).1)
    (hwire : (publishCall k cb (afterCalls k cb n (c, p))).2.1.writer.wire = c.writer.wire ++ c.publishPacket cb p) :
    Feasible c cb p ∧ TakenWhole c cb p := by
  have hcalled := h.sendable.called hb hnet k
  induction n generalizing c p with
  | zero =>
    change IsSent (publishCall k cb (c, p)).1 at hsent
    generalize publishCall k cb (c, p) = r at hcalled hsent
    cases hcalled with
    | failed hrc => exact absurd hsent (failed_of_error hrc).2
    | refused => exact absurd hsent (Again.not_sent (.inl rfl))
    | cut => exact absurd hsent (Again.not_sent (.inl rfl))
    | out hr hfeasible hall => exact ⟨hfeasible, c.writer.turn, le_rfl, fun u hu hu' => by omega, hall⟩
  | succ n ih =>
    have hfirst := hagain 0 (Nat.succ_pos n)
    change Again (publishCall k cb (c, p)).1 at hfirst
    have hagain' : ∀ m < n, Again (publishCall k cb (afterCalls k cb m (publishCall k cb (c, p)).2)).1 := by
      intro m hm
      have := hagain (m + 1) (by omega)
      rwa [afterCalls_succ] at this
    rw [afterCalls_succ] at hsent hwire
    generalize publishCall k cb (c, p) = r at hcalled hfirst hagain' hsent hwire
    cases hcalled with
    | failed hrc => exact absurd hfirst (failed_of_error hrc).1
    | out hr => exact absurd hr hfirst.not_sent
    | @refused c' p' hno hturn hwire' hback hready hsame =>
      obtain ⟨hb', hnet', htotal⟩ := hback.same
      obtain ⟨hpacket, hsizes⟩ := hback.packet hsame
      have h' : Publishable c' cb p' :=
        ⟨hback.sendable h.sendable, hready h.ready, fun hcb => (hsame hcb).2.trans (h.start hcb)⟩
      obtain ⟨hfeasible, t, ht, hrefused, hall⟩ := ih h' (hb'.trans hb) (hnet' ▸ hnet) hagain' hsent
        (by rw [hwire, hwire', hpacket]) (h'.sendable.called (hb'.trans hb) (hnet' ▸ hnet) k)
      rw [hturn] at ht hrefused
      rw [hnet'] at hrefused hall
      rw [hsizes] at hall
      refine ⟨(hback.feasible hsame).mp hfeasible, t, by omega, fun u hu hu' => ?_, hall⟩
      rcases Nat.eq_or_lt_of_le hu with rfl | hlt
      · exact hno
      · exact hrefused u hlt hu'
    | @cut c' p' hsome hcut hback hwire' hpos =>
      obtain ⟨hb', hnet', htotal⟩ := hback.same
      have hmore : c.writer.wire.length + 1 + (if cb.isSome then p'.bufferPos else 0) ≤ c'.writer.wire.length := by
        split
        · next hcb =>
          have := hpos hcb
          rw [h.start hcb] at this
          omega
        · omega
      have hlong := (hback.sendable h.sendable).never_whole k n (hb'.trans hb) (hnet' ▸ hnet) hmore hagain' hsent
      rw [hwire, List.length_append, hback.head, htotal] at hlong
      have := publishPacket_length_le c cb p
      omega

/-- Repeating `MqttClient_Publish` sends exactly the packet if it is feasible and, from a blocking client, the
transport takes the packet whole; and only then. -/
theorem publish_sends_whole_iff (h : Publishable c cb p) (hnet : Answers Code.continue c.netWrite)
    (hfair : Fair c.netWrite) (k : Nat) :
    SendsWhole k cb c p ↔ Feasible c cb p ∧ (c.nonblock = false → TakenWhole c cb p) := by
  have hannounces : Feasible c cb p → Announces (c.publishPacket cb p) := by
    refine fun hf => h.sendable.announces fun hcb => ?_
    obtain ⟨f, rfl⟩ := Option.isSome_iff_exists.mp hcb
    exact hf.2
  cases hb : c.nonblock with
  | true =>
    simp only [Bool.true_eq_false, false_implies, and_true]
    refine ⟨h.sendable.nonblock_feasible h.start hb hnet, fun hf => ?_⟩
    refine h.sendable.nonblock_sends h.ready hb hnet hfair k (fun hcb => ?_) fun hcb => ?_
    · subst hcb
      exact hf
    · obtain ⟨f, rfl⟩ := Option.isSome_iff_exists.mp hcb
      exact ⟨h.start rfl, by have := hf.1; omega, hf.2⟩
  | false =>
    simp only [true_implies]
    constructor
    · rintro ⟨n, hagain, hsent, hwire, -⟩
      exact h.block_whole k n hb hnet hagain hsent hwire
    · rintro ⟨hf, t, ht, hrefused, hall⟩
      obtain ⟨d, rfl⟩ := Nat.exists_eq_add_of_le ht
      obtain ⟨n, hagain, hsent, hwire⟩ := h.block_sends k d hb hnet hf hrefused hall
      exact ⟨n, hagain, hsent, hwire, hannounces hf⟩

end Sent

/-! ### Clients that publish one byte -/

/-- A client of protocol level 4 that has sent its CONNECT. -/
def plainClient (nonblock : Bool) (txBufLen : Nat) (netWrite : Nat → Int) : MqttClient :=
  {nonblock, connectSent := true, txBufLen, netWrite, reader := {rxBuf := [], net := {stream := [], script := []}}
   protocolLevel := 4, sendInflight := [{}], replay := [{}]}

/-- One byte under the topic `a/b`, at QoS 0. -/
def oneByte : MqttPublish :=
  {topicName := [0x61, 0x2f, 0x62], qos := .qos0, packetId := 0, retain := false, duplicate := false
   buffer := some [0x2a], totalLen := 1, bufferLen := 1, protocolLevel := 4, props := []}

theorem oneByte_publishable (nonblock : Bool) (txBufLen : Nat) (netWrite : Nat → Int) (h : 7 ≤ txBufLen) :
    (plainClient nonblock txBufLen netWrite).publishHead oneByte = [0x30, 6, 0, 3, 0x61, 0x2f, 0x62] ∧
      Publishable (plainClient nonblock txBufLen netWrite) none oneByte := by
  have hvariable : publishVariable ((plainClient nonblock txBufLen netWrite).request oneByte) =
      .ok [0, 3, 0x61, 0x2f, 0x62] := by
    show publishVariable {oneByte.toPublish with protocolLevel := 4} = _
    decide
  have hhead : (plainClient nonblock txBufLen netWrite).publishHead oneByte = [0x30, 6, 0, 3, 0x61, 0x2f, 0x62] := by
    have hroom : ¬txBufLen < maxLenBytes + 1 := by
      unfold maxLenBytes
      omega
    have htx : (plainClient nonblock txBufLen netWrite).txBufLen = txBufLen := rfl
    simp only [publishHead, hvariable, encodeFixedHeader, htx, hroom, if_false]
    decide
  refine ⟨hhead, ⟨rfl, rfl, rfl, rfl, rfl, ⟨_, hvariable, by decide⟩, ⟨?_, ?_⟩, .inl rfl, fun _ => .inl rfl,
    fun _ => .inr ⟨_, rfl, rfl⟩, fun f hf => by cases hf⟩, ⟨fun _ hq => absurd rfl hq, fun hq => absurd rfl hq⟩,
    fun h => by cases h⟩
  · show 5 ≤ txBufLen
    omega
  · rw [hhead]
    exact h

/-- A transport that takes a byte each time. -/
def taking : Nat → Int := fun _ => 1

/-- A transport that turns the second write away. -/
def stutter : Nat → Int := fun t => if t = 1 then Code.continue else 3

theorem taking_ok : Answers Code.continue taking ∧ Fair taking :=
  ⟨fun _ => .inl Int.one_pos, fun t => ⟨t, le_rfl, Int.one_pos⟩⟩

theorem stutter_ok : Answers Code.continue stutter ∧ Fair stutter := by
  refine ⟨fun t => ?_, fun t => ⟨t + 2, by omega, ?_⟩⟩
  · unfold stutter
    split
    · exact .inr rfl
    · exact .inl (by decide)
  · have hne : ¬t + 2 = 1 := by omega
    rw [stutter, if_neg hne]
    decide

theorem publish_sends_whole_iff_oneByte : SendsWhole 0 none (plainClient false 64 taking) oneByte :=
  (publish_sends_whole_iff (oneByte_publishable false 64 taking (by norm_num)).2 taking_ok.1 taking_ok.2 0).mpr
    ⟨.inr (by decide), fun _ => ⟨0, le_rfl, fun u _ hu => absurd hu (Nat.not_lt_zero u), by decide⟩⟩

/-- With room for the header and the topic and none for the payload the publish fails after its header. With a
refusal in the middle of the packet a blocking client sends the front of it twice. -/
theorem publish_not_always_sent :
    (Publishable (plainClient true 7 taking) none oneByte ∧ Answers Code.continue taking ∧ Fair taking ∧
        ¬SendsWhole 0 none (plainClient true 7 taking) oneByte) ∧
      Publishable (plainClient false 64 stutter) none oneByte ∧ Answers Code.continue stutter ∧ Fair stutter ∧
        ¬SendsWhole 0 none (plainClient false 64 stutter) oneByte := by
  have hexact := (oneByte_publishable true 7 taking le_rfl).2
  have hcut := (oneByte_publishable false 64 stutter (by norm_num)).2
  refine ⟨⟨hexact, taking_ok.1, taking_ok.2, fun hsends => ?_⟩, hcut, stutter_ok.1, stutter_ok.2, fun hsends => ?_⟩
  · have hno : ¬Feasible (plainClient true 7 taking) none oneByte := by
      rintro (h0 | hroom)
      · exact absurd h0 (by decide)
      · revert hroom
        decide
    exact hno (hexact.sendable.nonblock_feasible hexact.start rfl taking_ok.1 hsends)
  · obtain ⟨n, hagain, hsent, hwire, -⟩ := hsends
    obtain ⟨-, t, -, hrefused, hall⟩ := hcut.block_whole 0 n rfl stutter_ok.1 hagain hsent hwire
    have ht : t = 0 := by
      by_contra hne
      have := hrefused 0 le_rfl (Nat.pos_of_ne_zero hne)
      revert this
      decide
    subst ht
    revert hall
    decide

end MqttClient
end WolfMqtt
