import WolfMqtt.Client.ThreadSteps
import Mathlib.Data.List.Nodup

/-! The acknowledgements of several readers.

A packet that is to be answered is answered once, by an acknowledgement with its own Packet
Identifier and reason code, whichever threads read and write in between. The order of the PUBACKs
is another matter: between giving back `lockRecv` and taking `lockSend` another thread can read the
next PUBLISH and be first. -/
namespace WolfMqtt
namespace Threads

/-! ### What is owed -/

/-- The type of the acknowledgement for a packet. -/
def Incoming.answerType (p : Incoming) : PacketType :=
  match p.packetType with
  | .publish => if p.qos = .qos1 then .publishAck else .publishRec
  | .publishRec => .publishRel
  | _ => .publishComp

def Accepted.ack (e : Accepted) : Ack :=
  {packetType := e.packet.answerType, packetId := e.packet.packetId, reasonCode := e.reasonCode}

/-- The acknowledgement a call has still to send, with the place of the packet it answers. -/
def Place.pending : Place → Option (Nat × Ack)
  | .handled h _ ack | .completed h _ ack => ack.map (fun a => (h.index, a))
  | .staged h _ ack | .acking h _ ack => some (h.index, ack)
  | _ => none

/-- The packet a call has read and not yet handled. -/
def Place.inHand : Place → Option Hold
  | .received h | .looked h | .located h _ => some h
  | _ => none

/-- The places between `MqttReadStart` and `MqttReadStop`. -/
def Place.hasRecv : Place → Bool
  | .reading _ | .received _ | .looked _ | .located _ _ | .rejecting _ | .rejected _ | .handled _ _ _ | .completed _ _ _ => true
  | _ => false

/-- A place in no part of the reading. -/
structure Place.Plain (p : Place) : Prop where
  pending : p.pending = none
  inHand : p.inHand = none
  hasRecv : p.hasRecv = false

def Ack.isPubAck (a : Ack) : Prop := a.packetType = .publishAck

def Incoming.wantsPubAck (p : Incoming) : Prop := p.packetType = .publish ∧ p.qos = .qos1

namespace Sys

/-- Every packet that is to be answered has its acknowledgement on the wire or at a call that is to
send it, no acknowledgement answers anything else or anything twice, and the PUBACKs went out as
their PUBLISHes were read. -/
structure Answered (s : Sys) : Prop where
  matching : ∀ x ∈ s.acked, ∃ e ∈ s.accepted, x = (e.index, e.ack)
  once : (s.acked.map Prod.fst).Nodup
  kept : ∀ e ∈ s.accepted, e.index ∈ s.acked.map Prod.fst ∨ ∃ k, (s.place k).pending = some (e.index, e.ack)
  packets : ∀ e ∈ s.accepted, s.reads[e.index]? = some e.packet
  distinct : (s.accepted.map Accepted.index).Nodup
  inOrder : ((s.acked.filter (fun x => x.2.packetType = .publishAck)).map Prod.fst).Pairwise (· < ·)

/-- The steps that keep the acknowledgements in order: no PUBLISH of QoS 1 is read while another
object has a PUBACK to send; a wait starts on an object that an earlier one has left neither in the
middle of a packet nor with an acknowledgement the encoder refused; the message callback leaves a
reason code that a PUBACK or a PUBREC can have; and no packet is answered while `MqttClient_Connect`
waits for an AUTH. -/
def AcksInTurn (s : Sys) (ka : Nat × Act) : Prop :=
  match ka.2 with
  | .read p => p.wantsPubAck → ∀ j x, (s.place j).pending = some x → ¬x.2.isPubAck
  | .resume => (s.task ka.1).read = .ack ∧ (s.task ka.1).ack = .begin
  | .next cb =>
    (s.protocolLevel ≥ level5 → ∀ reasonCode ∈ cb, publishRespReasonCodeValid .publishAck reasonCode) ∧
      ((∃ h f ack, s.place ka.1 = .completed h f (some ack)) → s.autoAuth = false)
  | _ => True

/-! ### The invariant -/

structure Acks (s : Sys) : Prop extends Answered s where
  room : maxLenBytes < s.txBufLen
  recv : ∀ k, (s.place k).hasRecv → s.lockRecv = some k
  hand : ∀ k h, (s.place k).inHand = some h →
    h.stale = false ∧ h.packet.decodable s.protocolLevel ∧ h.index + 1 = s.reads.length ∧
      s.reads[h.index]? = some h.packet ∧ ∀ e ∈ s.accepted, e.index < h.index
  below : ∀ e ∈ s.accepted, e.index < s.reads.length
  owed : ∀ k x, (s.place k).pending = some x →
    (∃ e ∈ s.accepted, x = (e.index, e.ack)) ∧ x.1 ∉ s.acked.map Prod.fst ∧ s.encodes x.2
  single : ∀ k k' x x', (s.place k).pending = some x → (s.place k').pending = some x' → x.1 = x'.1 → k = k'
  later : ∀ k x, (s.place k).pending = some x → x.2.isPubAck → ∀ y ∈ s.acked, y.2.isPubAck → y.1 < x.1
  alone : ∀ k k' x x', (s.place k).pending = some x → (s.place k').pending = some x' →
    x.2.isPubAck → x'.2.isPubAck → k = k'
  clear : ∀ k h, (s.place k).inHand = some h → h.packet.wantsPubAck →
    ∀ k' x, (s.place k').pending = some x → ¬x.2.isPubAck

/-- What the record of reading and answering does not see. -/
structure Same (s s' : Sys) : Prop where
  level : s'.protocolLevel = s.protocolLevel
  buf : s'.txBufLen = s.txBufLen
  reads : s'.reads = s.reads
  accepted : s'.accepted = s.accepted
  acked : s'.acked = s.acked

theorem Same.encodes {s s' : Sys} (h : Same s s') (a : Ack) : s'.encodes a = s.encodes a := by
  simp only [Sys.encodes, h.level, h.buf]

variable {s s' : Sys} {k : Nat}

/-- A step that keeps what is owed and what is in hand. -/
theorem Acks.quiet (h : Acks s) (hsame : Same s s') (hother : ∀ j, j ≠ k → s'.place j = s.place j)
    (hpend : (s'.place k).pending = (s.place k).pending)
    (hhand : (s'.place k).inHand = none ∨ (s'.place k).inHand = (s.place k).inHand)
    (hrecv : ∀ j, (s'.place j).hasRecv → s'.lockRecv = some j) : Acks s' := by
  have hpending : ∀ j, (s'.place j).pending = (s.place j).pending := by
    intro j
    by_cases hj : j = k
    · rw [hj, hpend]
    · rw [hother j hj]
  have hin : ∀ {j g}, (s'.place j).inHand = some g → (s.place j).inHand = some g := by
    intro j g hg
    by_cases hj : j = k
    · subst hj
      rcases hhand with hnone | heq
      · rw [hnone] at hg
        cases hg
      · rwa [← heq]
    · rwa [← hother j hj]
  refine ⟨⟨?_, ?_, ?_, ?_, ?_, ?_⟩, ?_, hrecv, ?_, ?_, ?_, ?_, ?_, ?_, ?_⟩
  · rw [hsame.acked, hsame.accepted]
    exact h.matching
  · rw [hsame.acked]
    exact h.once
  · simp only [hsame.acked, hsame.accepted, hpending]
    exact h.kept
  · rw [hsame.accepted, hsame.reads]
    exact h.packets
  · rw [hsame.accepted]
    exact h.distinct
  · rw [hsame.acked]
    exact h.inOrder
  · rw [hsame.buf]
    exact h.room
  · intro j g hg
    rw [hsame.reads, hsame.accepted, hsame.level]
    exact h.hand j g (hin hg)
  · rw [hsame.accepted, hsame.reads]
    exact h.below
  · intro j x hx
    rw [hsame.accepted, hsame.acked, hsame.encodes]
    exact h.owed j x (hpending j ▸ hx)
  · intro j j' x x' hx hx'
    exact h.single j j' x x' (hpending j ▸ hx) (hpending j' ▸ hx')
  · intro j x hx
    rw [hsame.acked]
    exact h.later j x (hpending j ▸ hx)
  · intro j j' x x' hx hx'
    exact h.alone j j' x x' (hpending j ▸ hx) (hpending j' ▸ hx')
  · intro j g hg hwants j' x hx
    exact h.clear j g (hin hg) hwants j' x (hpending j' ▸ hx)

/-! ### The encoder -/

/-- A transmit buffer that holds a fixed header holds a packet of two or three bytes. -/
theorem encodePacket_small {txLen : Nat} {type : PacketType} {qos : QoS} {body : Bytes} (hroom : maxLenBytes < txLen)
    (hlen : body.length = 2 ∨ body.length = 3) : (encodePacket txLen type qos body).rc ≥ 0 := by
  have hmax : maxLenBytes = 4 := rfl
  have hheader : ∀ n : Nat, n = 2 ∨ n = 3 →
      ∃ first, encodeFixedHeader txLen n type false qos false = .done [first, UInt8.ofNat n] := by
    intro n hn
    unfold encodeFixedHeader
    rw [if_neg (by omega)]
    rcases hn with rfl | rfl
    · have hvbi : encodeVbi (((2 : Nat) : Int) % 4294967296).toNat = .ok [2] := by decide
      rw [hvbi]
      exact ⟨_, rfl⟩
    · have hvbi : encodeVbi (((3 : Nat) : Int) % 4294967296).toNat = .ok [3] := by decide
      rw [hvbi]
      exact ⟨_, rfl⟩
  obtain ⟨first, hfirst⟩ := hheader body.length hlen
  simp only [encodePacket, hfirst, Encoded.done, List.length_cons, List.length_nil]
  rw [if_neg (by decide), if_neg (by omega)]
  exact Int.natCast_nonneg _

/-- An acknowledgement with a Packet Identifier and a reason code of its table can be encoded. -/
theorem encodes_of_valid {a : Ack} (hroom : maxLenBytes < s.txBufLen) (hid : a.packetId ≠ 0)
    (hvalid : s.protocolLevel ≥ level5 → publishRespReasonCodeValid a.packetType a.reasonCode) : s.encodes a := by
  refine decide_eq_true ?_
  unfold encodePublishResp
  rw [if_neg hid]
  dsimp only
  split
  case isTrue hlevel =>
    rw [hvalid hlevel, if_neg (by decide), List.isEmpty_nil, if_pos rfl]
    refine encodePacket_small hroom ?_
    split
    · exact .inr rfl
    · exact .inl rfl
  case isFalse => exact encodePacket_small hroom (.inl rfl)

/-! ### What each section moves -/

/-- Only the call on `k` moves, and the record of reading and answering stays. -/
structure Moved (s s' : Sys) (k : Nat) : Prop where
  same : Same s s'
  other : ∀ j, j ≠ k → s'.place j = s.place j

/-- The lock of the readers stays where it is, and the call gets to a place in no part of the reading. -/
structure Elsewhere (s s' : Sys) (k : Nat) : Prop extends Moved s s' k where
  lockRecv : s'.lockRecv = s.lockRecv
  plain : (s'.place k).Plain

theorem Elsewhere.acks (h : Acks s) (hm : Elsewhere s s' k) (hplain : (s.place k).Plain) : Acks s' := by
  refine h.quiet hm.same hm.other ?_ (.inl hm.plain.inHand) ?_
  · rw [hm.plain.pending, hplain.pending]
  · intro j hj
    by_cases hjk : j = k
    · rw [hjk, hm.plain.hasRecv] at hj
      cases hj
    · rw [hm.lockRecv]
      exact h.recv j (hm.other j hjk ▸ hj)

theorem Same.refl (s : Sys) : Same s s := ⟨rfl, rfl, rfl, rfl, rfl⟩

theorem elsewhere_go {s₁ : Sys} {p : Place} (hsame : Same s s₁) (htask : s₁.task = s.task)
    (hlock : s₁.lockRecv = s.lockRecv) (hp : p.Plain) : Elsewhere s (s₁.go k p) k where
  same := ⟨hsame.level, hsame.buf, hsame.reads, hsame.accepted, hsame.acked⟩
  other j hj := by rw [place_go, if_neg hj, place, place, htask]
  lockRecv := hlock
  plain := by rw [place_go, if_pos rfl]; exact hp

theorem reserve_elsewhere (s : Sys) (k : Nat) (r : Request) : Elsewhere s (s.reserve k r) k := by
  unfold reserve
  dsimp only
  split
  · exact elsewhere_go ⟨rfl, rfl, rfl, rfl, rfl⟩ rfl rfl ⟨rfl, rfl, rfl⟩
  · exact elsewhere_go ⟨rfl, rfl, rfl, rfl, rfl⟩ rfl rfl ⟨rfl, rfl, rfl⟩

theorem list_elsewhere (s : Sys) (k : Nat) (r : Request) : Elsewhere s (s.list k r) k := by
  unfold list
  split
  · exact elsewhere_go ⟨rfl, rfl, rfl, rfl, rfl⟩ rfl rfl ⟨rfl, rfl, rfl⟩
  · exact elsewhere_go ⟨rfl, rfl, rfl, rfl, rfl⟩ rfl rfl ⟨rfl, rfl, rfl⟩

theorem write_elsewhere (s : Sys) (k : Nat) (r : Request) : Elsewhere s (s.write k r) k :=
  elsewhere_go ⟨rfl, rfl, rfl, rfl, rfl⟩ rfl rfl ⟨rfl, rfl, rfl⟩

theorem giveUp_elsewhere (s : Sys) (k : Nat) (r : Request) :
    Elsewhere s ((if r.packetId = 0 then s else s.releaseOwner k).go k .leaving) k := by
  split
  · exact elsewhere_go (.refl s) rfl rfl ⟨rfl, rfl, rfl⟩
  · exact elsewhere_go ⟨rfl, rfl, rfl, rfl, rfl⟩ rfl rfl ⟨rfl, rfl, rfl⟩

theorem cancel_elsewhere (s : Sys) (k : Nat) (onWire : Bool) : Elsewhere s (s.cancel k onWire) k where
  same := ⟨rfl, rfl, rfl, rfl, rfl⟩
  other j hj := by rw [cancel, place_set, if_neg hj]; rfl
  lockRecv := rfl
  plain := by rw [cancel, place_set, if_pos rfl]; exact ⟨rfl, rfl, rfl⟩

/-- A call keeps `lockRecv`, what it owes and what it has in hand. -/
theorem Acks.keeps (h : Acks s) (hm : Moved s s' k) (hlock : s'.lockRecv = s.lockRecv)
    (hpend : (s'.place k).pending = (s.place k).pending)
    (hhand : (s'.place k).inHand = none ∨ (s'.place k).inHand = (s.place k).inHand)
    (hrecv : (s'.place k).hasRecv → (s.place k).hasRecv) : Acks s' := by
  refine h.quiet hm.same hm.other hpend hhand fun j hj => ?_
  rw [hlock]
  by_cases hjk : j = k
  · subst hjk
    exact h.recv j (hrecv hj)
  · exact h.recv j (hm.other j hjk ▸ hj)

/-- A call gives `lockRecv` back and keeps what it owes. -/
theorem Acks.unlocks (h : Acks s) (hm : Moved s s' k) (hlock : s'.lockRecv = (s.unlockRecv k).lockRecv)
    (hpend : (s'.place k).pending = (s.place k).pending) (hhand : (s'.place k).inHand = none)
    (hrecv : (s'.place k).hasRecv = false) : Acks s' := by
  refine h.quiet hm.same hm.other hpend (.inl hhand) fun j hj => ?_
  by_cases hjk : j = k
  · rw [hjk, hrecv] at hj
    cases hj
  · have hheld := h.recv j (hm.other j hjk ▸ hj)
    rw [hlock, unlockRecv, if_neg (by rw [hheld]; exact fun heq => hjk (Option.some.inj heq))]
    exact hheld

theorem moved_go {s₁ : Sys} (p : Place) (hsame : Same s s₁) (htask : s₁.task = s.task) : Moved s (s₁.go k p) k where
  same := ⟨hsame.level, hsame.buf, hsame.reads, hsame.accepted, hsame.acked⟩
  other j hj := by rw [place_go, if_neg hj, place, place, htask]

theorem release_same (s : Sys) (h : Hold) (ackType : Option PacketType) : Same s (s.release h ackType) :=
  ⟨rfl, rfl, rfl, rfl, rfl⟩

theorem decode_same (s : Sys) (h : Hold) : Same s (s.decode h) := by
  unfold decode
  split
  · exact release_same s h _
  · exact .refl s

theorem decode_task (s : Sys) (h : Hold) : (s.decode h).task = s.task ∧ (s.decode h).lockRecv = s.lockRecv := by
  unfold decode
  split
  · exact ⟨rfl, rfl⟩
  · exact ⟨rfl, rfl⟩

/-- A wait that goes out with an error owes nothing. -/
theorem Acks.abandoned {s₁ : Sys} (h : Acks s) (hsame : Same s s₁) (htask : s₁.task = s.task)
    (hlock : s₁.lockRecv = s.lockRecv) (r : MsgState) (hpend : (s.place k).pending = none) :
    Acks (s₁.abandon k r) := by
  refine h.unlocks (k := k) ⟨⟨hsame.level, hsame.buf, hsame.reads, hsame.accepted, hsame.acked⟩, fun j hj => ?_⟩ ?_ ?_ ?_ ?_
  · rw [place_abandon, if_neg hj, place, place, htask]
  · show (if s₁.lockRecv = some k then none else s₁.lockRecv) = _
    rw [hlock]
    rfl
  · rw [place_abandon, if_pos rfl, hpend]
    rfl
  · rw [place_abandon, if_pos rfl]
    rfl
  · rw [place_abandon, if_pos rfl]
    rfl

/-! ### Reading -/

theorem Acks.lock {w : Wait} (h : Acks s) (hplace : s.place k = .waiting w) (hfree : s.lockRecv = none) :
    Acks (Sys.go {s with lockRecv := some k} k (.reading w)) := by
  refine h.quiet (k := k) ⟨rfl, rfl, rfl, rfl, rfl⟩ (fun j hj => ?_) ?_ (.inl ?_) fun j hj => ?_
  · rw [place_go, if_neg hj]
    rfl
  · rw [place_go, if_pos rfl, hplace]
    rfl
  · rw [place_go, if_pos rfl]
    rfl
  · by_cases hjk : j = k
    · rw [hjk]
      rfl
    · rw [place_go, if_neg hjk] at hj
      have hheld := h.recv j hj
      rw [hfree] at hheld
      cases hheld

/-- A thread that holds `lockRecv` is the only one. -/
theorem Acks.only_reader (h : Acks s) (hk : (s.place k).hasRecv) {j : Nat} (hj : (s.place j).hasRecv) : j = k := by
  have hheld := h.recv j hj
  rw [h.recv k hk] at hheld
  exact (Option.some.inj hheld).symm

theorem hasRecv_of_inHand {p : Place} {h : Hold} (hp : p.inHand = some h) : p.hasRecv := by
  cases p <;> first | rfl | cases hp

theorem Acks.read {w : Wait} {p : Incoming} (h : Acks s) (hplace : s.place k = .reading w)
    (hdec : p.decodable s.protocolLevel)
    (hturn : p.wantsPubAck → ∀ j x, (s.place j).pending = some x → ¬x.2.isPubAck) :
    Acks (Sys.go {s with rxBuf := some p, reads := s.reads ++ [p]} k
      (.received {wait := w, packet := p, index := s.reads.length})) := by
  obtain ⟨s', hs'⟩ : ∃ s', s' = Sys.go {s with rxBuf := some p, reads := s.reads ++ [p]} k
      (.received {wait := w, packet := p, index := s.reads.length}) := ⟨_, rfl⟩
  rw [← hs']
  have hreads : s'.reads = s.reads ++ [p] := by rw [hs']; rfl
  have hother : ∀ j, j ≠ k → s'.place j = s.place j := by
    intro j hj
    rw [hs', place_go, if_neg hj]
    rfl
  have hself : s'.place k = .received {wait := w, packet := p, index := s.reads.length} := by
    rw [hs', place_go, if_pos rfl]
  have hreader : (s.place k).hasRecv := by rw [hplace]; rfl
  have hpending : ∀ j, (s'.place j).pending = (s.place j).pending := by
    intro j
    by_cases hj : j = k
    · rw [hj, hself, hplace]
      rfl
    · rw [hother j hj]
  -- no other call has a packet in hand: it would hold `lockRecv`
  have hin : ∀ {j g}, (s'.place j).inHand = some g → j = k ∧ g = {wait := w, packet := p, index := s.reads.length} := by
    intro j g hg
    by_cases hj : j = k
    · rw [hj, hself] at hg
      exact ⟨hj, (Option.some.inj hg).symm⟩
    · rw [hother j hj] at hg
      exact absurd (h.only_reader hreader (hasRecv_of_inHand hg)) hj
  have hlock : s'.lockRecv = s.lockRecv := by rw [hs']; rfl
  have haccepted : s'.accepted = s.accepted := by rw [hs']; rfl
  have hacked : s'.acked = s.acked := by rw [hs']; rfl
  have hencodes : ∀ a, s'.encodes a = s.encodes a := by intro a; rw [hs']; rfl
  refine ⟨⟨?_, ?_, ?_, ?_, ?_, ?_⟩, ?_, ?_, ?_, ?_, ?_, ?_, ?_, ?_, ?_⟩
  · rw [hacked, haccepted]
    exact h.matching
  · rw [hacked]
    exact h.once
  · simp only [hacked, haccepted, hpending]
    exact h.kept
  · intro e he
    rw [haccepted] at he
    rw [hreads, List.getElem?_append_left (h.below e he)]
    exact h.packets e he
  · rw [haccepted]
    exact h.distinct
  · rw [hacked]
    exact h.inOrder
  · rw [hs']
    exact h.room
  · intro j hj
    rw [hlock]
    by_cases hjk : j = k
    · exact hjk ▸ h.recv k hreader
    · exact h.recv j (hother j hjk ▸ hj)
  · intro j g hg
    obtain ⟨rfl, rfl⟩ := hin hg
    refine ⟨rfl, ?_, ?_, ?_, ?_⟩
    · rw [hs']
      exact hdec
    · rw [hreads, List.length_append]
      rfl
    · rw [hreads]
      exact List.getElem?_concat_length
    · rw [haccepted]
      exact h.below
  · intro e he
    rw [hreads, List.length_append]
    rw [haccepted] at he
    exact Nat.lt_add_right 1 (h.below e he)
  · intro j x hx
    rw [haccepted, hacked, hencodes]
    exact h.owed j x (hpending j ▸ hx)
  · intro j j' x x' hx hx'
    exact h.single j j' x x' (hpending j ▸ hx) (hpending j' ▸ hx')
  · intro j x hx
    rw [hacked]
    exact h.later j x (hpending j ▸ hx)
  · intro j j' x x' hx hx'
    exact h.alone j j' x x' (hpending j ▸ hx) (hpending j' ▸ hx')
  · intro j g hg hwants j' x hx
    obtain ⟨rfl, rfl⟩ := hin hg
    exact hturn hwants j' x (hpending j' ▸ hx)

/-! ### Handling -/

/-- A packet is to be answered: the call owes its acknowledgement. -/
theorem Acks.accepts {g : Hold} {f : Found} {type : PacketType} {reasonCode : UInt8} (h : Acks s) (s₁ : Sys)
    (hsame : Same s s₁) (htask : s₁.task = s.task) (hlock : s₁.lockRecv = s.lockRecv)
    (hplace : s.place k = .located g f) (htype : type = g.packet.answerType) (hid : g.packet.packetId ≠ 0)
    (hvalid : s.protocolLevel ≥ level5 → publishRespReasonCodeValid type reasonCode)
    (hpub : type = .publishAck → g.packet.wantsPubAck) : Acks (s₁.accept k g f type reasonCode) := by
  obtain ⟨e, he⟩ : ∃ e : Accepted, e = {index := g.index, packet := g.packet, reasonCode} := ⟨_, rfl⟩
  have hindex : e.index = g.index := by rw [he]
  have hpacket : e.packet = g.packet := by rw [he]
  have hack : e.ack = {packetType := type, packetId := g.packet.packetId, reasonCode} := by rw [he, htype]; rfl
  obtain ⟨s', hs'⟩ : ∃ s', s' = s₁.accept k g f type reasonCode := ⟨_, rfl⟩
  rw [← hs']
  have hother : ∀ j, j ≠ k → s'.place j = s.place j := by
    intro j hj
    rw [hs', accept, place_go, if_neg hj, place, place]
    exact congrArg (fun t : Nat → Task => (t j).place) htask
  have hself : s'.place k = .handled g f (some e.ack) := by rw [hs', accept, place_go, if_pos rfl, hack]
  have hpendk : (s'.place k).pending = some (e.index, e.ack) := by rw [hself, hindex]; rfl
  have haccepted : s'.accepted = s.accepted ++ [e] := by
    rw [hs', he, ← hsame.accepted]
    rfl
  have hacked : s'.acked = s.acked := by rw [hs', ← hsame.acked]; rfl
  have hreads : s'.reads = s.reads := by rw [hs', ← hsame.reads]; rfl
  have hlevel : s'.protocolLevel = s.protocolLevel := by rw [hs', ← hsame.level]; rfl
  have hbuf : s'.txBufLen = s.txBufLen := by rw [hs', ← hsame.buf]; rfl
  have hencodes : ∀ a, s'.encodes a = s.encodes a := by intro a; simp only [Sys.encodes, hlevel, hbuf]
  have hlock' : s'.lockRecv = s.lockRecv := by rw [hs', ← hlock]; rfl
  have hhand : (s.place k).inHand = some g := by rw [hplace]; rfl
  have hreader : (s.place k).hasRecv := hasRecv_of_inHand hhand
  obtain ⟨-, -, hlast, hread, hnew⟩ := h.hand k g hhand
  have hnone : (s.place k).pending = none := by rw [hplace]; rfl
  -- every other call owes what it owed, all of it from before
  have hpend : ∀ {j x}, (s'.place j).pending = some x →
      (j = k ∧ x = (e.index, e.ack)) ∨ (j ≠ k ∧ (s.place j).pending = some x ∧ x.1 < e.index) := by
    intro j x hx
    by_cases hj : j = k
    · rw [hj, hpendk] at hx
      exact .inl ⟨hj, (Option.some.inj hx).symm⟩
    · rw [hother j hj] at hx
      obtain ⟨e', he', rfl⟩ := (h.owed j x hx).1
      exact .inr ⟨hj, hx, hindex ▸ hnew e' he'⟩
  have hfresh : e.index ∉ s.acked.map Prod.fst := by
    intro hmem
    obtain ⟨x, hx, hxe⟩ := List.mem_map.mp hmem
    obtain ⟨e', he', rfl⟩ := h.matching x hx
    have := hnew e' he'
    dsimp only at hxe
    omega
  have hclear : e.ack.isPubAck → ∀ j x, (s.place j).pending = some x → ¬x.2.isPubAck := by
    intro hp j x hx
    refine h.clear k g hhand (hpub ?_) j x hx
    rw [hack] at hp
    exact hp
  refine ⟨⟨?_, ?_, ?_, ?_, ?_, ?_⟩, ?_, ?_, ?_, ?_, ?_, ?_, ?_, ?_, ?_⟩
  · intro x hx
    rw [hacked] at hx
    obtain ⟨e', he', rfl⟩ := h.matching x hx
    exact ⟨e', haccepted ▸ List.mem_append_left _ he', rfl⟩
  · rw [hacked]
    exact h.once
  · intro e' he'
    rw [haccepted] at he'
    rw [hacked]
    rcases List.mem_append.mp he' with hold | hnew'
    · rcases h.kept e' hold with hsent | ⟨j, hj⟩
      · exact .inl hsent
      · have hjk : j ≠ k := by
          rintro rfl
          rw [hnone] at hj
          cases hj
        exact .inr ⟨j, by rw [hother j hjk]; exact hj⟩
    · rw [List.mem_singleton.mp hnew']
      exact .inr ⟨k, hpendk⟩
  · intro e' he'
    rw [haccepted] at he'
    rw [hreads]
    rcases List.mem_append.mp he' with hold | hnew'
    · exact h.packets e' hold
    · rw [List.mem_singleton.mp hnew', hindex, hpacket]
      exact hread
  · rw [haccepted, List.map_append, List.nodup_append]
    refine ⟨h.distinct, List.nodup_singleton _, ?_⟩
    intro i hi j hj hij
    obtain ⟨e', he', rfl⟩ := List.mem_map.mp hi
    have := hnew e' he'
    rw [List.map_cons, List.map_nil, List.mem_singleton] at hj
    omega
  · rw [hacked]
    exact h.inOrder
  · rw [hbuf]
    exact h.room
  · intro j hj
    rw [hlock']
    by_cases hjk : j = k
    · exact hjk ▸ h.recv k hreader
    · exact h.recv j (hother j hjk ▸ hj)
  · intro j g' hg'
    by_cases hjk : j = k
    · rw [hjk, hself] at hg'
      cases hg'
    · rw [hother j hjk] at hg'
      exact absurd (h.only_reader hreader (hasRecv_of_inHand hg')) hjk
  · intro e' he'
    rw [haccepted] at he'
    rw [hreads]
    rcases List.mem_append.mp he' with hold | hnew'
    · exact h.below e' hold
    · rw [List.mem_singleton.mp hnew', hindex]
      omega
  · intro j x hx
    rw [haccepted, hacked, hencodes]
    rcases hpend hx with ⟨-, rfl⟩ | ⟨-, hx', -⟩
    · refine ⟨⟨e, List.mem_append_right _ (List.mem_singleton_self e), rfl⟩, hfresh, ?_⟩
      exact encodes_of_valid h.room (by rw [hack]; exact hid) (by rw [hack]; exact hvalid)
    · obtain ⟨⟨e', he', heq⟩, hrest⟩ := h.owed j x hx'
      exact ⟨⟨e', List.mem_append_left _ he', heq⟩, hrest⟩
  · intro j j' x x' hx hx' heq
    rcases hpend hx with ⟨rfl, rfl⟩ | ⟨hj, hx, hlt⟩
    · rcases hpend hx' with ⟨rfl, -⟩ | ⟨-, -, hlt'⟩
      · rfl
      · dsimp only at heq
        omega
    · rcases hpend hx' with ⟨rfl, rfl⟩ | ⟨-, hx', -⟩
      · dsimp only at heq
        omega
      · exact h.single j j' x x' hx hx' heq
  · intro j x hx hp y hy hyp
    rw [hacked] at hy
    rcases hpend hx with ⟨-, rfl⟩ | ⟨-, hx, -⟩
    · obtain ⟨e', he', rfl⟩ := h.matching y hy
      exact hindex ▸ hnew e' he'
    · exact h.later j x hx hp y hy hyp
  · intro j j' x x' hx hx' hp hp'
    rcases hpend hx with ⟨rfl, rfl⟩ | ⟨-, hx, -⟩
    · rcases hpend hx' with ⟨rfl, -⟩ | ⟨-, hx', -⟩
      · rfl
      · exact absurd hp' (hclear hp j' x' hx')
    · rcases hpend hx' with ⟨rfl, rfl⟩ | ⟨-, hx', -⟩
      · exact absurd hp (hclear hp' j x hx)
      · exact h.alone j j' x x' hx hx' hp hp'
  · intro j g' hg'
    by_cases hjk : j = k
    · rw [hjk, hself] at hg'
      cases hg'
    · rw [hother j hjk] at hg'
      exact absurd (h.only_reader hreader (hasRecv_of_inHand hg')) hjk

/-- What a packet is answered with: the reason code of its callback, or one of the client's own. -/
theorem deliver_valid {p : Incoming} {cb : Option UInt8} {reasonCode : UInt8}
    (hcb : ∀ r ∈ cb, publishRespReasonCodeValid .publishAck r) (hdone : s.deliver p cb = .done reasonCode) :
    publishRespReasonCodeValid .publishAck reasonCode := by
  unfold deliver at hdone
  dsimp only at hdone
  split at hdone
  · cases hdone
    decide
  · split at hdone
    · split at hdone
      · cases hdone
        decide
      · cases hdone
    · cases cb with
      | none => cases hdone
      | some r =>
        cases hdone
        exact hcb _ rfl

theorem Acks.handlePublish {s₁ : Sys} {g : Hold} {f : Found} {cb : Option UInt8} (h : Acks s) (hsame : Same s s₁)
    (htask : s₁.task = s.task) (hlock : s₁.lockRecv = s.lockRecv) (hplace : s.place k = .located g f)
    (hcb : s.protocolLevel ≥ level5 → ∀ r ∈ cb, publishRespReasonCodeValid .publishAck r)
    (htype : g.packet.packetType = .publish) : Acks (s₁.handlePublish k g f cb) := by
  have hhand : (s.place k).inHand = some g := by rw [hplace]; rfl
  have hdec := (h.hand k g hhand).2.1
  have hid : g.packet.qos ≠ .qos0 → g.packet.packetId ≠ 0 := by
    intro hq
    unfold Incoming.decodable at hdec
    rw [htype] at hdec
    dsimp only at hdec
    rw [if_neg hq] at hdec
    exact of_decide_eq_true hdec
  unfold Sys.handlePublish
  split
  case h_1 => exact h.abandoned hsame htask hlock _ (by rw [hplace]; rfl)
  case h_2 reasonCode hdone =>
    have hvalid : s.protocolLevel ≥ level5 → publishRespReasonCodeValid .publishAck reasonCode :=
      fun hlevel => deliver_valid (hcb hlevel) hdone
    split
    case h_1 hq =>
      refine h.keeps (k := k) (moved_go _ hsame htask) hlock ?_ (.inl ?_) fun _ => by rw [hplace]; rfl
      · rw [place_go, if_pos rfl, hplace]
        rfl
      · rw [place_go, if_pos rfl]
        rfl
    case h_2 hq =>
      refine h.accepts _ hsame htask hlock hplace ?_ (hid (by rw [hq]; decide)) hvalid fun _ => ⟨htype, hq⟩
      rw [Incoming.answerType, htype]
      exact (if_pos hq).symm
    case h_3 hq =>
      refine h.accepts {s₁ with recvQos2 := _} ⟨hsame.level, hsame.buf, hsame.reads, hsame.accepted, hsame.acked⟩
        htask hlock hplace ?_ (hid (by rw [hq]; decide)) hvalid fun hack => by cases hack
      rw [Incoming.answerType, htype]
      exact (if_neg (by rw [hq]; decide)).symm

theorem Acks.handle {g : Hold} {f : Found} {cb : Option UInt8} (h : Acks s) (hplace : s.place k = .located g f)
    (hcb : s.protocolLevel ≥ level5 → ∀ r ∈ cb, publishRespReasonCodeValid .publishAck r) :
    Acks (s.handle k g f cb) := by
  have hhand : (s.place k).inHand = some g := by rw [hplace]; rfl
  obtain ⟨hstale, hdec, -⟩ := h.hand k g hhand
  have hsame := decode_same s g
  obtain ⟨htask, hlock⟩ := decode_task s g
  have hgo : ∀ (s₁ : Sys) {p : Place}, Same s s₁ → s₁.task = s.task → s₁.lockRecv = s.lockRecv → p.pending = none →
      p.inHand = none → Acks (s₁.go k p) := by
    intro s₁ p hsame₁ htask₁ hlock₁ hpend hin
    refine h.keeps (k := k) (moved_go _ hsame₁ htask₁) hlock₁ ?_ (.inl ?_) fun _ => by rw [hplace]; rfl
    · rw [place_go, if_pos rfl, hpend, hplace]
      rfl
    · rw [place_go, if_pos rfl, hin]
  unfold Sys.handle
  dsimp only
  rw [hstale, if_neg (by decide)]
  split
  case h_1 htype => exact h.handlePublish hsame htask hlock hplace hcb htype
  case h_2 htype =>
    have hid : g.packet.packetId ≠ 0 := by
      unfold Incoming.decodable at hdec
      rw [htype] at hdec
      simp only [Bool.and_eq_true, decide_eq_true_eq] at hdec
      exact hdec.1
    split
    · exact hgo _ hsame htask hlock rfl rfl
    · refine h.accepts _ hsame htask hlock hplace ?_ hid ?_ fun hack => by cases hack
      · rw [Incoming.answerType, htype]
      · intro _
        split <;> decide
  case h_3 htype =>
    have hid : g.packet.packetId ≠ 0 := by
      unfold Incoming.decodable at hdec
      rw [htype] at hdec
      simp only [Bool.and_eq_true, decide_eq_true_eq] at hdec
      exact hdec.1
    refine h.accepts {s.decode g with recvQos2 := _}
      ⟨hsame.level, hsame.buf, hsame.reads, hsame.accepted, hsame.acked⟩ htask hlock hplace ?_ hid ?_ fun hack => by cases hack
    · rw [Incoming.answerType, htype]
    · exact fun _ => by decide
  case h_4 =>
    exact hgo {s.decode g with rxBuf := none}
      ⟨hsame.level, hsame.buf, hsame.reads, hsame.accepted, hsame.acked⟩ htask hlock rfl rfl
  case h_5 => exact hgo _ hsame htask hlock rfl rfl

/-! ### Acknowledging -/

theorem Acks.sendAck {g : Hold} {m : Bool} {ack : Ack} (h : Acks s) (hplace : s.place k = .acking g m ack) :
    Acks (s.sendAck k g m ack) := by
  have hpendk : (s.place k).pending = some (g.index, ack) := by rw [hplace]; rfl
  obtain ⟨⟨e, he, heq⟩, hfresh, henc⟩ := h.owed k _ hpendk
  have hindex : g.index = e.index := congrArg Prod.fst heq
  have hack : ack = e.ack := congrArg Prod.snd heq
  obtain ⟨s', hs'⟩ : ∃ s', s' = s.sendAck k g m ack := ⟨_, rfl⟩
  rw [← hs']
  rw [Sys.sendAck, if_pos henc] at hs'
  have hother : ∀ j, j ≠ k → s'.place j = s.place j := by
    intro j hj
    rw [hs', place_set, if_neg hj]
    rfl
  have hself : (s'.place k).Plain := by
    rw [hs', place_set, if_pos rfl]
    cases m
    · exact ⟨rfl, rfl, rfl⟩
    · exact ⟨rfl, rfl, rfl⟩
  have hacked : s'.acked = s.acked ++ [(e.index, e.ack)] := by rw [hs', hindex, hack]; rfl
  have haccepted : s'.accepted = s.accepted := by rw [hs']; rfl
  have hreads : s'.reads = s.reads := by rw [hs']; rfl
  have hlevel : s'.protocolLevel = s.protocolLevel := by rw [hs']; rfl
  have hlock : s'.lockRecv = s.lockRecv := by rw [hs']; rfl
  have hencodes : ∀ a, s'.encodes a = s.encodes a := by intro a; rw [hs']; rfl
  have hpend : ∀ {j x}, (s'.place j).pending = some x → j ≠ k ∧ (s.place j).pending = some x ∧ x.1 ≠ e.index := by
    intro j x hx
    by_cases hj : j = k
    · rw [hj, hself.pending] at hx
      cases hx
    · rw [hother j hj] at hx
      exact ⟨hj, hx, fun heq' => hj (h.single j k x _ hx hpendk (heq'.trans hindex.symm))⟩
  have hin : ∀ {j g'}, (s'.place j).inHand = some g' → (s.place j).inHand = some g' := by
    intro j g' hg'
    by_cases hj : j = k
    · rw [hj, hself.inHand] at hg'
      cases hg'
    · rwa [← hother j hj]
  have hmem : ∀ {i}, i ∈ s'.acked.map Prod.fst ↔ i ∈ s.acked.map Prod.fst ∨ i = e.index := by
    intro i
    rw [hacked, List.map_append, List.mem_append, List.map_cons, List.map_nil, List.mem_singleton]
  refine ⟨⟨?_, ?_, ?_, ?_, ?_, ?_⟩, ?_, ?_, ?_, ?_, ?_, ?_, ?_, ?_, ?_⟩
  · intro x hx
    rw [hacked] at hx
    rw [haccepted]
    rcases List.mem_append.mp hx with hold | hnew
    · exact h.matching x hold
    · exact ⟨e, he, List.mem_singleton.mp hnew⟩
  · rw [hacked, List.map_append, List.nodup_append]
    refine ⟨h.once, List.nodup_singleton _, ?_⟩
    intro i hi j hj hij
    rw [List.map_cons, List.map_nil, List.mem_singleton] at hj
    dsimp only at hj hfresh
    exact hfresh (by rw [hindex, ← hj, ← hij]; exact hi)
  · intro e' he'
    rw [haccepted] at he'
    rw [hmem]
    rcases h.kept e' he' with hsent | ⟨j, hj⟩
    · exact .inl (.inl hsent)
    · by_cases hjk : j = k
      · rw [hjk, hpendk] at hj
        exact .inl (.inr ((congrArg Prod.fst (Option.some.inj hj)).symm.trans hindex))
      · exact .inr ⟨j, by rw [hother j hjk]; exact hj⟩
  · rw [haccepted, hreads]
    exact h.packets
  · rw [haccepted]
    exact h.distinct
  · rw [hacked, List.filter_append, List.map_append, List.pairwise_append]
    refine ⟨h.inOrder, ?_, ?_⟩
    · by_cases hp : e.ack.packetType = .publishAck
      · rw [List.filter_cons_of_pos (by simpa using hp)]
        exact List.pairwise_singleton _ _
      · rw [List.filter_cons_of_neg (by simpa using hp)]
        exact List.Pairwise.nil
    · intro i hi j hj
      obtain ⟨y, hy, rfl⟩ := List.mem_map.mp hi
      obtain ⟨z, hz, rfl⟩ := List.mem_map.mp hj
      obtain ⟨hy, hyp⟩ := List.mem_filter.mp hy
      obtain ⟨hz, hzp⟩ := List.mem_filter.mp hz
      rw [List.mem_singleton.mp hz] at hzp ⊢
      have hzp' := of_decide_eq_true hzp
      have hyp' := of_decide_eq_true hyp
      exact hindex ▸ h.later k _ hpendk (by rw [hack]; exact hzp') y hy hyp'
  · rw [hs']
    exact h.room
  · intro j hj
    rw [hlock]
    by_cases hjk : j = k
    · rw [hjk, hself.hasRecv] at hj
      cases hj
    · exact h.recv j (hother j hjk ▸ hj)
  · intro j g' hg'
    rw [hlevel, hreads, haccepted]
    exact h.hand j g' (hin hg')
  · rw [haccepted, hreads]
    exact h.below
  · intro j x hx
    obtain ⟨-, hx', hne⟩ := hpend hx
    obtain ⟨hacc, hnot, henc'⟩ := h.owed j x hx'
    rw [haccepted, hencodes, hmem]
    refine ⟨hacc, ?_, henc'⟩
    rintro (hsent | heq')
    · exact hnot hsent
    · exact hne heq'
  · intro j j' x x' hx hx'
    exact h.single j j' x x' (hpend hx).2.1 (hpend hx').2.1
  · intro j x hx hp y hy hyp
    obtain ⟨hjk, hx', -⟩ := hpend hx
    rw [hacked] at hy
    rcases List.mem_append.mp hy with hold | hnew
    · exact h.later j x hx' hp y hold hyp
    · refine absurd (h.alone j k x _ hx' hpendk hp ?_) hjk
      rw [List.mem_singleton.mp hnew] at hyp
      rw [hack]
      exact hyp
  · intro j j' x x' hx hx'
    exact h.alone j j' x x' (hpend hx).2.1 (hpend hx').2.1
  · intro j g' hg' hwants j' x hx
    exact h.clear j g' (hin hg') hwants j' x (hpend hx).2.1

/-! ### Runs -/

theorem acks_start {level txLen sends recvs : Nat} (hroom : maxLenBytes < txLen) : Acks (start level txLen sends recvs) where
  matching := by intro x hx; cases hx
  once := List.nodup_nil
  kept := by intro e he; cases he
  packets := by intro e he; cases he
  distinct := List.nodup_nil
  inOrder := List.Pairwise.nil
  room := hroom
  recv := by intro k hk; cases hk
  hand := by intro k h hk; cases hk
  below := by intro e he; cases he
  owed := by intro k x hk; cases hk
  single := by intro k k' x x' hk; cases hk
  later := by intro k x hk; cases hk
  alone := by intro k k' x x' hk; cases hk
  clear := by intro k h hk; cases hk

/-- A step within the reading that answers nothing. -/
theorem Acks.within (h : Acks s) (s₁ : Sys) {p : Place} (hsame : Same s s₁) (htask : s₁.task = s.task)
    (hlock : s₁.lockRecv = s.lockRecv) (hpend : p.pending = (s.place k).pending)
    (hhand : p.inHand = none ∨ p.inHand = (s.place k).inHand) (hrecv : p.hasRecv → (s.place k).hasRecv) :
    Acks (s₁.go k p) := by
  refine h.keeps (k := k) (moved_go p hsame htask) hlock ?_ ?_ ?_
  · rw [place_go, if_pos rfl, hpend]
  · rw [place_go, if_pos rfl]
    exact hhand
  · rw [place_go, if_pos rfl]
    exact hrecv

theorem Acks.stage {g : Hold} {f : Found} {ack : Option Ack} (h : Acks s) (hplace : s.place k = .completed g f ack)
    (hauth : ack.isSome → s.autoAuth = false) : Acks (s.stage k g f ack) := by
  have hunlock : ∀ {t : Task}, t.place.pending = (s.place k).pending → t.place.inHand = none → t.place.hasRecv = false →
      Acks ((s.unlockRecv k).set k t) := by
    intro t hpend hin hrecv
    refine h.unlocks (k := k) ⟨⟨rfl, rfl, rfl, rfl, rfl⟩, fun j hj => ?_⟩ rfl ?_ ?_ ?_
    · rw [place_set, if_neg hj]
      rfl
    · rw [place_set, if_pos rfl, hpend]
    · rw [place_set, if_pos rfl, hin]
    · rw [place_set, if_pos rfl, hrecv]
  cases ack with
  | some a =>
    simp only [Sys.stage, hauth rfl, Bool.false_eq_true, if_false]
    exact hunlock (by rw [hplace]; rfl) rfl rfl
  | none =>
    simp only [Sys.stage]
    split
    · exact hunlock (by rw [hplace]; rfl) rfl rfl
    · exact hunlock (by rw [hplace]; rfl) rfl rfl

theorem Acks.resume {w : Wait} (h : Acks s) (hplace : s.place k = .waiting w) (hread : (s.task k).read = .ack)
    (hack : (s.task k).ack = .begin) : Acks (s.resume k w) := by
  unfold Sys.resume
  rw [hread, hack]
  refine Elsewhere.acks (k := k) h ⟨⟨⟨rfl, rfl, rfl, rfl, rfl⟩, fun j hj => ?_⟩, rfl, ?_⟩ (by rw [hplace]; exact ⟨rfl, rfl, rfl⟩)
  · rw [place_set, if_neg hj]
  · rw [place_set, if_pos rfl]
    show (s.place k).Plain
    rw [hplace]
    exact ⟨rfl, rfl, rfl⟩

theorem Acks.step {ka : Nat × Act} (h : Acks s) (hturn : s.AcksInTurn ka) (hstep : s.stepOf ka = some s') : Acks s' := by
  obtain ⟨k, a⟩ := ka
  have hgo : ∀ (s₁ : Sys) {p q : Place}, s.place k = q → q.Plain → p.Plain → Same s s₁ → s₁.task = s.task →
      s₁.lockRecv = s.lockRecv → Acks (s₁.go k p) := by
    intro s₁ p q hplace hq hp hsame htask hlock
    exact (elsewhere_go hsame htask hlock hp).acks h (hplace ▸ hq)
  cases step_cases hstep with
  | send hplace => exact hgo {s with lockSend := _} hplace ⟨rfl, rfl, rfl⟩ ⟨rfl, rfl, rfl⟩ ⟨rfl, rfl, rfl, rfl, rfl⟩ rfl rfl
  | wait hplace => exact hgo s hplace ⟨rfl, rfl, rfl⟩ ⟨rfl, rfl, rfl⟩ (.refl s) rfl rfl
  | answered hplace =>
    exact hgo {s with pendResps := _} hplace ⟨rfl, rfl, rfl⟩ ⟨rfl, rfl, rfl⟩ ⟨rfl, rfl, rfl, rfl, rfl⟩ rfl rfl
  | resume hplace => exact h.resume hplace hturn.1 hturn.2
  | lock hplace hfree => exact h.lock hplace hfree
  | read hplace hp => exact h.read hplace hp hturn
  | fails hplace => exact h.abandoned (.refl s) rfl rfl _ (by rw [hplace]; rfl)
  | reserve hplace => exact (reserve_elsewhere s k _).acks h (by rw [hplace]; exact ⟨rfl, rfl, rfl⟩)
  | list hplace => exact (list_elsewhere s k _).acks h (by rw [hplace]; exact ⟨rfl, rfl, rfl⟩)
  | write hplace => exact (write_elsewhere s k _).acks h (by rw [hplace]; exact ⟨rfl, rfl, rfl⟩)
  | giveUp hplace => exact (giveUp_elsewhere s k _).acks h (by rw [hplace]; exact ⟨rfl, rfl, rfl⟩)
  | look hplace =>
    refine h.within _ (decode_same s _) (decode_task s _).1 (decode_task s _).2 ?_ ?_ ?_
    · rw [hplace]; rfl
    · rw [hplace]; exact .inr rfl
    · rw [hplace]; exact fun _ => rfl
  | locate hplace =>
    refine h.within s (.refl s) rfl rfl ?_ ?_ ?_
    · rw [hplace]; rfl
    · rw [hplace]; exact .inr rfl
    · rw [hplace]; exact fun _ => rfl
  | handle hplace => exact h.handle hplace hturn.1
  | reject hplace =>
    unfold Sys.reject
    split
    · refine h.within s (.refl s) rfl rfl ?_ (.inl rfl) ?_
      · rw [hplace]; rfl
      · rw [hplace]; exact fun _ => rfl
    · refine h.within {s with pendResps := _, hits := _} ⟨rfl, rfl, rfl, rfl, rfl⟩ rfl rfl ?_ (.inl rfl) ?_
      · rw [hplace]; rfl
      · rw [hplace]; exact fun _ => rfl
  | giveBack hplace => exact h.abandoned (release_same s _ _) rfl rfl _ (by rw [hplace]; rfl)
  | complete hplace =>
    refine h.within {s with pendResps := _, hits := _} ⟨rfl, rfl, rfl, rfl, rfl⟩ rfl rfl ?_ (.inl rfl) ?_
    · rw [hplace]; rfl
    · rw [hplace]; exact fun _ => rfl
  | stage hplace =>
    refine h.stage hplace fun hsome => ?_
    obtain ⟨a, rfl⟩ := Option.isSome_iff_exists.mp hsome
    exact hturn.2 ⟨_, _, a, hplace⟩
  | claimAck hplace hfree =>
    refine h.within {s with lockSend := _} ⟨rfl, rfl, rfl, rfl, rfl⟩ rfl rfl ?_ (.inl rfl) fun hrecv => by cases hrecv
    rw [hplace]
    rfl
  | sendAck hplace => exact h.sendAck hplace
  | leave hplace =>
    exact hgo {s with pendResps := _} hplace ⟨rfl, rfl, rfl⟩ ⟨rfl, rfl, rfl⟩ ⟨rfl, rfl, rfl, rfl, rfl⟩ rfl rfl
  | cancel hplace => exact (cancel_elsewhere s k _).acks h (by rw [hplace]; exact ⟨rfl, rfl, rfl⟩)
  | cancelIdle hplace => exact (cancel_elsewhere s k false).acks h (by rw [hplace]; exact ⟨rfl, rfl, rfl⟩)
  | auth => exact h.quiet (k := k) ⟨rfl, rfl, rfl, rfl, rfl⟩ (fun _ _ => rfl) rfl (.inr rfl) h.recv

/-- What a reader does for a PUBLISH until its acknowledgement is staged, and after. -/
def readsPublish (qos : QoS) (packetId : Nat) : List Act :=
  [.wait, .lock, .read {packetType := .publish, packetId, qos}, .next none, .next none,
    .next (some Reason.success), .next none, .next none]

def sendsAck : List Act := [.next none, .next none]

/-- A step that keeps the acknowledgements in order, as far as the calls are on `ks`. -/
def checkTurn (ks : List Nat) (s : Sys) (ka : Nat × Act) : Bool :=
  ks.contains ka.1 &&
    match ka.2 with
    | .read _ => ks.all fun j => (s.place j).pending.all fun x => x.2.packetType ≠ .publishAck
    | .next cb => cb.all (publishRespReasonCodeValid .publishAck) && !s.autoAuth
    | .resume => (s.task ka.1).read = .ack && (s.task ka.1).ack = .begin
    | _ => true

theorem Only.acksInTurn {ks : List Nat} {s : Sys} {ka : Nat × Act} (h : s.Only ks) (hcheck : checkTurn ks s ka) :
    s.AcksInTurn ka := by
  obtain ⟨k, a⟩ := ka
  obtain ⟨-, hcheck⟩ := Bool.and_eq_true_iff.mp hcheck
  cases a with
  | read p =>
    intro _ j x hx hack
    have hj := h.all_places (P := fun p => p.pending.all fun x => x.2.packetType ≠ .publishAck) rfl hcheck j
    simp only [hx, Option.all_some, decide_eq_true_eq] at hj
    exact hj hack
  | next cb =>
    obtain ⟨hvalid, hauth⟩ := Bool.and_eq_true_iff.mp hcheck
    refine ⟨fun _ reasonCode hcb => ?_, fun _ => by simpa using hauth⟩
    rw [hcb] at hvalid
    exact hvalid
  | resume =>
    obtain ⟨hread, hack⟩ := Bool.and_eq_true_iff.mp hcheck
    exact ⟨of_decide_eq_true hread, of_decide_eq_true hack⟩
  | _ => exact True.intro

end Sys
end Threads
end WolfMqtt
