import WolfMqtt.Packet.ConnectRoundTrip
import WolfMqtt.Packet.PropSection

/-! Packets written and read back: what all of them share.

A packet that an encoder has written is a first byte, a Remaining Length and a body of just that length
(`packetWire`). Its decoder finds the header (`scanHeader_packetWire`), and behind it a property list
where one was written (`propSectionM_reads`). -/
namespace WolfMqtt

open Agree (Agrees)
open Layout (At at_append)
open Pool (Cell Linked)

/-! ### Packets -/

def packetWire (first : UInt8) (body : Bytes) : Bytes := first :: (vbiBytes maxLenBytes body.length ++ body)

/-- The length of a packet's header. -/
def headerLength (body : Bytes) : Nat := (vbiBytes maxLenBytes body.length).length + 1

theorem packetWire_length (first : UInt8) (body : Bytes) :
    (packetWire first body).length = headerLength body + body.length := by
  rw [packetWire, headerLength, List.length_cons, List.length_append]
  omega

theorem at_body (first : UInt8) (body : Bytes) : At (packetWire first body) (headerLength body) body := by
  refine Layout.at_iff.mpr ⟨[], ?_⟩
  rw [packetWire, headerLength, List.drop_succ_cons, List.drop_left, List.append_nil]

/-- The first byte of a packet. -/
def firstByte (type : PacketType) (retain : Bool) (qos : QoS) (duplicate : Bool) : UInt8 :=
  UInt8.ofNat (type.toNat * 16 + (if retain then 1 else 0) + qos.toNat * 2 + (if duplicate then 8 else 0))

theorem encodeFixedHeader_of_le {txLen remainLen : Nat} {type : PacketType} {retain duplicate : Bool} {qos : QoS}
    (hlen : remainLen ≤ maxRemainLen) : encodeFixedHeader txLen remainLen type retain qos duplicate =
      if txLen < maxLenBytes + 1 then .fail Code.outOfBuffer
      else .done (firstByte type retain qos duplicate :: vbiBytes maxLenBytes remainLen) := by
  have hint : ((remainLen : Int) % 4294967296).toNat = remainLen := by
    rw [maxRemainLen] at hlen
    omega
  unfold encodeFixedHeader
  rw [hint, encodeVbi_eq hlen]
  rfl

/-- A header that is written says its Remaining Length. -/
theorem encodeFixedHeader_done {txLen remainLen : Nat} {type : PacketType} {retain duplicate : Bool} {qos : QoS}
    (hlen : remainLen < 4294967296) (h : 0 ≤ (encodeFixedHeader txLen remainLen type retain qos duplicate).rc) :
    remainLen ≤ maxRemainLen ∧ encodeFixedHeader txLen remainLen type retain qos duplicate =
      .done (firstByte type retain qos duplicate :: vbiBytes maxLenBytes remainLen) := by
  have hmax : remainLen ≤ maxRemainLen := by
    refine not_lt.mp fun hlt => ?_
    have hint : ((remainLen : Int) % 4294967296).toNat = remainLen := by omega
    unfold encodeFixedHeader at h
    rw [hint, encodeVbi, if_pos hlt] at h
    have hcode : ¬0 ≤ Code.malformedData := by decide
    split at h
    · exact absurd h (by decide)
    · exact absurd h hcode
  rw [encodeFixedHeader_of_le hmax] at h ⊢
  refine ⟨hmax, ?_⟩
  split at h
  · exact absurd h (by decide)
  next hroom => rw [if_neg hroom]

/-- The length of a fixed header whose Remaining Length is `n`. -/
def fixedLen (n : Nat) : Nat := (vbiBytes maxLenBytes n).length + 1

/-- A fixed header whose Remaining Length is `n`, and `len` bytes behind it, for which there is room. -/
def HeadersFit (txLen n len : Nat) : Prop := n ≤ maxRemainLen ∧ maxLenBytes + 1 ≤ txLen ∧ fixedLen n + len ≤ txLen

/-- The Remaining Length is passed on as a `word32`: the header is written, or refused, for that. -/
theorem encodeFixedHeader_word {txLen : Nat} (n : Int) (type : PacketType) (retain : Bool) (qos : QoS) (duplicate : Bool) :
    (encodeFixedHeader txLen n type retain qos duplicate).rc < 0 ∨
      (n % 4294967296).toNat ≤ maxRemainLen ∧ maxLenBytes + 1 ≤ txLen ∧
        encodeFixedHeader txLen n type retain qos duplicate =
          .done (firstByte type retain qos duplicate :: vbiBytes maxLenBytes (n % 4294967296).toNat) := by
  have hword : encodeFixedHeader txLen n type retain qos duplicate =
      encodeFixedHeader txLen ((n % 4294967296).toNat : Nat) type retain qos duplicate := by
    have hagain : (((n % 4294967296).toNat : Int) % 4294967296).toNat = (n % 4294967296).toNat := by omega
    unfold encodeFixedHeader
    rw [hagain]
  rw [hword]
  by_cases hneg : (encodeFixedHeader txLen ((n % 4294967296).toNat : Nat) type retain qos duplicate).rc < 0
  · exact .inl hneg
  obtain ⟨hmax, hdone⟩ := encodeFixedHeader_done (by omega) (not_lt.mp hneg)
  refine .inr ⟨hmax, ?_, hdone⟩
  rw [encodeFixedHeader_of_le hmax] at hneg
  split at hneg
  · exact absurd (by decide) hneg
  next hroom => exact not_lt.mp hroom

theorem not_done_neg (out : Bytes) : ¬(Encoded.done out).rc < 0 := Int.not_lt.mpr (Int.natCast_nonneg out.length)

/-- A packet that is written has gone out whole. -/
theorem encodePacket_done {txLen : Nat} {type : PacketType} {qos : QoS} {body : Bytes} (htx : txLen < 2147483648)
    (h : 0 ≤ (encodePacket txLen type qos body).rc) :
    body.length ≤ maxRemainLen ∧ (packetWire (firstByte type false qos false) body).length ≤ txLen ∧
      encodePacket txLen type qos body = .done (packetWire (firstByte type false qos false) body) := by
  unfold encodePacket at h ⊢
  dsimp only at h ⊢
  split at h
  next hneg => exact absurd h (by omega)
  next hheader =>
  have hcode : ¬0 ≤ Code.outOfBuffer := by decide
  split at h
  · exact absurd h hcode
  next hroom =>
  obtain ⟨hmax, hdone⟩ := encodeFixedHeader_done (by omega) (not_lt.mp hheader)
  rw [hdone] at hroom ⊢
  rw [if_neg (not_done_neg _), if_neg hroom]
  refine ⟨hmax, ?_, rfl⟩
  rw [packetWire_length, headerLength]
  simp only [Encoded.done, List.length_cons] at hroom
  omega

/-! ### Headers -/

section Read
variable {rx : Bytes} {pos : Nat}

theorem scanVbi_at {n : Nat} (hpos : pos ≤ rx.length) (hn : n ≤ maxRemainLen)
    (hat : At rx pos (vbiBytes maxLenBytes n)) :
    scanVbi rx pos (rx.length - pos) = .ok (n, (vbiBytes maxLenBytes n).length) := by
  obtain ⟨rest, hrest⟩ := Layout.at_iff.mp hat
  have hagree : Agrees Coded Eq (scanVbi rx pos (rx.length - pos)) _ := scanVbi_agrees (by omega)
  have hdec := decodeVbi_vbiBytes hn rest
  rw [← hrest] at hdec
  obtain ⟨_, hvbi, rfl⟩ := Agree.left_of_ok hagree hdec
  exact hvbi

theorem scanHeader_packetWire {first : UInt8} {body : Bytes} {type : PacketType} (hbody : body.length ≤ maxRemainLen)
    (htype : first.toNat / 16 = type.toNat) (hflags : fixedHeaderFlagsValid first = true) :
    scanHeader (packetWire first body) type = .ok (headerLength body, body.length, first) := by
  have hpos := vbiBytes_length_pos body.length
  have hlen := packetWire_length first body
  rw [headerLength] at hlen
  have hvbi : scanVbi (packetWire first body) 1 ((packetWire first body).length - 1) =
      .ok (body.length, (vbiBytes maxLenBytes body.length).length) :=
    scanVbi_at (by omega) hbody (Layout.at_iff.mpr ⟨body, rfl⟩)
  have hfirst : readByte (packetWire first body) 0 = .ok first := rfl
  unfold scanHeader
  rw [if_neg (by omega), hvbi, Agree.ok_bind]
  dsimp only
  rw [if_neg (by omega), hfirst, Agree.ok_bind, if_neg (not_not.mpr htype), hflags]
  rfl

/-! ### Properties -/

/-- Only packets that can authenticate have anything to pair. -/
theorem authPaired_of_valid {packet : PacketType} {props : List MqttProp} (hvalid : ValidProps packet props)
    (hpacket : PropType.authData.allowedIn packet = false) : authPaired props := by
  rintro ⟨p, hp, htype⟩
  have hallowed := hvalid.allowed p hp
  rw [htype, hpacket] at hallowed
  cases hallowed

/-- A list that stands in the buffer is read, as long as the pool has room for it. -/
theorem scanSection_complete {packet : PacketType} {props : List MqttProp} {room : Nat}
    {refuse : Nat → Nat → Option Int} (hrx : rx.length < 2147483648) (hpos : pos ≤ rx.length)
    (hp : ∀ p ∈ props, p.Typed) (hvalid : ValidProps packet props) (hauth : authPaired props)
    (hroom : props.length ≤ room) (hat : At rx pos (propSection props))
    (hrefuse : refuse (propsWire props).length (vbiBytes maxLenBytes (propsWire props).length).length = none) :
    ∃ views, scanSection packet room rx rx.length pos refuse =
        .ok (views, pos + (propSection props).length, pos + (propSection props).length) ∧
      views.map (PropView.read rx) = props.map MqttProp.own := by
  have hshort := propsWire_short hp hvalid
  have hmax : (propsWire props).length ≤ maxRemainLen := Nat.le_trans hshort (by decide)
  have hat' := hat
  rw [propSection, at_append] at hat'
  have hle := hat'.1.le hpos
  have hends : pos + (propSection props).length =
      pos + (vbiBytes maxLenBytes (propsWire props).length).length + (propsWire props).length := by
    rw [propSection, List.length_append, Nat.add_assoc]
  unfold scanSection
  rw [wordDiff_length hrx hpos, scanVbi_at hpos hmax hat'.1, Agree.ok_bind]
  dsimp only
  rw [hrefuse, hends]
  dsimp only
  by_cases hsome : (propsWire props).length > 0
  · obtain ⟨rest, hrest⟩ := Layout.at_iff.mp hat'.2
    have hagree : Agrees Coded _ (scanProps packet room rx (pos + (vbiBytes maxLenBytes (propsWire props).length).length)
        (rx.length - (pos + (vbiBytes maxLenBytes (propsWire props).length).length)) (propsWire props).length) _ :=
      scanProps_decodeProps (by omega) (by omega) (by omega) room
    have hdec := decodeProps_encodeProps hp (encodeProps_eq hp hvalid) hroom hauth rest
    rw [← hrest] at hdec
    obtain ⟨⟨views, total⟩, hscan, hshown⟩ := Agree.left_of_ok hagree hdec
    have htotal : total = (propsWire props).length := hshown.ends
    rw [if_pos hsome, wordDiff_length hrx hle, hscan, Agree.ok_bind, htotal]
    exact ⟨views, rfl, hshown.read⟩
  · obtain rfl : props = [] := propsWire_eq_nil (by omega)
    rw [if_neg hsome]
    exact ⟨[], rfl, rfl⟩

/-- The same on the pool. -/
theorem propSectionM_reads {w : Whose} {packet : PacketType} {props : List MqttProp} {s : PropState}
    {refuse : Nat → Nat → Option Int} (hrx : rx.length < 2147483648) (hpos : pos ≤ rx.length) (hnull : s.head w = none)
    (hp : ∀ p ∈ props, p.Typed) (hvalid : ValidProps packet props) (hauth : authPaired props)
    (hroom : props.length ≤ s.room) (hat : At rx pos (propSection props))
    (hrefuse : refuse (propsWire props).length (vbiBytes maxLenBytes (propsWire props).length).length = none) :
    ∃ s', propSectionM w packet rx rx.length pos refuse s =
        (.ok (pos + (propSection props).length, pos + (propSection props).length), s') ∧
      (s'.views w).map (PropView.read rx) = props.map MqttProp.own := by
  obtain ⟨views, hscan, hread⟩ := scanSection_complete hrx hpos hp hvalid hauth hroom hat hrefuse
  have hspec (x) (hx : scanSection packet s.room rx rx.length pos refuse = x) :=
    hx ▸ @propSectionM_spec w packet rx rx.length pos refuse s hnull
  obtain ⟨_, s', hrun, -, hviews, -⟩ := hspec _ hscan
  exact ⟨s', hrun, by rw [hviews, hread]⟩

end Read

end WolfMqtt
