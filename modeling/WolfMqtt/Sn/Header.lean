import WolfMqtt.Sn.Decode
import WolfMqtt.Packet.Vbi

/-! Every MQTT-SN packet that is encoded can be told by its header.

The fourteen encoders come down to two: one for packets of a fixed length, one that turns to the
long form of the length field past 255 bytes. -/
namespace WolfMqtt.Sn

/-! ### Length fields -/

theorem ofInt_natCast (n : Nat) : UInt8.ofInt n = UInt8.ofNat n := by
  refine UInt8.toNat_inj.mp ?_
  rw [UInt8.ofInt, UInt8.toNat_ofNat', UInt8.toNat_ofNat']
  omega

theorem lengthField_small {n : Nat} (h : n ≤ 255) : lengthField n = [UInt8.ofNat n] := by
  have hsmall : (n : Int) ≤ maxSmallSize := by
    unfold maxSmallSize
    omega
  rw [lengthField, if_pos hsmall, ofInt_natCast]

theorem lengthField_large {n : Nat} (h : 255 < n) : lengthField n = lenInd :: encodeNum n := by
  have hlarge : ¬(n : Int) ≤ maxSmallSize := by
    unfold maxSmallSize
    omega
  rw [lengthField, if_neg hlarge, Int.toNat_natCast]

/-- A length of one byte is never taken for the indicator of the long form. -/
theorem decodeLength_small {n : Nat} (h2 : 2 ≤ n) (h : n ≤ 255) (rest : Bytes) :
    decodeLength (UInt8.ofNat n :: rest) = .ok (n, 1) := by
  have hbyte : (UInt8.ofNat n).toNat = n := by
    rw [UInt8.toNat_ofNat']
    omega
  have hind : UInt8.ofNat n ≠ lenInd := by
    intro hcon
    rw [hcon] at hbyte
    have hone : lenInd.toNat = 1 := rfl
    omega
  rw [decodeLength, if_neg hind, hbyte]

theorem decodeLength_large {n : Nat} (h : n < 65536) (rest : Bytes) :
    decodeLength (lenInd :: encodeNum n ++ rest) = .ok (n, 3) := by
  rw [List.cons_append, decodeLength, if_pos rfl, decodeNum_encodeNum h]

/-! ### What a length field announces -/

/-- The bytes of a packet: its length field, its type and the rest. -/
def packetBytes (totalLen : Nat) (type : UInt8) (rest : Bytes) : Bytes := lengthField totalLen ++ type :: rest

/-- The length of a packet whose length field counts everything, and fits. -/
structure Framed (totalLen : Nat) (rest : Bytes) : Prop where
  counts : totalLen = (lengthField totalLen).length + 1 + rest.length
  fits : totalLen < 65536

theorem Framed.length {totalLen : Nat} {rest : Bytes} (h : Framed totalLen rest) (type : UInt8) :
    (packetBytes totalLen type rest).length = totalLen := by
  rw [packetBytes, List.length_append, List.length_cons]
  have := h.counts
  omega

theorem Framed.decodeLength_append {totalLen : Nat} {rest : Bytes} (h : Framed totalLen rest) (type : UInt8)
    (spare : Bytes) :
    Sn.decodeLength (packetBytes totalLen type rest ++ spare) = .ok (totalLen, (lengthField totalLen).length) := by
  by_cases hsmall : totalLen ≤ 255
  · have hcounts := h.counts
    rw [lengthField_small hsmall, List.length_singleton] at hcounts
    rw [packetBytes, lengthField_small hsmall, List.append_assoc]
    exact decodeLength_small (by omega) hsmall _
  · rw [packetBytes, lengthField_large (by omega), List.append_assoc]
    exact decodeLength_large h.fits _

theorem Framed.decodeLength {totalLen : Nat} {rest : Bytes} (h : Framed totalLen rest) (type : UInt8) :
    Sn.decodeLength (packetBytes totalLen type rest) = .ok (totalLen, (lengthField totalLen).length) := by
  have happend := h.decodeLength_append type []
  rwa [List.append_nil] at happend

/-- A length field takes one byte or three. -/
theorem lengthField_length (totalLen : Int) : (lengthField totalLen).length = 1 ∨ (lengthField totalLen).length = 3 := by
  unfold lengthField
  split
  · exact .inl rfl
  · exact .inr rfl

theorem packetBytes_drop (totalLen : Nat) (type : UInt8) (rest : Bytes) :
    (packetBytes totalLen type rest).drop (lengthField totalLen).length = type :: rest := List.drop_left

theorem Framed.short {rest : Bytes} (h : 2 + rest.length ≤ 255) : Framed (2 + rest.length) rest := by
  refine ⟨?_, by omega⟩
  rw [lengthField_small h, List.length_singleton]

theorem Framed.long {rest : Bytes} (h : 255 < 2 + rest.length) (hfits : 4 + rest.length < 65536) :
    Framed (4 + rest.length) rest := by
  refine ⟨?_, hfits⟩
  rw [lengthField_large (by omega), List.length_cons, encodeNum_length]

/-- The header of a packet is read back, with the message id the rest holds. -/
theorem Framed.decodeHeader {totalLen : Nat} {rest : Bytes} (h : Framed totalLen rest) {type : UInt8} {id : Nat}
    (hid : decodeId type rest rest.length = .ok id) :
    Sn.decodeHeader (packetBytes totalLen type rest) = .ok {totalLen, type, packetId := id} := by
  have hlen := h.length type
  have hcounts := h.counts
  have hfield := lengthField_length totalLen
  have hmin : ¬(packetBytes totalLen type rest).length < 2 := by omega
  have hover : ¬totalLen > (packetBytes totalLen type rest).length := by omega
  have hunder : ¬totalLen < (lengthField totalLen).length + 1 := by omega
  have hrest : totalLen - ((lengthField totalLen).length + 1) = rest.length := by omega
  simp only [Sn.decodeHeader, if_neg hmin, h.decodeLength, if_neg hover, if_neg hunder, packetBytes_drop, hrest, hid]

/-! ### What the encoders leave -/

/-- Does an encoder that returns a length leave a packet of that length at the front of `tx_buf`, and does
its header say so? -/
def Sent (txLen : Int) (type : UInt8) (id : Option Nat) (e : Encoded) : Prop :=
  0 ≤ e.rc → (e.out.length : Int) = e.rc ∧ e.rc ≤ txLen ∧
    ∃ h, decodeHeader e.out = .ok h ∧ (h.totalLen : Int) = e.rc ∧ h.type = type ∧ ∀ i, id = some i → h.packetId = i

theorem Sent.of_neg {txLen : Int} {type : UInt8} {id : Option Nat} {e : Encoded} (h : e.rc < 0) :
    Sent txLen type id e := fun hrc => absurd h (Int.not_lt.mpr hrc)

theorem Sent.fail {txLen : Int} {type : UInt8} {id : Option Nat} {rc : Int} (h : rc < 0) :
    Sent txLen type id (Encoded.fail rc) := Sent.of_neg h

theorem Sent.of_framed {txLen : Int} {type : UInt8} {id : Option Nat} {totalLen i : Nat} {rest : Bytes}
    (h : Framed totalLen rest) (htx : (totalLen : Int) ≤ txLen) (hid : decodeId type rest rest.length = .ok i)
    (hi : ∀ j, id = some j → i = j) : Sent txLen type id ⟨totalLen, packetBytes totalLen type rest⟩ := by
  intro _
  refine ⟨?_, htx, _, h.decodeHeader hid, rfl, rfl, hi⟩
  show ((packetBytes totalLen type rest).length : Int) = totalLen
  rw [h.length]

theorem encodeFixed_sent {txLen totalLen : Int} {type : UInt8} {id : Option Nat} {i : Nat} {rest : Bytes}
    (hlen : totalLen = 2 + rest.length) (hshort : rest.length ≤ 253) (hid : decodeId type rest rest.length = .ok i)
    (hi : ∀ j, id = some j → i = j) : Sent txLen type id (encodeFixed txLen type totalLen rest) := by
  unfold encodeFixed
  split
  · exact Sent.fail (by decide)
  next htx =>
  have hcast : totalLen = ((2 + rest.length : Nat) : Int) := by
    rw [hlen]
    rfl
  have hframed : Framed (2 + rest.length) rest := Framed.short (by omega)
  have hbytes : UInt8.ofInt totalLen :: type :: rest = packetBytes (2 + rest.length) type rest := by
    rw [packetBytes, lengthField_small (by omega), hcast, ofInt_natCast, List.singleton_append]
  rw [hbytes, hcast]
  exact Sent.of_framed hframed (by omega) hid hi

/-- What is accepted is framed, in the short form or the long one. -/
theorem encodeSized_framed {txLen small : Int} {type : UInt8} {rest : Bytes} (hlen : small = 2 + rest.length)
    (haccepted : 0 ≤ (encodeSized txLen type small rest).rc) :
    ∃ totalLen, Framed totalLen rest ∧ (totalLen : Int) ≤ txLen ∧
      encodeSized txLen type small rest = ⟨totalLen, packetBytes totalLen type rest⟩ := by
  have hmax : maxSmallSize = 255 := rfl
  have hfits : maxLen = 65535 := rfl
  have hfail : ¬0 ≤ (Encoded.fail Code.outOfBuffer).rc := by decide
  unfold encodeSized at haccepted ⊢
  by_cases hlarge : small > maxSmallSize
  · have hcast : small + 2 = ((4 + rest.length : Nat) : Int) := by omega
    simp only [if_pos hlarge, hcast] at haccepted ⊢
    split at haccepted
    · exact absurd haccepted hfail
    next hno =>
    rw [if_neg hno]
    rw [not_or, hfits] at hno
    exact ⟨_, Framed.long (by omega) (by omega), by omega, rfl⟩
  · have hcast : small = ((2 + rest.length : Nat) : Int) := by omega
    simp only [if_neg hlarge] at haccepted ⊢
    rw [hcast] at haccepted ⊢
    split at haccepted
    · exact absurd haccepted hfail
    next hno =>
    rw [if_neg hno]
    rw [not_or] at hno
    exact ⟨_, Framed.short (by omega), by omega, rfl⟩

theorem encodeSized_sent {txLen small : Int} {type : UInt8} {id : Option Nat} {i : Nat} {rest : Bytes}
    (hlen : small = 2 + rest.length) (hid : decodeId type rest rest.length = .ok i)
    (hi : ∀ j, id = some j → i = j) : Sent txLen type id (encodeSized txLen type small rest) := by
  by_cases haccepted : 0 ≤ (encodeSized txLen type small rest).rc
  · obtain ⟨totalLen, hframed, htx, hcode⟩ := encodeSized_framed hlen haccepted
    rw [hcode]
    exact Sent.of_framed hframed htx hid hi
  · exact Sent.of_neg (Int.not_le.mp haccepted)

end WolfMqtt.Sn
