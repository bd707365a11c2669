import WolfMqtt.Sn.Scan

/-! Every datagram is decoded inside its buffer, and what a decoder returns lies inside the packet.

The datagram comes from an untrusted gateway: its length field may say anything. Each decoder is followed with one
specification: it fails with a return value and never reads or writes past the buffer, and what it returns is as long
as the length field says and holds every range it points at. -/
namespace WolfMqtt.Sn

open Agree (Yields bind_eq_ok ok_bind)

/-- The length that a packet declares: its first byte, or the two behind the indicator of the long form. -/
def declaredLen : Bytes → Nat
  | [] => 0
  | b :: rest => if b = lenInd then (rest.getD 0 0).toNat * 256 + (rest.getD 1 0).toNat else b.toNat

/-- What is to hold of a result: it is as long as declared, and holds its ranges. The terminator of a range may be
the byte behind the packet, if the buffer has one there. -/
structure Returns.Inside (rx : Bytes) (r : Returns) : Prop where
  least : 2 ≤ r.len
  whole : r.len ≤ rx.length
  declared : r.len = declaredLen rx
  ranges : ∀ s ∈ r.ranges, s.off + s.len ≤ r.len
  terminated : ∀ s ∈ r.terminated, s.off + s.len + 1 ≤ r.len + 1 ∧ s.off + s.len < rx.length

section bounds
variable {rx : Bytes}

/-! ### Reading -/

theorem readByte_of_lt {pos : Nat} (h : pos < rx.length) : readByte rx pos = .ok (rx.getD pos 0) := by
  rw [readByte, List.getD_eq_getElem?_getD, List.getElem?_eq_getElem h]
  rfl

/-- Two bytes that are read are there, and are the number read. -/
theorem scanRestNum_inside (hrx : rx.length < 2147483648) {pos : Nat} (h : pos ≤ rx.length) :
    Yields Returned (fun n => pos + 2 ≤ rx.length ∧ n = (rx.getD pos 0).toNat * 256 + (rx.getD (pos + 1) 0).toNat)
      (scanRestNum rx pos) := by
  have hdiff : wordDiff rx.length pos = rx.length - pos := wordDiff_of_le h (by omega)
  rw [scanRestNum, hdiff, scanNum]
  refine .ite (fun _ => rejected _) fun hroom => ?_
  rw [readByte_of_lt (by omega), readByte_of_lt (by omega)]
  exact .ok ⟨by omega, rfl⟩

/-- A length field has been read: it takes one byte or three. -/
def LengthRead (rx : Bytes) (r : Nat × Nat) : Prop :=
  r.1 = declaredLen rx ∧ (r.2 = 1 ∧ r.1 ≠ 1 ∨ r.2 = 3 ∧ 3 ≤ rx.length)

theorem scanLength_inside (hrx : rx.length < 2147483648) (h : rx.length ≠ 0) :
    Yields Returned (LengthRead rx) (scanLength rx) := by
  obtain ⟨b, rest, rfl⟩ := List.exists_cons_of_length_pos (Nat.pos_of_ne_zero h)
  show Yields Returned _ (if b = lenInd then _ else _)
  refine .ite (fun hind => ?_) fun hshort => ?_
  · refine (scanRestNum_inside hrx (by rw [List.length_cons]; omega)).bind fun totalLen hlen => .ok ⟨?_, .inr ⟨rfl, hlen.1⟩⟩
    rw [declaredLen, if_pos hind]
    exact hlen.2
  · refine .ok ⟨(if_neg hshort).symm, .inl ⟨rfl, fun hone => hshort ?_⟩⟩
    exact UInt8.toNat_inj.mp hone

/-! ### The header -/

theorem scanId_inside (type : UInt8) {totalLen pos : Nat} (h : totalLen ≤ rx.length) :
    Yields Returned (fun _ => True) (scanId rx type totalLen pos) := by
  rw [scanId]
  cases idOffset type with
  | none => exact .ok trivial
  | some offset =>
    refine .ite (fun _ => rejected _) fun hroom => ?_
    rw [scanNum]
    refine .ite (fun _ => rejected _) fun _ => ?_
    exact (readByte_inside (by omega)).bind fun hi _ => (readByte_inside (by omega)).bind fun lo _ => .ok trivial

theorem scanHeader_inside (hrx : rx.length < 2147483648) (wantId : Bool) :
    Yields Returned (fun h => 2 ≤ h.totalLen ∧ h.totalLen ≤ rx.length ∧ h.totalLen = declaredLen rx)
      (scanHeader rx wantId) := by
  rw [scanHeader]
  refine .ite (fun _ => rejected _) fun hmin => (scanLength_inside hrx (by omega)).bind fun r hr => ?_
  obtain ⟨totalLen, n⟩ := r
  obtain ⟨hdeclared, hfield⟩ := hr
  refine .ite (fun _ => rejected _) fun hwhole => .ite (fun _ => rejected _) fun hleast => ?_
  dsimp only at hfield
  refine (readByte_inside (by omega)).bind fun type _ => ?_
  have hid : Yields Returned (fun _ => True) (if wantId then scanId rx type totalLen (n + 1) else .ok 0) :=
    .ite (fun _ => scanId_inside type (by omega)) fun _ => .ok trivial
  exact hid.bind fun packetId _ => .ok ⟨by dsimp only; omega, by dsimp only; omega, hdeclared⟩

/-! ### Packets of one length -/

theorem scanFixed_inside {totalLen : Nat} (type : UInt8) (hlen : 2 ≤ totalLen) :
    Yields Returned (fun _ => totalLen ≤ rx.length ∧ totalLen = declaredLen rx) (scanFixed rx type totalLen) := by
  rw [scanFixed]
  refine .ite (fun _ => rejected _) fun hsome => ?_
  obtain ⟨b, rest, rfl⟩ := List.exists_cons_of_length_pos (Nat.pos_of_ne_zero hsome)
  show Yields Returned _ (if b.toNat ≠ totalLen then _ else _)
  refine .ite (fun _ => rejected _) fun hb => .ite (fun _ => rejected _) fun hwhole => ?_
  have hshort : b ≠ lenInd := by
    rintro rfl
    have hone : lenInd.toNat = 1 := rfl
    omega
  refine (readByte_inside (by omega)).bind fun t _ => .ite (fun _ => rejected _) fun _ => .ok ⟨not_lt.mp hwhole, ?_⟩
  rw [declaredLen, if_neg hshort]
  exact (not_not.mp hb).symm

/-- A result that points at nothing, inside a packet as long as declared. -/
theorem plain_inside {len : Nat} (hlen : 2 ≤ len) (h : len ≤ rx.length ∧ len = declaredLen rx) :
    Returns.Inside rx ⟨len, [], []⟩ where
  least := hlen
  whole := h.1
  declared := h.2
  ranges _ hs := absurd hs List.not_mem_nil
  terminated _ hs := absurd hs List.not_mem_nil

/-- A decoder of packets of one length: its fields have to be read inside the packet. -/
theorem scanFixedInto_inside {α : Type} {totalLen : Nat} {fields : Except Fault α} (type : UInt8) (hlen : 2 ≤ totalLen)
    (obj : Bool) (hfields : totalLen ≤ rx.length → Yields Returned (fun _ => True) fields) :
    Yields Returned (fun s => Returns.Inside rx s.plain) (scanFixedInto rx type totalLen obj fields) := by
  refine (scanFixed_inside type hlen).bind fun _ h => .ite (fun _ => ?_) fun _ => .ok (plain_inside hlen h)
  exact (hfields h.1).bind fun a _ => .ok (plain_inside hlen h)

theorem restNum_inside (hrx : rx.length < 2147483648) {pos : Nat} (h : pos ≤ rx.length) :
    Yields Returned (fun _ => True) (scanRestNum rx pos) := (scanRestNum_inside hrx h).mono fun _ _ => trivial

theorem scanIds_inside (hrx : rx.length < 2147483648) {pos : Nat} (h : pos + 5 ≤ rx.length) :
    Yields Returned (fun _ => True) (scanIds rx pos) :=
  (restNum_inside hrx (by omega)).bind fun _ _ => (restNum_inside hrx (by omega)).bind fun _ _ =>
    (readByte_inside (by omega)).bind fun _ _ => .ok trivial

theorem returnCode_inside (type : UInt8) (obj : Bool) :
    Yields Returned (fun s => Returns.Inside rx s.plain) (scanReturnCode rx type obj) :=
  scanFixedInto_inside type (by decide) obj fun h => readByte_inside (by omega)

/-! ### Packets with checks of their own -/

/-- A length of one byte, and a type behind it. -/
theorem shortLength {b : UInt8} {rest : Bytes} (h : 2 ≤ b.toNat) : b.toNat = declaredLen (b :: rest) := by
  have hshort : b ≠ lenInd := by
    rintro rfl
    exact absurd h (by decide)
  rw [declaredLen, if_neg hshort]

theorem scanPublishResp_inside (hrx : rx.length < 2147483648) (type : UInt8) (obj : Bool) :
    Yields Returned (fun s => Returns.Inside rx s.plain) (scanPublishResp rx type obj) := by
  rw [scanPublishResp]
  refine .ite (fun _ => rejected _) fun hsome => ?_
  obtain ⟨b, rest, rfl⟩ := List.exists_cons_of_length_pos (Nat.pos_of_ne_zero hsome)
  show Yields Returned _ (if b.toNat > (b :: rest).length then _ else _)
  refine .ite (fun _ => rejected _) fun hwhole => .ite (fun _ => rejected _) fun hb => ?_
  have hlen := not_not.mp hb
  have hleast : 4 ≤ b.toNat := by
    rw [hlen]
    split <;> decide
  have hplain : ∀ a : Option PublishResp, Returns.Inside (b :: rest) (Scanned.plain ⟨b.toNat, a⟩) := fun a =>
    plain_inside (show 2 ≤ b.toNat by omega) ⟨not_lt.mp hwhole, shortLength (by omega)⟩
  refine (readByte_inside (by omega)).bind fun recType _ => .ite (fun _ => rejected _) fun _ => ?_
  refine .ite (fun _ => .ok (hplain none)) fun _ => .ite (fun hpuback => ?_) fun _ => ?_
  · rw [if_pos hpuback] at hlen
    exact (scanIds_inside hrx (by omega)).bind fun ids _ => .ok (hplain _)
  · exact (restNum_inside hrx (by omega)).bind fun packetId _ => .ok (hplain _)

theorem scanPing_inside : Yields Returned (fun s => Returns.Inside rx s.plain) (scanPing rx) := by
  rw [scanPing]
  refine .ite (fun _ => rejected _) fun hsome => ?_
  obtain ⟨b, rest, rfl⟩ := List.exists_cons_of_length_pos (Nat.pos_of_ne_zero hsome)
  show Yields Returned _ (if b.toNat ≠ 2 then _ else _)
  refine .ite (fun _ => rejected _) fun hb => .ite (fun _ => rejected _) fun hwhole => ?_
  have hlen := not_not.mp hb
  refine (readByte_inside (by omega)).bind fun t _ => .ite (fun _ => rejected _) fun _ => ?_
  exact .ok (plain_inside (show 2 ≤ b.toNat by omega) ⟨not_lt.mp hwhole, shortLength (by omega)⟩)

/-! ### Packets of any length -/

theorem scanGwInfo_inside (hrx : rx.length < 2147483648) (obj : GwInfoArg) :
    Yields Returned (fun s => Returns.Inside rx (s.returns (fun v => [v.gwAddr]) fun _ => [])) (scanGwInfo rx obj) := by
  rw [scanGwInfo]
  refine .ite (fun _ => rejected _) fun hsome => (scanLength_inside hrx hsome).bind fun r hr => ?_
  obtain ⟨totalLen, n⟩ := r
  obtain ⟨hdeclared, hfield⟩ := hr
  dsimp only at hdeclared hfield
  refine .ite (fun _ => rejected _) fun hwhole => .ite (fun _ => rejected _) fun hleast => ?_
  have hinside (ranges : List Slice) (h : ∀ s ∈ ranges, s.off + s.len ≤ totalLen) :
      Returns.Inside rx ⟨totalLen, ranges, []⟩ := ⟨by dsimp only; omega, not_lt.mp hwhole, hdeclared, h, by simp⟩
  refine (readByte_inside (by omega)).bind fun type _ => .ite (fun _ => rejected _) fun _ => ?_
  refine .ite (fun _ => .ok (hinside [] (by simp))) fun _ => (readByte_inside (by omega)).bind fun gwId _ => ?_
  refine .ite (fun hmore => .ite (fun _ => rejected _) fun _ => ?_) fun _ => .ok (hinside _ ?_)
  · have haddr : (if totalLen - (n + 2) > gwAddrSize then gwAddrSize else totalLen - (n + 2)) ≤ totalLen - (n + 2) := by
      split <;> omega
    refine (readBytes_inside (by omega)).bind fun _ _ => .ok (hinside _ ?_)
    rintro s hs
    rw [List.mem_singleton.mp hs]
    dsimp only
    omega
  · rintro s hs
    rw [List.mem_singleton.mp hs]
    dsimp only
    omega

theorem scanRegister_inside (hrx : rx.length < 2147483648) (obj : Bool) :
    Yields Returned (fun s => Returns.Inside rx (s.returns (fun _ => []) fun v => [v.topicName])) (scanRegister rx obj) := by
  rw [scanRegister]
  refine .ite (fun _ => rejected _) fun hsome => (scanLength_inside hrx hsome).bind fun r hr => ?_
  obtain ⟨totalLen, n⟩ := r
  obtain ⟨hdeclared, hfield⟩ := hr
  dsimp only at hdeclared hfield
  refine .ite (fun _ => rejected _) fun hwhole => .ite (fun _ => rejected _) fun hleast => ?_
  have hinside (terminated : List Slice) (h : ∀ s ∈ terminated, s.off + s.len ≤ totalLen) :
      Returns.Inside rx ⟨totalLen, [], terminated⟩ :=
    ⟨by dsimp only; omega, by dsimp only; omega, hdeclared, by simp, fun s hs => by have := h s hs; dsimp only; omega⟩
  refine (readByte_inside (by omega)).bind fun type _ => .ite (fun _ => rejected _) fun _ => ?_
  refine .ite (fun _ => .ok (hinside [] (by simp))) fun _ => ?_
  refine (restNum_inside hrx (by omega)).bind fun topicId _ => (restNum_inside hrx (by omega)).bind fun packetId _ => ?_
  refine .ite (fun _ => rejected _) fun hname => ?_
  rw [writeByte, if_pos (by omega)]
  refine .ok (hinside _ ?_)
  rintro s hs
  rw [List.mem_singleton.mp hs]
  dsimp only
  omega

theorem scanPublish_inside (hrx : rx.length < 2147483648) (obj : Bool) :
    Yields Returned (fun s => Returns.Inside rx (s.returns (fun v => [v.topicName, v.buffer]) fun _ => []))
      (scanPublish rx obj) := by
  rw [scanPublish]
  refine .ite (fun _ => rejected _) fun hmin => ?_
  rw [not_or, not_lt] at hmin
  refine (scanLength_inside hrx (by omega)).bind fun r hr => ?_
  obtain ⟨totalLen, n⟩ := r
  obtain ⟨hdeclared, hfield⟩ := hr
  dsimp only at hdeclared hfield
  refine .ite (fun _ => rejected _) fun hwhole => .ite (fun _ => rejected _) fun hleast => ?_
  refine (readByte_inside (by omega)).bind fun type _ => .ite (fun _ => rejected _) fun _ => ?_
  refine (readByte_inside (by omega)).bind fun flags _ => (restNum_inside hrx (by omega)).bind fun packetId _ => ?_
  refine .ite (fun _ => rejected _) fun _ => .ite (fun _ => rejected _) fun _ => .ite (fun _ => rejected _) fun hpayload => ?_
  refine .ok ⟨by show 2 ≤ totalLen; omega, not_lt.mp hwhole, hdeclared, ?_, by simp [Scanned.returns]⟩
  have htopic : n + 2 + 2 ≤ totalLen := by omega
  have hbuffer : n + 6 + (totalLen - (n + 6)) ≤ totalLen := by omega
  rintro s hs
  obtain rfl | hs := List.mem_cons.mp hs
  · exact htopic
  · rw [List.mem_singleton.mp hs]
    exact hbuffer

end bounds

/-! ### All of them -/

/-- For every datagram and every decoder: nothing is read or written at or past `rx_buf_len`, and a length that is
returned is the one declared, lies between 2 and `rx_buf_len`, and holds every range that is returned. -/
theorem decoder_inside {rx : Bytes} (hrx : rx.length < 2147483648) (d : Decoder) :
    (∀ e, d.run rx = .error e → ∃ rc, e = .code rc) ∧ ∀ r, d.run rx = .ok r → r.Inside rx := by
  have hrun : Yields Returned (Returns.Inside rx) (d.run rx) := by
    cases d with
    | header wantId => exact (scanHeader_inside hrx wantId).bind fun h hh => .ok (plain_inside hh.1 hh.2)
    | advertise obj =>
      refine (scanFixedInto_inside _ (by decide) obj fun h => ?_).map fun _ hs => hs
      exact (readByte_inside (by omega)).bind fun _ _ => (restNum_inside hrx (by omega)).bind fun _ _ => .ok trivial
    | gwInfo obj => exact (scanGwInfo_inside hrx obj).map fun _ hs => hs
    | willTopicReq => exact (scanFixedInto_inside _ (by decide) _ fun _ => .ok trivial).map fun _ hs => hs
    | willMsgReq => exact (scanFixedInto_inside _ (by decide) _ fun _ => .ok trivial).map fun _ hs => hs
    | willTopicResponse obj => exact Yields.map (.ite (fun _ => returnCode_inside _ _) fun _ => rejected _) fun _ hs => hs
    | willMsgResponse obj => exact Yields.map (.ite (fun _ => returnCode_inside _ _) fun _ => rejected _) fun _ hs => hs
    | connectAck obj => exact (returnCode_inside _ obj).map fun _ hs => hs
    | register obj => exact (scanRegister_inside hrx obj).map fun _ hs => hs
    | regAck obj =>
      exact (scanFixedInto_inside _ (by decide) obj fun h => scanIds_inside hrx (by omega)).map fun _ hs => hs
    | subscribeAck obj =>
      refine (scanFixedInto_inside _ (by decide) obj fun h => ?_).map fun _ hs => hs
      exact (readByte_inside (by omega)).bind fun _ _ => (scanIds_inside hrx (by omega)).bind fun _ _ => .ok trivial
    | publish obj => exact (scanPublish_inside hrx obj).map fun _ hs => hs
    | publishResp type obj => exact (scanPublishResp_inside hrx type obj).map fun _ hs => hs
    | unsubscribeAck obj =>
      exact (scanFixedInto_inside _ (by decide) obj fun h => restNum_inside hrx (by omega)).map fun _ hs => hs
    | disconnect => exact (scanFixedInto_inside _ (by decide) _ fun _ => .ok trivial).map fun _ hs => hs
    | ping => exact scanPing_inside.map fun _ hs => hs
  exact ⟨fun e he => hrun.of_error he, fun r hr => hrun.of_ok hr⟩

/-- A PUBLISH in the long form that ends with its header: the payload is empty, and the topic lies inside. -/
theorem decoder_inside_longForm :
    (Decoder.publish true).run [1, 0, 9, 0x0C, 0, 0x61, 0x62, 0, 0, 0xFF] =
      .ok ⟨9, [⟨5, 2⟩, ⟨9, 0⟩], []⟩ ∧
    Returns.Inside [1, 0, 9, 0x0C, 0, 0x61, 0x62, 0, 0, 0xFF] ⟨9, [⟨5, 2⟩, ⟨9, 0⟩], []⟩ := by
  have hrun : (Decoder.publish true).run [1, 0, 9, 0x0C, 0, 0x61, 0x62, 0, 0, 0xFF] =
      .ok ⟨9, [⟨5, 2⟩, ⟨9, 0⟩], []⟩ := by decide +kernel
  exact ⟨hrun, (decoder_inside (by decide) (.publish true)).2 _ hrun⟩

end WolfMqtt.Sn
