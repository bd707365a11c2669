import WolfMqtt.Sn.Bounds

/-! What is scanned in a buffer is what is decoded from its bytes.

Three decoders are there twice: as functions of the bytes, for what a packet means, and over their buffer, for what is
read of it. They fail with the same return value, or what one points at is what the other has cut out. -/
namespace WolfMqtt.Sn

open Agree (Agrees)

section alike
variable {rx : Bytes}

/-! ### Numbers and lengths -/

theorem readByte_take {pos n : Nat} (h : pos < n) : readByte (rx.take n) pos = readByte rx pos := by
  rw [readByte, readByte, List.getElem?_take_of_lt h]

theorem drop_of_lt {n : Nat} (h : n < rx.length) : rx.drop n = rx.getD n 0 :: rx.drop (n + 1) := by
  rw [List.drop_eq_getElem_cons h, List.getD_eq_getElem?_getD, List.getElem?_eq_getElem h]
  rfl

/-- A number that is read from `n` bytes. -/
theorem scanNum_take_agrees {pos n : Nat} (h : pos + n ≤ rx.length) :
    Agrees Coded Eq (scanNum rx pos n) (decodeNum ((rx.drop pos).take n)) := by
  have hlen : pos + n = (rx.take (pos + n)).length := by
    rw [List.length_take]
    omega
  have hscan : scanNum rx pos n = scanNum (rx.take (pos + n)) pos n := by
    rw [scanNum, scanNum]
    by_cases htwo : n < 2
    · rw [if_pos htwo, if_pos htwo]
    · rw [if_neg htwo, if_neg htwo, readByte_take (by omega), readByte_take (by omega)]
  rw [hscan, show (rx.drop pos).take n = (rx.take (pos + n)).drop pos by rw [List.drop_take, Nat.add_sub_cancel_left]]
  exact scanNum_agrees hlen

theorem scanRestNum_agrees (hrx : rx.length < 2147483648) {pos : Nat} (h : pos ≤ rx.length) :
    Agrees Coded Eq (scanRestNum rx pos) (decodeNum (rx.drop pos)) := by
  rw [scanRestNum, wordDiff_of_le h (by omega)]
  exact scanNum_agrees (by omega)

theorem scanLength_agrees (hrx : rx.length < 2147483648) (h : rx.length ≠ 0) :
    Agrees Coded Eq (scanLength rx) (decodeLength rx) := by
  obtain ⟨b, rest, rfl⟩ := List.exists_cons_of_length_pos (Nat.pos_of_ne_zero h)
  show Agrees Coded Eq (if b = lenInd then _ else _) (if b = lenInd then _ else _)
  refine Agree.ite Iff.rfl (fun _ => ?_) fun _ => Agree.ok rfl
  have hnum : Agrees Coded Eq (scanRestNum (b :: rest) 1) (decodeNum rest) :=
    scanRestNum_agrees hrx (by rw [List.length_cons]; omega)
  obtain ⟨e, e', hscan, hdec, he⟩ | ⟨totalLen, _, hscan, hdec, rfl⟩ := Agree.cases hnum
  · rw [hscan, hdec]
    exact Agree.error he
  · rw [hscan, hdec]
    exact Agree.ok rfl

/-! ### The header -/

theorem scanId_agrees (type : UInt8) {totalLen pos : Nat} (hpos : pos ≤ totalLen) (h : totalLen ≤ rx.length) :
    Agrees Coded Eq (scanId rx type totalLen pos) (decodeId type (rx.drop pos) (totalLen - pos)) := by
  rw [scanId, decodeId]
  cases idOffset type with
  | none => exact Agree.ok rfl
  | some offset =>
    dsimp only
    rw [Int.ofNat_sub hpos, List.drop_drop]
    refine Agree.ite Iff.rfl (fun _ => Agree.error rfl) fun hroom => ?_
    exact scanNum_take_agrees (by omega)

theorem scanHeader_agrees (hrx : rx.length < 2147483648) : Agrees Coded Eq (scanHeader rx true) (decodeHeader rx) := by
  rw [scanHeader, decodeHeader]
  refine Agree.ite Iff.rfl (fun _ => Agree.error rfl) fun hmin => ?_
  have hinside := scanLength_inside hrx (by omega)
  obtain ⟨e, e', hscan, hdec, he⟩ | ⟨⟨totalLen, n⟩, _, hscan, hdec, rfl⟩ := Agree.cases (scanLength_agrees hrx (by omega))
  · rw [hscan, hdec]
    exact Agree.error he
  have hread : LengthRead rx (totalLen, n) := hinside.of_ok hscan
  rw [hscan, hdec, Agree.ok_bind]
  dsimp only
  refine Agree.ite Iff.rfl (fun _ => Agree.error rfl) fun hwhole => Agree.ite Iff.rfl (fun _ => Agree.error rfl) fun hleast => ?_
  have hn : n < rx.length := by omega
  rw [drop_of_lt hn, readByte_of_lt hn, Agree.ok_bind, if_pos rfl]
  dsimp only
  obtain ⟨e, e', hscan, hdec, he⟩ | ⟨id, _, hscan, hdec, rfl⟩ :=
    Agree.cases (@scanId_agrees rx (rx.getD n 0) _ _ (show n + 1 ≤ totalLen by omega) (by omega))
  · rw [hscan, hdec]
    exact Agree.error he
  · rw [hscan, hdec]
    exact Agree.ok rfl

/-! ### PUBLISH -/

/-- What a PUBLISH of `len` bytes points at. -/
def PublishView.read (rx : Bytes) (len : Nat) (v : PublishView) : DecodedPublish where
  totalLen := len
  duplicate := v.duplicate
  qos := v.qos
  retain := v.retain
  topicType := v.topicType
  topicName := v.topicName.get rx
  packetId := v.packetId
  payload := v.buffer.get rx

/-- The two bytes of a topic, where they lie. -/
theorem slice_two {pos : Nat} (h : pos + 1 < rx.length) :
    Slice.get rx ⟨pos, 2⟩ = [rx.getD pos 0, rx.getD (pos + 1) 0] := by
  rw [Slice.get]
  dsimp only
  rw [drop_of_lt (by omega), drop_of_lt h]
  rfl

theorem scanPublish_agrees (hrx : rx.length < 2147483648) :
    Agrees Coded (fun s d => s.fields.map (PublishView.read rx s.len) = some d) (scanPublish rx true) (decodePublish rx) := by
  rw [scanPublish, decodePublish]
  refine Agree.ite (by simp) (fun _ => Agree.error rfl) fun hmin => ?_
  rw [not_or, not_lt] at hmin
  have hinside := scanLength_inside hrx (by omega)
  obtain ⟨e, e', hscan, hdec, he⟩ | ⟨⟨totalLen, n⟩, _, hscan, hdec, rfl⟩ := Agree.cases (scanLength_agrees hrx (by omega))
  · rw [hscan, hdec]
    exact Agree.error he
  obtain ⟨-, hfield⟩ : LengthRead rx (totalLen, n) := hinside.of_ok hscan
  rw [hscan, hdec, Agree.ok_bind]
  dsimp only at hfield ⊢
  refine Agree.ite Iff.rfl (fun _ => Agree.error rfl) fun hwhole => Agree.ite Iff.rfl (fun _ => Agree.error rfl) fun hleast => ?_
  rw [drop_of_lt (show n < rx.length by omega), drop_of_lt (show n + 1 < rx.length by omega),
    readByte_of_lt (show n < rx.length by omega), Agree.ok_bind]
  dsimp only
  refine Agree.ite Iff.rfl (fun _ => Agree.error rfl) fun htype => ?_
  rw [readByte_of_lt (show n + 1 < rx.length by omega), Agree.ok_bind, drop_of_lt (show n + 1 + 1 < rx.length by omega),
    drop_of_lt (show n + 1 + 1 + 1 < rx.length by omega), decodePublishFields]
  obtain ⟨e, e', hscan, hdec, he⟩ | ⟨packetId, _, hscan, hdec, rfl⟩ :=
    Agree.cases (scanRestNum_agrees hrx (show n + 4 ≤ rx.length by omega))
  · rw [hscan, hdec]
    exact Agree.error he
  rw [hscan, hdec, Agree.ok_bind]
  dsimp only
  refine Agree.ite Iff.rfl (fun _ => Agree.error rfl) fun _ => Agree.ite Iff.rfl (fun _ => Agree.error rfl) fun _ =>
    Agree.ite Iff.rfl (fun _ => Agree.error rfl) fun hpayload => ?_
  refine Agree.ok ?_
  rw [Option.map_some, PublishView.read]
  dsimp only
  rw [slice_two (by omega), List.drop_drop]
  rfl

/-! ### REGISTER -/

/-- What a REGISTER of `len` bytes points at. -/
def RegisterView.read (len : Nat) (v : RegisterView) : DecodedRegister where
  totalLen := len
  topicId := v.topicId
  packetId := v.packetId
  topicName := v.topicName.off
  rx := v.rx

theorem scanRegister_agrees (hrx : rx.length < 2147483648) :
    Agrees Coded (fun s d => s.fields.map (RegisterView.read s.len) = some d) (scanRegister rx true) (decodeRegister rx) := by
  rw [scanRegister, decodeRegister]
  by_cases hnil : rx.length = 0
  · rw [if_pos hnil, List.length_eq_zero_iff.mp hnil]
    exact Agree.error rfl
  rw [if_neg hnil]
  have hinside := scanLength_inside hrx hnil
  obtain ⟨e, e', hscan, hdec, he⟩ | ⟨⟨totalLen, n⟩, _, hscan, hdec, rfl⟩ := Agree.cases (scanLength_agrees hrx hnil)
  · rw [hscan, hdec]
    exact Agree.error he
  obtain ⟨-, hfield⟩ : LengthRead rx (totalLen, n) := hinside.of_ok hscan
  rw [hscan, hdec, Agree.ok_bind]
  dsimp only at hfield ⊢
  refine Agree.ite Iff.rfl (fun _ => Agree.error rfl) fun hwhole => Agree.ite Iff.rfl (fun _ => Agree.error rfl) fun hleast => ?_
  rw [drop_of_lt (show n < rx.length by omega), readByte_of_lt (show n < rx.length by omega), Agree.ok_bind]
  dsimp only
  refine Agree.ite Iff.rfl (fun _ => Agree.error rfl) fun htype => ?_
  rw [if_neg (by decide), List.drop_drop]
  obtain ⟨e, e', hscan, hdec, he⟩ | ⟨topicId, _, hscan, hdec, rfl⟩ :=
    Agree.cases (scanRestNum_agrees hrx (show n + 1 ≤ rx.length by omega))
  · rw [hscan, hdec]
    exact Agree.error he
  rw [hscan, hdec, Agree.ok_bind]
  dsimp only
  obtain ⟨e, e', hscan, hdec, he⟩ | ⟨packetId, _, hscan, hdec, rfl⟩ :=
    Agree.cases (scanRestNum_agrees hrx (show n + 1 + 2 ≤ rx.length by omega))
  · rw [hscan, hdec]
    exact Agree.error he
  rw [hscan, hdec, Agree.ok_bind]
  dsimp only
  refine Agree.ite Iff.rfl (fun _ => Agree.error rfl) fun hname => ?_
  rw [writeByte, if_pos (by omega), Agree.ok_bind, show n + 5 + (totalLen - (n + 5)) = totalLen by omega]
  exact Agree.ok rfl

end alike

end WolfMqtt.Sn
