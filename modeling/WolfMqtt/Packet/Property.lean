import WolfMqtt.Packet.Vbi

/-! Property blocks, written and read back.

What an encoder takes for a list of properties is decided value by value (`encodePropValue`) and by
what has stood before (`propRepeats`); the decoder decides the same way, so that either side's success
can be read off the bytes. -/
namespace WolfMqtt

/-! ### Properties and their values -/
namespace MqttProp

/-- The values the members' C types can hold. -/
structure Typed (p : MqttProp) : Prop where
  short : p.dataShort < 65536
  int : p.dataInt < 4294967296
  str : p.dataStr.length < 65536
  bin : p.dataBin.length < 65536
  str2 : p.dataStr2.length < 65536

instance (p : MqttProp) : Decidable p.Typed :=
  decidable_of_iff (p.dataShort < 65536 ∧ p.dataInt < 4294967296 ∧ p.dataStr.length < 65536 ∧ p.dataBin.length < 65536 ∧
    p.dataStr2.length < 65536)
    ⟨fun ⟨hshort, hint, hstr, hbin, hstr2⟩ => ⟨hshort, hint, hstr, hbin, hstr2⟩, fun h => ⟨h.short, h.int, h.str, h.bin, h.str2⟩⟩

/-- The property with the member its type names, and nothing in the others. -/
def own (p : MqttProp) : MqttProp :=
  match p.type.dataType with
  | .byte => {type := p.type, dataByte := p.dataByte}
  | .short => {type := p.type, dataShort := p.dataShort}
  | .int | .varInt => {type := p.type, dataInt := p.dataInt}
  | .string => {type := p.type, dataStr := p.dataStr}
  | .binary => {type := p.type, dataBin := p.dataBin}
  | .stringPair => {type := p.type, dataStr := p.dataStr, dataStr2 := p.dataStr2}

@[simp]
theorem own_type (p : MqttProp) : p.own.type = p.type := by
  unfold own
  cases p.type.dataType <;> rfl

end MqttProp

/-- What is written for a value is read back from its front, if the list has room for it. -/
theorem decodePropValue_encodePropValue {p : MqttProp} (hp : p.Typed) {v : Bytes} (h : encodePropValue p = .ok v)
    (rest : Bytes) {propLen : Nat} (hlen : v.length ≤ propLen) :
    decodePropValue p.type (v ++ rest) propLen = .ok (p.own, v.length) := by
  unfold encodePropValue at h
  unfold decodePropValue MqttProp.own
  cases htype : p.type.dataType with
  | byte =>
    simp only [htype] at h ⊢
    split at h
    · cases h
    next hbool =>
    cases h
    rw [List.length_singleton] at hlen
    have hroom : ¬propLen < 1 := by omega
    simp only [List.singleton_append, if_neg hroom, if_neg hbool, List.length_singleton]
  | short =>
    simp only [htype] at h ⊢
    split at h
    · cases h
    next halias =>
    cases h
    rw [encodeNum_length] at hlen
    have hroom : ¬2 > propLen := by omega
    simp only [bind, Except.bind, decodeNum_encodeNum hp.short, if_neg hroom, if_neg halias, encodeNum_length]
  | int =>
    simp only [htype] at h ⊢
    split at h
    · cases h
    next hsize =>
    cases h
    rw [encodeInt_length] at hlen
    have hroom : ¬propLen < 4 := by omega
    simp only [bind, Except.bind, decodeInt_encodeInt hp.int, if_neg hroom, if_neg hsize, encodeInt_length]
  | string =>
    simp only [htype] at h ⊢
    split at h
    · cases h
    next htopic =>
    split at h
    · cases h
    next hutf =>
    cases h
    rw [encodeData_length] at hlen
    have hroom : ¬2 + p.dataStr.length > propLen := by omega
    have hs : decodeString (encodeData p.dataStr ++ rest) = .ok p.dataStr :=
      decodeString_encodeData hp.str (by simpa using hutf) rest
    simp only [bind, Except.bind, hs, if_neg hroom, if_neg htopic, encodeData_length]
  | varInt =>
    simp only [htype] at h ⊢
    split at h
    · cases h
    next hzero =>
    unfold encodeVbi at h
    split at h
    · cases h
    next hmax =>
    cases h
    have hroom : ¬(vbiBytes maxLenBytes p.dataInt).length > propLen := by omega
    have hvbi : decodeVbi (vbiBytes maxLenBytes p.dataInt ++ rest) = .ok (p.dataInt, _) :=
      decodeVbi_vbiBytes (by omega) rest
    simp only [bind, Except.bind, hvbi, if_neg hroom, if_neg hzero]
  | binary =>
    simp only [htype] at h ⊢
    cases h
    rw [encodeData_length] at hlen
    have hroom : ¬2 > propLen := by omega
    have hnum : decodeNum (encodeData p.dataBin ++ rest) = .ok p.dataBin.length := by
      rw [encodeData, List.append_assoc, decodeNum_encodeNum hp.bin]
    have htail : (encodeData p.dataBin ++ rest).drop 2 = p.dataBin ++ rest := by
      rw [encodeData, List.append_assoc, List.drop_left' (encodeNum_length _)]
    have hbuf : ¬p.dataBin.length > (encodeData p.dataBin ++ rest).length - 2 := by
      rw [List.length_append, encodeData_length]
      omega
    have hlist : ¬p.dataBin.length > propLen - 2 := by omega
    simp only [bind, Except.bind, hnum, if_neg hroom, if_neg hbuf, if_neg hlist, htail, List.take_left,
      encodeData_length]
  | stringPair =>
    simp only [htype] at h ⊢
    split at h
    · cases h
    next hutf =>
    cases h
    rw [List.length_append, encodeData_length, encodeData_length] at hlen
    simp only [Bool.or_eq_true, Bool.not_eq_true', not_or, Bool.not_eq_false] at hutf
    have hs : decodeString (encodeData p.dataStr ++ encodeData p.dataStr2 ++ rest) = .ok p.dataStr := by
      rw [List.append_assoc]
      exact decodeString_encodeData hp.str hutf.1 _
    have htail : (encodeData p.dataStr ++ encodeData p.dataStr2 ++ rest).drop (2 + p.dataStr.length) =
        encodeData p.dataStr2 ++ rest := by
      rw [List.append_assoc, List.drop_left' (encodeData_length _)]
    have hs₂ : decodeString (encodeData p.dataStr2 ++ rest) = .ok p.dataStr2 :=
      decodeString_encodeData hp.str2 hutf.2 rest
    have hroom : ¬2 + p.dataStr.length > propLen := by omega
    have hroom₂ : ¬2 + p.dataStr2.length > propLen - (2 + p.dataStr.length) := by omega
    have hmore : ¬2 + p.dataStr.length + (2 + p.dataStr2.length) + rest.length - (2 + p.dataStr.length) = 0 := by
      omega
    simp only [bind, Except.bind, hs, htail, hs₂, if_neg hroom, if_neg hroom₂, List.length_append,
      encodeData_length, if_neg hmore]

/-- What a value was read from is what is written for it. -/
theorem decodePropValue_canonical {type : PropType} {buf : Bytes} {propLen : Nat} {p : MqttProp} {k : Nat}
    (h : decodePropValue type buf propLen = .ok (p, k)) :
    p.type = type ∧ p.own = p ∧ p.Typed ∧ k ≤ propLen ∧
      ∃ v rest, encodePropValue p = .ok v ∧ v.length = k ∧ buf = v ++ rest := by
  unfold decodePropValue at h
  cases htype : type.dataType with
  | byte =>
    simp only [htype] at h
    split at h
    · cases h
    next b rest =>
    split at h
    · cases h
    next hroom =>
    split at h
    · cases h
    next hbool =>
    cases h
    refine ⟨rfl, by simp only [MqttProp.own, htype], by constructor <;> simp, by omega, [b], rest, ?_, rfl, rfl⟩
    simp only [encodePropValue, htype, if_neg hbool]
  | short =>
    simp only [htype, bind, Except.bind] at h
    split at h
    · cases h
    next value hnum =>
    obtain ⟨hlt, rest, hbuf⟩ := decodeNum_canonical hnum
    split at h
    · cases h
    next hroom =>
    split at h
    · cases h
    next halias =>
    cases h
    refine ⟨rfl, by simp only [MqttProp.own, htype], by constructor <;> simp [hlt], by omega, encodeNum value, rest,
      ?_, rfl, hbuf⟩
    simp only [encodePropValue, htype, if_neg halias]
  | int =>
    simp only [htype, bind, Except.bind] at h
    split at h
    · cases h
    next hroom =>
    split at h
    · cases h
    next value hint =>
    obtain ⟨hlt, rest, hbuf⟩ := decodeInt_canonical hint
    split at h
    · cases h
    next hsize =>
    cases h
    refine ⟨rfl, by simp only [MqttProp.own, htype], by constructor <;> simp [hlt], by omega, encodeInt value, rest,
      ?_, rfl, hbuf⟩
    simp only [encodePropValue, htype, if_neg hsize]
  | string =>
    simp only [htype, bind, Except.bind] at h
    split at h
    · cases h
    next s hs =>
    obtain ⟨hlt, hutf, rest, hbuf⟩ := decodeString_canonical hs
    split at h
    · cases h
    next hroom =>
    split at h
    · cases h
    next htopic =>
    cases h
    refine ⟨rfl, by simp only [MqttProp.own, htype], by constructor <;> simp [hlt], by omega, encodeData s, rest,
      ?_, encodeData_length s, hbuf⟩
    simp only [encodePropValue, htype, if_neg htopic, hutf, Bool.not_true, Bool.false_eq_true, if_false]
  | varInt =>
    simp only [htype, bind, Except.bind] at h
    split at h
    · cases h
    next value hvbi =>
    obtain ⟨hmax, hlen, rest, hbuf⟩ := decodeVbi_canonical hvbi
    split at h
    · cases h
    next hroom =>
    split at h
    · cases h
    next hzero =>
    cases h
    have hlt : value.1 < 4294967296 := by
      rw [maxRemainLen] at hmax
      omega
    refine ⟨rfl, by simp only [MqttProp.own, htype], by constructor <;> simp [hlt], by omega, _, rest, ?_, hlen.symm,
      hbuf⟩
    simp only [encodePropValue, htype, if_neg hzero, encodeVbi_eq hmax]
  | binary =>
    simp only [htype, bind, Except.bind] at h
    split at h
    · cases h
    next len hnum =>
    obtain ⟨hlt, rest, rfl⟩ := decodeNum_canonical hnum
    rw [List.drop_left' (encodeNum_length _), List.length_append, encodeNum_length] at h
    split at h
    · cases h
    next hroom =>
    split at h
    · cases h
    next hbuf =>
    split at h
    · cases h
    next hlist =>
    cases h
    have hs : (rest.take len).length = len := by
      rw [List.length_take]
      omega
    refine ⟨rfl, by simp only [MqttProp.own, htype], ?_, by omega, encodeData (rest.take len), rest.drop len, ?_, ?_, ?_⟩
    · constructor <;> simp
      omega
    · simp only [encodePropValue, htype]
    · rw [encodeData_length, hs]
    · rw [encodeData, hs, List.append_assoc, List.take_append_drop]
  | stringPair =>
    simp only [htype, bind, Except.bind] at h
    split at h
    · cases h
    next s hs =>
    obtain ⟨hlt, hutf, rest, rfl⟩ := decodeString_canonical hs
    rw [List.drop_left' (encodeData_length _)] at h
    split at h
    · cases h
    next hroom =>
    split at h
    · cases h
    next hmore =>
    split at h
    · cases h
    next s₂ hs₂ =>
    obtain ⟨hlt₂, hutf₂, rest₂, rfl⟩ := decodeString_canonical hs₂
    split at h
    · cases h
    next hroom₂ =>
    cases h
    refine ⟨rfl, by simp only [MqttProp.own, htype], by constructor <;> simp [hlt, hlt₂], by omega,
      encodeData s ++ encodeData s₂, rest₂, ?_, ?_, (List.append_assoc _ _ _).symm⟩
    · simp only [encodePropValue, htype, hutf, hutf₂, Bool.not_true, Bool.or_self, Bool.false_eq_true, if_false]
    · rw [List.length_append, encodeData_length, encodeData_length]

/-! ### Identifiers -/
namespace PropType

theorem ofNat?_toNat (t : PropType) : ofNat? t.toNat = some t := by
  cases t <;> rfl

theorem toNat_of_ofNat? {n : Nat} {t : PropType} (h : ofNat? n = some t) : t.toNat = n := by
  simpa using List.find?_some h

theorem toNat_lt (t : PropType) : t.toNat < propMatrixSize := by
  cases t <;> decide

end PropType

/-- An identifier of the matrix is a single byte. -/
theorem vbiBytes_of_lt {n : Nat} (h : n < propMatrixSize) : vbiBytes maxLenBytes n = [UInt8.ofNat n] := by
  have hlt : n < 128 := Nat.lt_of_lt_of_le h (by decide)
  exact vbiBytes_last hlt

/-! ### The loops -/

/-- A list that is written from some point on is read back from that point on. -/
theorem decodePropsLoop_encodePropsLoop {packet : PacketType} {props : List MqttProp} (hp : ∀ p ∈ props, p.Typed)
    {count rc : Nat} {seen : List PropType} {bytes : Bytes} (h : encodePropsLoop packet count seen rc props = .ok bytes)
    {room left : Nat} (hroom : props.length ≤ room) (hleft : count + left = maxProps) (rest : Bytes) :
    decodePropsLoop packet seen room (bytes ++ rest) bytes.length left = .ok (props.map MqttProp.own) := by
  induction props generalizing count rc seen bytes room left with
  | nil =>
    rw [encodePropsLoop] at h
    cases h
    cases left <;> rfl
  | cons p props ih =>
    rw [encodePropsLoop] at h
    split at h
    · cases h
    next hcount =>
    split at h
    · cases h
    next hallowed =>
    split at h
    · cases h
    next hseen =>
    split at h
    · cases h
    next value hvalue =>
    dsimp only at h
    split at h
    · cases h
    next hsize =>
    split at h
    · cases h
    next tail htail =>
    cases h
    obtain ⟨left, rfl⟩ : ∃ l, left = l + 1 := ⟨left - 1, by omega⟩
    rw [List.length_cons] at hroom
    obtain ⟨room, rfl⟩ : ∃ r, room = r + 1 := ⟨room - 1, by omega⟩
    have hid := PropType.toNat_lt p.type
    have hlen : (vbiBytes maxLenBytes p.type.toNat ++ value ++ tail).length = 1 + value.length + tail.length := by
      rw [vbiBytes_of_lt hid, List.length_append, List.length_append, List.length_singleton]
    have hvbi : decodeVbi (vbiBytes maxLenBytes p.type.toNat ++ value ++ tail ++ rest) = .ok (p.type.toNat, 1) := by
      have hmax : p.type.toNat ≤ maxRemainLen := Nat.le_of_lt (Nat.lt_of_lt_of_le hid (by decide))
      rw [List.append_assoc, List.append_assoc, decodeVbi_vbiBytes hmax, vbiBytes_of_lt hid, List.length_singleton]
    have hdrop : (vbiBytes maxLenBytes p.type.toNat ++ value ++ tail ++ rest).drop 1 = value ++ (tail ++ rest) := by
      rw [vbiBytes_of_lt hid, List.append_assoc, List.append_assoc]
      rfl
    have hdrop₂ : (vbiBytes maxLenBytes p.type.toNat ++ value ++ tail ++ rest).drop (1 + value.length) =
        tail ++ rest := by
      rw [← List.drop_drop, hdrop, List.drop_left]
    have hread : decodePropValue p.type (value ++ (tail ++ rest)) (1 + value.length + tail.length - 1) = _ :=
      decodePropValue_encodePropValue (hp p (by simp)) hvalue (tail ++ rest) (by omega)
    have hrest : 1 + value.length + tail.length - 1 - value.length = tail.length := by omega
    have hmore : ¬1 + value.length + tail.length = 0 := by omega
    have hfree : ¬room + 1 = 0 := by omega
    rw [decodePropsLoop, hlen, if_neg hmore, if_neg hfree, hvbi]
    simp only [if_neg (Nat.not_le.mpr hid), PropType.ofNat?_toNat, if_neg hallowed, if_neg hseen, hdrop, hread, hdrop₂,
      hrest, Nat.add_sub_cancel, ih (fun q hq => hp q (by simp [hq])) htail (Nat.le_of_succ_le_succ hroom)
        (by omega : count + 1 + left = maxProps), List.map_cons]

/-- What a list was read from is what is written for it. -/
theorem decodePropsLoop_canonical {packet : PacketType} {left count rc room : Nat} {seen : List PropType} {buf : Bytes}
    {propLen : Nat} {props : List MqttProp} (h : decodePropsLoop packet seen room buf propLen left = .ok props)
    (hleft : count + left = maxProps) (hmax : rc + propLen ≤ maxRemainLen) :
    (∀ p ∈ props, p.own = p ∧ p.Typed) ∧ props.length ≤ room ∧
      ∃ bytes rest, encodePropsLoop packet count seen rc props = .ok bytes ∧ bytes.length = propLen ∧
        buf = bytes ++ rest := by
  induction left generalizing count rc room seen buf propLen props with
  | zero =>
    rw [decodePropsLoop] at h
    split at h
    next hdone =>
      cases h
      exact ⟨by simp, Nat.zero_le _, [], buf, rfl, hdone.symm, rfl⟩
    · cases h
  | succ left ih =>
    rw [decodePropsLoop] at h
    split at h
    next hdone =>
      cases h
      exact ⟨by simp, Nat.zero_le _, [], buf, rfl, hdone.symm, rfl⟩
    next hmore =>
    split at h
    · cases h
    next hfree =>
    split at h
    · cases h
    next id n hvbi =>
    split at h
    · cases h
    next hid =>
    split at h
    · cases h
    next type htype =>
    split at h
    · cases h
    next hallowed =>
    split at h
    · cases h
    next hseen =>
    split at h
    · cases h
    next p k hvalue =>
    split at h
    · cases h
    next props' hprops =>
    cases h
    have hnat := PropType.toNat_of_ofNat? htype
    obtain ⟨-, hn, rest, hbuf⟩ := decodeVbi_canonical hvbi
    rw [vbiBytes_of_lt (by omega), List.length_singleton] at hn
    subst hn
    rw [vbiBytes_of_lt (by omega), ← hnat] at hbuf
    obtain ⟨rfl, hown, htyped, hk, v, rest', hv, rfl, hrest⟩ := decodePropValue_canonical hvalue
    have hdrop : buf.drop 1 = rest := by
      rw [hbuf]
      rfl
    have hdrop₂ : buf.drop (1 + v.length) = rest' := by
      rw [← List.drop_drop, hrest, List.drop_left]
    rw [hdrop₂] at hprops
    obtain ⟨hall, hlen, bytes, rest'', henc, hbytes, hrest'⟩ :=
      ih hprops (show count + 1 + left = maxProps by omega)
        (show rc + (1 + v.length) + (propLen - 1 - v.length) ≤ maxRemainLen by omega)
    refine ⟨?_, by rw [List.length_cons]; omega, vbiBytes maxLenBytes p.type.toNat ++ v ++ bytes, rest'', ?_, ?_, ?_⟩
    · intro q hq
      obtain rfl | hq := List.mem_cons.mp hq
      · exact ⟨hown, htyped⟩
      · exact hall q hq
    · have hhere : (vbiBytes maxLenBytes p.type.toNat ++ v).length = 1 + v.length := by
        rw [vbiBytes_of_lt (PropType.toNat_lt _), List.length_append, List.length_singleton]
      have hcount : ¬count + 1 > maxProps := by omega
      have hsize : ¬rc + (1 + v.length) > maxRemainLen := by omega
      rw [encodePropsLoop, if_neg hcount, if_neg hallowed, if_neg hseen, hv]
      simp only [hhere, if_neg hsize, henc]
    · rw [vbiBytes_of_lt (PropType.toNat_lt _), List.length_append, List.length_append, List.length_singleton]
      omega
    · rw [hdrop] at hrest
      rw [hbuf, hrest, hrest', vbiBytes_of_lt (PropType.toNat_lt _), List.append_assoc, List.append_assoc]

/-! ### Whole lists -/

/-- The check after the decoder's loop: Authentication Data comes with its method. -/
def authPaired (props : List MqttProp) : Prop :=
  (∃ p ∈ props, p.type = .authData) → ∃ p ∈ props, p.type = .authMethod

theorem authPaired_map_own (props : List MqttProp) : authPaired (props.map MqttProp.own) ↔ authPaired props := by
  simp [authPaired]

theorem authPaired_iff (props : List MqttProp) :
    authPaired props ↔ ¬(props.any (·.type = .authData) && !props.any (·.type = .authMethod)) = true := by
  simp only [authPaired, Bool.and_eq_true, Bool.not_eq_true', not_and, Bool.not_eq_false, List.any_eq_true,
    decide_eq_true_eq]

theorem encodePropsLoop_length_le {packet : PacketType} {count rc : Nat} {seen : List PropType} {props : List MqttProp}
    {bytes : Bytes} (h : encodePropsLoop packet count seen rc props = .ok bytes) (hrc : rc ≤ maxRemainLen) :
    rc + bytes.length ≤ maxRemainLen ∧ (count ≤ maxProps → count + props.length ≤ maxProps) := by
  induction props generalizing count rc seen bytes with
  | nil =>
    rw [encodePropsLoop] at h
    cases h
    exact ⟨hrc, id⟩
  | cons p props ih =>
    rw [encodePropsLoop] at h
    split at h
    · cases h
    next hcount =>
    split at h
    · cases h
    split at h
    · cases h
    split at h
    · cases h
    next value hvalue =>
    dsimp only at h
    split at h
    · cases h
    next hsize =>
    split at h
    · cases h
    next tail htail =>
    cases h
    obtain ⟨hbytes, hprops⟩ := ih htail (by omega)
    rw [List.length_append, List.length_cons]
    exact ⟨by omega, fun _ => by have := hprops (by omega); omega⟩

/-- An accepted list is short enough for the decoder, in properties and in bytes. -/
theorem encodeProps_length_le {packet : PacketType} {props : List MqttProp} {bytes : Bytes}
    (h : encodeProps packet props = .ok bytes) : bytes.length ≤ maxRemainLen ∧ props.length ≤ maxProps := by
  obtain ⟨hbytes, hprops⟩ := encodePropsLoop_length_le h (Nat.zero_le _)
  have := hprops (Nat.zero_le _)
  exact ⟨by omega, by omega⟩

/-- What a list was written as is read back, if Authentication Data has its method. -/
theorem decodeProps_encodeProps {packet : PacketType} {props : List MqttProp} (hp : ∀ p ∈ props, p.Typed)
    {bytes : Bytes} (h : encodeProps packet props = .ok bytes) {room : Nat} (hroom : props.length ≤ room)
    (hauth : authPaired props) (rest : Bytes) :
    decodeProps packet room (bytes ++ rest) bytes.length = .ok (props.map MqttProp.own) := by
  have hloop := decodePropsLoop_encodePropsLoop hp h hroom (Nat.zero_add _) rest
  rw [decodeProps, hloop]
  simp only [if_neg ((authPaired_iff _).mp ((authPaired_map_own _).mpr hauth))]

/-- A list read is in order, and what it was read from is what is written for it. -/
theorem decodeProps_canonical {packet : PacketType} {room propLen : Nat} {buf : Bytes} {props : List MqttProp}
    (h : decodeProps packet room buf propLen = .ok props) (hmax : propLen ≤ maxRemainLen) :
    (∀ p ∈ props, p.own = p ∧ p.Typed) ∧ props.length ≤ room ∧ authPaired props ∧
      ∃ bytes rest, encodeProps packet props = .ok bytes ∧ bytes.length = propLen ∧ buf = bytes ++ rest := by
  unfold decodeProps at h
  split at h
  · cases h
  next props' hloop =>
  split at h
  · cases h
  next hauth =>
  cases h
  obtain ⟨hall, hlen, hbytes⟩ := decodePropsLoop_canonical hloop (Nat.zero_add _) (by omega : 0 + propLen ≤ maxRemainLen)
  exact ⟨hall, hlen, (authPaired_iff _).mpr hauth, hbytes⟩

end WolfMqtt
