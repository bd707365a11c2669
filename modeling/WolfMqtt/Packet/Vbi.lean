import WolfMqtt.Packet.Decode
import Mathlib.Tactic

/-! Variable Byte Integers, and the other integers of the wire format, read back.

Every number up to the greatest one has one encoding: what the encoder writes is read back whatever
follows it, and what the decoder reads is what the encoder writes. -/
namespace WolfMqtt

/-! ### Variable Byte Integers -/

theorem vbiBytes_more {fuel x : Nat} (h : 0 < x / 128) :
    vbiBytes (fuel + 1) x = UInt8.ofNat (x % 128 + 128) :: vbiBytes fuel (x / 128) := by
  rw [vbiBytes, if_pos h]

theorem vbiBytes_last {fuel x : Nat} (h : x < 128) : vbiBytes (fuel + 1) x = [UInt8.ofNat x] := by
  have hdiv : ¬x / 128 > 0 := by omega
  rw [vbiBytes, if_neg hdiv, Nat.mod_eq_of_lt h]

/-- The loop over what the encoder has written, `rc` bytes into a number; `fuel` bytes may follow. -/
theorem decodeVbiLoop_vbiBytes (fuel : Nat) (rc v m x : Nat) (rest : Bytes) (hrc : rc + fuel = maxLenBytes)
    (hx : x < 128 ^ fuel) (hfirst : rc = 0 ∨ 0 < x) (hfuel : 0 < fuel) :
    decodeVbiLoop rc v m (vbiBytes fuel x ++ rest) = .ok (v + x * m, rc + (vbiBytes fuel x).length) := by
  induction fuel generalizing rc v m x with
  | zero => omega
  | succ fuel ih =>
    have hroom : ¬rc ≥ maxLenBytes := by omega
    by_cases hmore : 0 < x / 128
    · have hbyte : (UInt8.ofNat (x % 128 + 128)).toNat = x % 128 + 128 := by
        rw [UInt8.toNat_ofNat']
        omega
      have hlow : (x % 128 + 128) % 128 = x % 128 := by omega
      have hlt : x / 128 < 128 ^ fuel := by
        rw [Nat.div_lt_iff_lt_mul (by decide)]
        rwa [pow_succ] at hx
      have hpos : 0 < fuel := by
        rcases Nat.eq_zero_or_pos fuel with rfl | hpos
        · rw [pow_zero] at hlt
          omega
        · exact hpos
      have hsum : v + x % 128 * m + x / 128 * (m * 128) = v + x * m := by
        conv_rhs => rw [← Nat.div_add_mod x 128]
        ring
      rw [vbiBytes_more hmore, List.cons_append, decodeVbiLoop, if_neg hroom, hbyte, if_pos (by omega), hlow,
        ih (rc + 1) _ _ _ (by omega) hlt (.inr hmore) hpos, hsum, List.length_cons]
      congr 2
      omega
    · have hlt : x < 128 := by omega
      have hbyte : (UInt8.ofNat x).toNat = x := by
        rw [UInt8.toNat_ofNat']
        omega
      have hcanon : ¬(rc + 1 > 1 ∧ UInt8.ofNat x = 0) := by
        rintro ⟨hgt, hzero⟩
        rw [hzero] at hbyte
        have hx0 : x = 0 := hbyte.symm
        omega
      rw [vbiBytes_last hlt, List.singleton_append, decodeVbiLoop, if_neg hroom, hbyte, if_neg (by omega),
        if_neg (by simpa using hcanon)]
      rfl

/-- What the loop reads is what the encoder writes for it. -/
theorem decodeVbiLoop_canonical (buf : Bytes) (rc v m y n : Nat) (h : decodeVbiLoop rc v m buf = .ok (y, n)) :
    ∃ x fuel rest, rc + fuel = maxLenBytes ∧ 0 < fuel ∧ y = v + x * m ∧ x < 128 ^ fuel ∧ (rc = 0 ∨ 0 < x) ∧
      buf = vbiBytes fuel x ++ rest ∧ n = rc + (vbiBytes fuel x).length := by
  induction buf generalizing rc v m with
  | nil => simp [decodeVbiLoop] at h
  | cons b buf ih =>
    rw [decodeVbiLoop] at h
    split at h
    · cases h
    next hroom =>
    obtain ⟨fuel, hfuel⟩ : ∃ fuel, rc + (fuel + 1) = maxLenBytes := ⟨maxLenBytes - rc - 1, by omega⟩
    split at h
    · next hcont =>
      obtain ⟨x, fuel', rest, hfuel', hpos, hy, hx, hfirst, hbuf, hn⟩ := ih (rc + 1) _ _ h
      have hsame : fuel' = fuel := by omega
      subst hsame
      have hx0 : 0 < x := by omega
      have hbyte : b.toNat % 128 + 128 = b.toNat := by
        have := b.toNat_lt
        omega
      have hdiv : (b.toNat % 128 + x * 128) / 128 = x := by omega
      have hmod : (b.toNat % 128 + x * 128) % 128 = b.toNat % 128 := by omega
      have hbytes : vbiBytes (fuel' + 1) (b.toNat % 128 + x * 128) = b :: vbiBytes fuel' x := by
        rw [vbiBytes_more (by rw [hdiv]; exact hx0), hdiv, hmod, hbyte, UInt8.ofNat_toNat]
      refine ⟨b.toNat % 128 + x * 128, fuel' + 1, rest, by omega, by omega, ?_, ?_, .inr (by omega), ?_, ?_⟩
      · rw [hy]
        ring
      · rw [pow_succ]
        omega
      · rw [hbytes, hbuf, List.cons_append]
      · rw [hbytes, hn, List.length_cons]
        omega
    next hlast =>
    split at h
    · cases h
    next hcanon =>
    cases h
    have hlt : b.toNat < 128 := by omega
    have hbytes : vbiBytes (fuel + 1) b.toNat = [b] := by rw [vbiBytes_last hlt, UInt8.ofNat_toNat]
    refine ⟨b.toNat, fuel + 1, buf, hfuel, by omega, rfl, ?_, ?_, ?_, ?_⟩
    · calc b.toNat < 128 := hlt
        _ ≤ 128 ^ (fuel + 1) := Nat.le_self_pow (by omega) 128
    · by_contra hno
      rw [not_or] at hno
      refine hcanon ?_
      have hzero : b = 0 := UInt8.toNat_inj.mp (by
        have : b.toNat = 0 := by omega
        simpa using this)
      have hgt : rc + 1 > 1 := by omega
      simp [hzero, hgt]
    · rw [hbytes, List.singleton_append]
    · rw [hbytes]
      rfl

/-- A number that can be written is read back. -/
theorem decodeVbi_vbiBytes {x : Nat} (hx : x ≤ maxRemainLen) (rest : Bytes) :
    decodeVbi (vbiBytes maxLenBytes x ++ rest) = .ok (x, (vbiBytes maxLenBytes x).length) := by
  have hmax : maxRemainLen + 1 = 128 ^ maxLenBytes := by decide
  have hloop := decodeVbiLoop_vbiBytes maxLenBytes 0 0 1 x rest rfl (by omega) (.inl rfl) (by decide)
  rwa [Nat.zero_add, Nat.mul_one, Nat.zero_add] at hloop

/-- What is read is a number, in the encoding it is written in. -/
theorem decodeVbi_canonical {buf : Bytes} {x n : Nat} (h : decodeVbi buf = .ok (x, n)) :
    x ≤ maxRemainLen ∧ n = (vbiBytes maxLenBytes x).length ∧ ∃ rest, buf = vbiBytes maxLenBytes x ++ rest := by
  have hmax : maxRemainLen + 1 = 128 ^ maxLenBytes := by decide
  obtain ⟨y, fuel, rest, hfuel, -, hx, hlt, -, hbuf, hn⟩ := decodeVbiLoop_canonical buf 0 0 1 x n h
  have hsame : fuel = maxLenBytes := by omega
  have hy : x = y := by omega
  subst hsame hy
  exact ⟨by omega, by omega, rest, hbuf⟩

theorem vbiBytes_length_pos (x : Nat) : 0 < (vbiBytes maxLenBytes x).length := by
  by_cases h : 0 < x / 128
  · rw [maxLenBytes, vbiBytes_more h, List.length_cons]
    omega
  · rw [maxLenBytes, vbiBytes_last (by omega), List.length_singleton]
    omega

theorem vbiBytes_length_le (fuel x : Nat) : (vbiBytes fuel x).length ≤ fuel := by
  induction fuel generalizing x with
  | zero => exact Nat.le_refl _
  | succ fuel ih =>
    unfold vbiBytes
    split
    · rw [List.length_cons]
      exact Nat.succ_le_succ (ih _)
    · rw [List.length_singleton]
      omega

theorem encodeVbi_eq {x : Nat} (h : x ≤ maxRemainLen) : encodeVbi x = .ok (vbiBytes maxLenBytes x) := by
  rw [encodeVbi, if_neg (by omega)]

/-! ### Integers of a fixed width -/

theorem toInt32_of_lt {n : Nat} (h : n < 2147483648) : toInt32 n = n := by
  unfold toInt32
  rw [Nat.mod_eq_of_lt (by omega), if_pos h]
  omega

/-- The number again as the `word32` that it was. -/
theorem toInt32_word (n : Nat) : (toInt32 n % 4294967296).toNat = n % 4294967296 := by
  unfold toInt32
  split <;> omega

@[simp]
theorem encodeNum_length (n : Nat) : (encodeNum n).length = 2 := rfl

@[simp]
theorem encodeInt_length (n : Nat) : (encodeInt n).length = 4 := rfl

theorem decodeNum_encodeNum {n : Nat} (h : n < 65536) (rest : Bytes) : decodeNum (encodeNum n ++ rest) = .ok n := by
  show Except.ok ((UInt8.ofNat (n / 256)).toNat * 256 + (UInt8.ofNat n).toNat) = _
  rw [UInt8.toNat_ofNat', UInt8.toNat_ofNat']
  congr 1
  omega

theorem decodeNum_canonical {buf : Bytes} {n : Nat} (h : decodeNum buf = .ok n) :
    n < 65536 ∧ ∃ rest, buf = encodeNum n ++ rest := by
  match buf, h with
  | hi :: lo :: rest, h =>
    cases h
    have hhi := hi.toNat_lt
    have hlo := lo.toNat_lt
    have hdiv : (hi.toNat * 256 + lo.toNat) / 256 = hi.toNat := by omega
    refine ⟨by omega, rest, ?_⟩
    show hi :: lo :: rest = UInt8.ofNat _ :: UInt8.ofNat _ :: rest
    rw [hdiv, UInt8.ofNat_toNat]
    congr 2
    refine UInt8.toNat_inj.mp ?_
    rw [UInt8.toNat_ofNat']
    omega
  | [], h => cases h
  | [_], h => cases h

theorem decodeInt_encodeInt {n : Nat} (h : n < 4294967296) (rest : Bytes) : decodeInt (encodeInt n ++ rest) = .ok n := by
  show Except.ok ((UInt8.ofNat (n / 16777216)).toNat * 16777216 + (UInt8.ofNat (n / 65536)).toNat * 65536 +
    (UInt8.ofNat (n / 256)).toNat * 256 + (UInt8.ofNat n).toNat) = _
  rw [UInt8.toNat_ofNat', UInt8.toNat_ofNat', UInt8.toNat_ofNat', UInt8.toNat_ofNat']
  congr 1
  omega

theorem decodeInt_canonical {buf : Bytes} {n : Nat} (h : decodeInt buf = .ok n) :
    n < 4294967296 ∧ ∃ rest, buf = encodeInt n ++ rest := by
  match buf, h with
  | a :: b :: c :: d :: rest, h =>
    cases h
    have ha := a.toNat_lt
    have hb := b.toNat_lt
    have hc := c.toNat_lt
    have hd := d.toNat_lt
    have hbyte : ∀ (x : UInt8) (m : Nat), m % 256 = x.toNat → UInt8.ofNat m = x := by
      intro x m hm
      refine UInt8.toNat_inj.mp ?_
      rw [UInt8.toNat_ofNat', ← hm]
    refine ⟨by omega, rest, ?_⟩
    show a :: b :: c :: d :: rest = UInt8.ofNat _ :: UInt8.ofNat _ :: UInt8.ofNat _ :: UInt8.ofNat _ :: rest
    rw [hbyte a _ (by omega), hbyte b _ (by omega), hbyte c _ (by omega), hbyte d _ (by omega)]
  | [], h => cases h
  | [_], h => cases h
  | [_, _], h => cases h
  | [_, _, _], h => cases h

/-! ### Strings -/

@[simp]
theorem encodeData_length (data : Bytes) : (encodeData data).length = 2 + data.length := by
  rw [encodeData, List.length_append, encodeNum_length]

theorem decodeString_encodeData {s : Bytes} (hlen : s.length < 65536) (hutf : utf8WellFormed s) (rest : Bytes) :
    decodeString (encodeData s ++ rest) = .ok s := by
  have hnum : decodeNum (encodeData s ++ rest) = .ok s.length := by
    rw [encodeData, List.append_assoc, decodeNum_encodeNum hlen]
  have htake : ((encodeData s ++ rest).drop 2).take s.length = s := by
    rw [encodeData, List.append_assoc, List.drop_left' (encodeNum_length _), List.take_left]
  have hroom : ¬s.length > (encodeData s ++ rest).length - 2 := by
    rw [List.length_append, encodeData_length]
    omega
  simp only [decodeString, hnum, htake, if_neg hroom, hutf, Bool.not_true, Bool.false_eq_true, if_false]

theorem decodeString_canonical {buf s : Bytes} (h : decodeString buf = .ok s) :
    s.length < 65536 ∧ utf8WellFormed s ∧ ∃ rest, buf = encodeData s ++ rest := by
  unfold decodeString at h
  split at h
  · cases h
  next len hlen =>
  obtain ⟨hlt, rest, rfl⟩ := decodeNum_canonical hlen
  rw [List.drop_left' (encodeNum_length _), List.length_append, encodeNum_length] at h
  split at h
  · cases h
  next hroom =>
  split at h
  · cases h
  next hutf =>
  cases h
  have hs : (rest.take len).length = len := by
    rw [List.length_take]
    omega
  refine ⟨by omega, by simpa using hutf, rest.drop len, ?_⟩
  rw [encodeData, hs, List.append_assoc, List.take_append_drop]

end WolfMqtt
