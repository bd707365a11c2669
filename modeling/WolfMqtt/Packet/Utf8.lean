import WolfMqtt.Packet.PropScan

/-! `Utf8WellFormed`, and what it accepts.

The source goes over the bytes with a `word16` as the index. It takes a lead byte and the bytes that this one
asks for, and goes on behind them. What it accepts are the encodings of Unicode scalar values other than U+0000,
one behind the other. -/
namespace WolfMqtt

/-! ### The scan -/

/-- A turn of the loop of `Utf8WellFormed`, at index `i`: the next index, or none where the bytes are malformed. -/
def utf8Next (s : Bytes) (len i : UInt16) : Except Fault (Option UInt16) := do
  let b0 ← readByte s i.toNat
  if b0 = 0x00 then .ok none
  else if b0 < 0x80 then .ok (some (i + 1))
  else if b0 < 0xC2 || b0 > 0xF4 then .ok none
  else if b0 < 0xE0 then
    if i.toNat + 1 ≥ len.toNat then .ok none
    else do
      let b1 ← readByte s (i.toNat + 1)
      if b1 &&& 0xC0 != 0x80 then .ok none else .ok (some (i + 2))
  else if b0 < 0xF0 then
    if i.toNat + 2 ≥ len.toNat then .ok none
    else do
      let b1 ← readByte s (i.toNat + 1)
      let b2 ← readByte s (i.toNat + 2)
      if b1 &&& 0xC0 != 0x80 || b2 &&& 0xC0 != 0x80 then .ok none
      else if b0 = 0xE0 && b1 < 0xA0 then .ok none
      else if b0 = 0xED && b1 ≥ 0xA0 then .ok none
      else .ok (some (i + 3))
  else
    if i.toNat + 3 ≥ len.toNat then .ok none
    else do
      let b1 ← readByte s (i.toNat + 1)
      let b2 ← readByte s (i.toNat + 2)
      let b3 ← readByte s (i.toNat + 3)
      if b1 &&& 0xC0 != 0x80 || b2 &&& 0xC0 != 0x80 || b3 &&& 0xC0 != 0x80 then .ok none
      else if b0 = 0xF0 && b1 < 0x90 then .ok none
      else if b0 = 0xF4 && b1 ≥ 0x90 then .ok none
      else .ok (some (i + 4))

/-- The loop of `Utf8WellFormed`, from index `i` on; none when it has not ended after `fuel` turns. -/
def utf8Loop (s : Bytes) (len : UInt16) : Nat → UInt16 → Except Fault (Option Bool)
  | 0, _ => .ok none
  | fuel + 1, i =>
    if i < len then do
      match ← utf8Next s len i with
      | none => .ok (some false)
      | some i => utf8Loop s len fuel i
    else .ok (some true)

/-- `Utf8WellFormed` of a string in memory of its own: nothing can be read at or past `len`. -/
def scanUtf8 (s : Bytes) : Except Fault (Option Bool) := utf8Loop s (UInt16.ofNat s.length) (s.length + 1) 0

/-- The indices that the loop of `Utf8WellFormed` comes to. -/
inductive Utf8Index (s : Bytes) : UInt16 → Prop
  | start : Utf8Index s 0
  | next {i j : UInt16} (h : Utf8Index s i) (hmore : i < UInt16.ofNat s.length)
      (hnext : utf8Next s (UInt16.ofNat s.length) i = .ok (some j)) : Utf8Index s j

/-! ### One character -/

/-- The encoding of a scalar value, as `String.utf8EncodeChar` has it. -/
theorem utf8EncodeChar_eq (c : Char) : String.utf8EncodeChar c =
    if c.toNat ≤ 0x7F then [UInt8.ofNat c.toNat]
    else if c.toNat ≤ 0x7FF then [UInt8.ofNat (c.toNat / 64 % 32 + 0xC0), UInt8.ofNat (c.toNat % 64 + 0x80)]
    else if c.toNat ≤ 0xFFFF then
      [UInt8.ofNat (c.toNat / 4096 % 16 + 0xE0), UInt8.ofNat (c.toNat / 64 % 64 + 0x80), UInt8.ofNat (c.toNat % 64 + 0x80)]
    else
      [UInt8.ofNat (c.toNat / 262144 % 8 + 0xF0), UInt8.ofNat (c.toNat / 4096 % 64 + 0x80),
        UInt8.ofNat (c.toNat / 64 % 64 + 0x80), UInt8.ofNat (c.toNat % 64 + 0x80)] := rfl

/-- A continuation byte, as the source tests for it. -/
theorem continuation_iff (b : UInt8) : (b &&& 0xC0 != 0x80) = false ↔ 0x80 ≤ b.toNat ∧ b.toNat < 0xC0 := by
  have hall : ∀ n : Fin 256, (UInt8.ofNat n &&& 0xC0 != 0x80) = false ↔
      0x80 ≤ (UInt8.ofNat n).toNat ∧ (UInt8.ofNat n).toNat < 0xC0 := by
    decide +kernel
  have hb := hall ⟨b.toNat, b.toNat_lt⟩
  rwa [UInt8.ofNat_toNat] at hb

theorem scalar_of {n : Nat} (h : n.isValidChar) : ∃ c : Char, c.toNat = n := ⟨Char.ofNatAux n h, rfl⟩

section Ranges
variable {b0 b1 b2 b3 : UInt8} {rest : Bytes}

/-- The tests of a lead byte that is not a character of its own. -/
theorem lead_of (hlow : 0xC2 ≤ b0.toNat) (hhigh : b0.toNat ≤ 0xF4) :
    ¬b0 = 0x00 ∧ ¬b0 < 0x80 ∧ ¬(b0 < 0xC2 || b0 > 0xF4) = true ∧ (b0 < 0xE0 ↔ b0.toNat < 0xE0) ∧
      (b0 < 0xF0 ↔ b0.toNat < 0xF0) := by
  refine ⟨?_, ?_, ?_, UInt8.lt_iff_toNat_lt, UInt8.lt_iff_toNat_lt⟩
  · rintro rfl
    exact absurd hlow (by decide)
  · rw [UInt8.lt_iff_toNat_lt, Nat.not_lt]
    exact Nat.le_trans (by decide) hlow
  · rw [Bool.or_eq_true, decide_eq_true_iff, decide_eq_true_iff, not_or, UInt8.lt_iff_toNat_lt, gt_iff_lt,
      UInt8.lt_iff_toNat_lt]
    exact ⟨Nat.not_lt.mpr hlow, Nat.not_lt.mpr hhigh⟩

theorem wellFormed_one (hb0 : 0 < b0.toNat) (hlt : b0.toNat < 0x80) :
    utf8WellFormed (b0 :: rest) = utf8WellFormed rest := by
  have hzero : ¬b0 = 0 := fun h => by rw [h] at hb0; exact absurd hb0 (by decide)
  rw [utf8WellFormed.eq_def]
  dsimp only
  rw [if_neg hzero, if_pos (UInt8.lt_iff_toNat_lt.mpr hlt)]

theorem wellFormed_two (hb0 : 0xC2 ≤ b0.toNat) (hlt : b0.toNat < 0xE0) (hb1 : 0x80 ≤ b1.toNat ∧ b1.toNat < 0xC0) :
    utf8WellFormed (b0 :: b1 :: rest) = utf8WellFormed rest := by
  obtain ⟨hzero, hone, hlead, htwo, -⟩ := lead_of hb0 (by omega)
  have hc1 := (continuation_iff b1).mpr hb1
  rw [utf8WellFormed.eq_def]
  dsimp only
  rw [if_neg hzero, if_neg hone, if_neg hlead, if_pos (htwo.mpr hlt), hc1, if_neg Bool.false_ne_true]

theorem wellFormed_three (hb0 : 0xE0 ≤ b0.toNat) (hlt : b0.toNat < 0xF0) (hb1 : 0x80 ≤ b1.toNat ∧ b1.toNat < 0xC0)
    (hb2 : 0x80 ≤ b2.toNat ∧ b2.toNat < 0xC0) (hlow : b0.toNat = 0xE0 → 0xA0 ≤ b1.toNat)
    (hhigh : b0.toNat = 0xED → b1.toNat < 0xA0) :
    utf8WellFormed (b0 :: b1 :: b2 :: rest) = utf8WellFormed rest := by
  obtain ⟨hzero, hone, hlead, htwo, hthree⟩ := lead_of (show 0xC2 ≤ b0.toNat by omega) (by omega)
  have hc1 := (continuation_iff b1).mpr hb1
  have hc2 := (continuation_iff b2).mpr hb2
  have hover : ¬(b0 = 0xE0 && b1 < 0xA0) = true := by
    rw [Bool.and_eq_true, decide_eq_true_iff, decide_eq_true_iff, UInt8.lt_iff_toNat_lt]
    rintro ⟨rfl, h⟩
    exact Nat.not_lt.mpr (hlow rfl) h
  have hsurrogate : ¬(b0 = 0xED && b1 ≥ 0xA0) = true := by
    rw [Bool.and_eq_true, decide_eq_true_iff, decide_eq_true_iff, ge_iff_le, UInt8.le_iff_toNat_le]
    rintro ⟨rfl, h⟩
    exact Nat.not_le.mpr (hhigh rfl) h
  rw [utf8WellFormed.eq_def]
  dsimp only
  rw [if_neg hzero, if_neg hone, if_neg hlead, if_neg (by rw [htwo]; omega), if_pos (hthree.mpr hlt), hc1, hc2,
    Bool.or_self, if_neg Bool.false_ne_true, if_neg hover, if_neg hsurrogate]

theorem wellFormed_four (hb0 : 0xF0 ≤ b0.toNat) (hle : b0.toNat ≤ 0xF4) (hb1 : 0x80 ≤ b1.toNat ∧ b1.toNat < 0xC0)
    (hb2 : 0x80 ≤ b2.toNat ∧ b2.toNat < 0xC0) (hb3 : 0x80 ≤ b3.toNat ∧ b3.toNat < 0xC0)
    (hlow : b0.toNat = 0xF0 → 0x90 ≤ b1.toNat) (hhigh : b0.toNat = 0xF4 → b1.toNat < 0x90) :
    utf8WellFormed (b0 :: b1 :: b2 :: b3 :: rest) = utf8WellFormed rest := by
  obtain ⟨hzero, hone, hlead, htwo, hthree⟩ := lead_of (show 0xC2 ≤ b0.toNat by omega) hle
  have hc1 := (continuation_iff b1).mpr hb1
  have hc2 := (continuation_iff b2).mpr hb2
  have hc3 := (continuation_iff b3).mpr hb3
  have hover : ¬(b0 = 0xF0 && b1 < 0x90) = true := by
    rw [Bool.and_eq_true, decide_eq_true_iff, decide_eq_true_iff, UInt8.lt_iff_toNat_lt]
    rintro ⟨rfl, h⟩
    exact Nat.not_lt.mpr (hlow rfl) h
  have habove : ¬(b0 = 0xF4 && b1 ≥ 0x90) = true := by
    rw [Bool.and_eq_true, decide_eq_true_iff, decide_eq_true_iff, ge_iff_le, UInt8.le_iff_toNat_le]
    rintro ⟨rfl, h⟩
    exact Nat.not_le.mpr (hhigh rfl) h
  rw [utf8WellFormed.eq_def]
  dsimp only
  rw [if_neg hzero, if_neg hone, if_neg hlead, if_neg (by rw [htwo]; omega), if_neg (by rw [hthree]; omega), hc1, hc2, hc3,
    Bool.or_self, Bool.or_self, if_neg Bool.false_ne_true, if_neg hover, if_neg habove]

end Ranges

/-- Only the encoding of U+0000 has a zero in it. -/
theorem zero_not_mem_char {c : Char} (hc : c.toNat ≠ 0) : 0 ∉ String.utf8EncodeChar c := by
  have hbyte {n : Nat} (hpos : 0 < n) (hlt : n < 256) : (0 : UInt8) ≠ UInt8.ofNat n := by
    rw [ne_eq, ← UInt8.toNat_inj, UInt8.toNat_ofNat', Nat.mod_eq_of_lt hlt]
    exact Nat.ne_of_lt hpos
  rw [utf8EncodeChar_eq]
  split
  next hone =>
    simp only [List.mem_cons, List.not_mem_nil, or_false]
    exact hbyte (Nat.pos_of_ne_zero hc) (by omega)
  split
  next htwo =>
    simp only [List.mem_cons, List.not_mem_nil, or_false, not_or]
    exact ⟨hbyte (by omega) (by omega), hbyte (by omega) (by omega)⟩
  split
  next hthree =>
    simp only [List.mem_cons, List.not_mem_nil, or_false, not_or]
    exact ⟨hbyte (by omega) (by omega), hbyte (by omega) (by omega), hbyte (by omega) (by omega)⟩
  next hfour =>
    simp only [List.mem_cons, List.not_mem_nil, or_false, not_or]
    exact ⟨hbyte (by omega) (by omega), hbyte (by omega) (by omega), hbyte (by omega) (by omega), hbyte (by omega) (by omega)⟩

/-- The bytes of a character are passed over. -/
theorem wellFormed_char {c : Char} (hc : c.toNat ≠ 0) (rest : Bytes) :
    utf8WellFormed (String.utf8EncodeChar c ++ rest) = utf8WellFormed rest := by
  have hvalid : c.toNat < 0xD800 ∨ 0xDFFF < c.toNat ∧ c.toNat < 0x110000 := c.valid
  rw [utf8EncodeChar_eq]
  generalize c.toNat = n at hc hvalid
  split
  next hone =>
    refine wellFormed_one ?_ ?_ <;> rw [UInt8.toNat_ofNat'] <;> omega
  split
  next htwo =>
    refine wellFormed_two ?_ ?_ ?_ <;> simp only [UInt8.toNat_ofNat'] <;> omega
  split
  next hthree =>
    refine wellFormed_three ?_ ?_ ?_ ?_ ?_ ?_ <;> simp only [UInt8.toNat_ofNat'] <;> omega
  next hfour =>
    refine wellFormed_four ?_ ?_ ?_ ?_ ?_ ?_ ?_ <;> simp only [UInt8.toNat_ofNat'] <;> omega

/-! ### The bytes of one character, read back -/

section Chars
variable {b0 b1 b2 b3 : UInt8}

theorem char_one (hb0 : 0 < b0.toNat) (hlt : b0.toNat < 0x80) :
    ∃ c : Char, c.toNat ≠ 0 ∧ String.utf8EncodeChar c = [b0] := by
  obtain ⟨c, hc⟩ := scalar_of (n := b0.toNat) (.inl (by omega))
  refine ⟨c, by omega, ?_⟩
  rw [utf8EncodeChar_eq, hc, if_pos (by omega), UInt8.ofNat_toNat]

theorem char_two (hb0 : 0xC2 ≤ b0.toNat) (hlt : b0.toNat < 0xE0) (hb1 : 0x80 ≤ b1.toNat ∧ b1.toNat < 0xC0) :
    ∃ c : Char, c.toNat ≠ 0 ∧ String.utf8EncodeChar c = [b0, b1] := by
  obtain ⟨c, hc⟩ := scalar_of (n := (b0.toNat - 0xC0) * 64 + (b1.toNat - 0x80)) (.inl (by omega))
  refine ⟨c, by omega, ?_⟩
  have h0 : UInt8.ofNat (c.toNat / 64 % 32 + 0xC0) = b0 := by
    rw [← UInt8.toNat_inj, UInt8.toNat_ofNat']
    omega
  have h1 : UInt8.ofNat (c.toNat % 64 + 0x80) = b1 := by
    rw [← UInt8.toNat_inj, UInt8.toNat_ofNat']
    omega
  rw [utf8EncodeChar_eq, if_neg (by omega), if_pos (by omega), h0, h1]

theorem char_three (hb0 : 0xE0 ≤ b0.toNat) (hlt : b0.toNat < 0xF0) (hb1 : 0x80 ≤ b1.toNat ∧ b1.toNat < 0xC0)
    (hb2 : 0x80 ≤ b2.toNat ∧ b2.toNat < 0xC0) (hlow : b0.toNat = 0xE0 → 0xA0 ≤ b1.toNat)
    (hhigh : b0.toNat = 0xED → b1.toNat < 0xA0) :
    ∃ c : Char, c.toNat ≠ 0 ∧ String.utf8EncodeChar c = [b0, b1, b2] := by
  have hvalid : Nat.isValidChar ((b0.toNat - 0xE0) * 4096 + (b1.toNat - 0x80) * 64 + (b2.toNat - 0x80)) := by
    rcases Nat.lt_or_ge b0.toNat 0xED with hbelow | habove
    · exact .inl (by omega)
    rcases Nat.eq_or_lt_of_le habove with heq | habove
    · have hlt := hhigh heq.symm
      exact .inl (by omega)
    · exact .inr ⟨by omega, by omega⟩
  obtain ⟨c, hc⟩ := scalar_of hvalid
  have hmore : 0x7FF < c.toNat := by
    rcases Nat.eq_or_lt_of_le hb0 with heq | habove
    · have hle := hlow heq.symm
      omega
    · omega
  have h0 : UInt8.ofNat (c.toNat / 4096 % 16 + 0xE0) = b0 := by
    rw [← UInt8.toNat_inj, UInt8.toNat_ofNat']
    omega
  have h1 : UInt8.ofNat (c.toNat / 64 % 64 + 0x80) = b1 := by
    rw [← UInt8.toNat_inj, UInt8.toNat_ofNat']
    omega
  have h2 : UInt8.ofNat (c.toNat % 64 + 0x80) = b2 := by
    rw [← UInt8.toNat_inj, UInt8.toNat_ofNat']
    omega
  refine ⟨c, by omega, ?_⟩
  rw [utf8EncodeChar_eq, if_neg (by omega), if_neg (by omega), if_pos (by omega), h0, h1, h2]

theorem char_four (hb0 : 0xF0 ≤ b0.toNat) (hle : b0.toNat ≤ 0xF4) (hb1 : 0x80 ≤ b1.toNat ∧ b1.toNat < 0xC0)
    (hb2 : 0x80 ≤ b2.toNat ∧ b2.toNat < 0xC0) (hb3 : 0x80 ≤ b3.toNat ∧ b3.toNat < 0xC0)
    (hlow : b0.toNat = 0xF0 → 0x90 ≤ b1.toNat) (hhigh : b0.toNat = 0xF4 → b1.toNat < 0x90) :
    ∃ c : Char, c.toNat ≠ 0 ∧ String.utf8EncodeChar c = [b0, b1, b2, b3] := by
  have hbound : 0x10000 ≤ (b0.toNat - 0xF0) * 262144 + (b1.toNat - 0x80) * 4096 + (b2.toNat - 0x80) * 64 + (b3.toNat - 0x80) ∧
      (b0.toNat - 0xF0) * 262144 + (b1.toNat - 0x80) * 4096 + (b2.toNat - 0x80) * 64 + (b3.toNat - 0x80) < 0x110000 := by
    rcases Nat.lt_or_ge b0.toNat 0xF4 with hbelow | habove
    · rcases Nat.eq_or_lt_of_le hb0 with heq | hmore
      · have hle := hlow heq.symm
        omega
      · omega
    · have hlt := hhigh (by omega)
      omega
  obtain ⟨c, hc⟩ := scalar_of (.inr ⟨by omega, hbound.2⟩)
  rw [← hc] at hbound
  have h0 : UInt8.ofNat (c.toNat / 262144 % 8 + 0xF0) = b0 := by
    rw [← UInt8.toNat_inj, UInt8.toNat_ofNat']
    omega
  have h1 : UInt8.ofNat (c.toNat / 4096 % 64 + 0x80) = b1 := by
    rw [← UInt8.toNat_inj, UInt8.toNat_ofNat']
    omega
  have h2 : UInt8.ofNat (c.toNat / 64 % 64 + 0x80) = b2 := by
    rw [← UInt8.toNat_inj, UInt8.toNat_ofNat']
    omega
  have h3 : UInt8.ofNat (c.toNat % 64 + 0x80) = b3 := by
    rw [← UInt8.toNat_inj, UInt8.toNat_ofNat']
    omega
  refine ⟨c, by omega, ?_⟩
  rw [utf8EncodeChar_eq, if_neg (by omega), if_neg (by omega), if_neg (by omega), h0, h1, h2, h3]

end Chars

/-! ### Strings of characters -/

/-- The encodings of scalar values other than U+0000, one behind the other. -/
def MqttUtf8 (s : Bytes) : Prop := ∃ cs : List Char, (∀ c ∈ cs, c.toNat ≠ 0) ∧ s = cs.flatMap String.utf8EncodeChar

theorem MqttUtf8.nil : MqttUtf8 [] := ⟨[], nofun, rfl⟩

theorem MqttUtf8.cons {c : Char} {s : Bytes} (hc : c.toNat ≠ 0) (hs : MqttUtf8 s) :
    MqttUtf8 (String.utf8EncodeChar c ++ s) := by
  obtain ⟨cs, hcs, rfl⟩ := hs
  exact ⟨c :: cs, List.forall_mem_cons.mpr ⟨hc, hcs⟩, rfl⟩

theorem MqttUtf8.zero_not_mem {s : Bytes} (hs : MqttUtf8 s) : (0 : UInt8) ∉ s := by
  obtain ⟨cs, hcs, rfl⟩ := hs
  intro hmem
  obtain ⟨c, hc, hin⟩ := List.mem_flatMap.mp hmem
  exact zero_not_mem_char (hcs c hc) hin

/-- The tests of the first byte, as bounds. -/
theorem lead_bounds {b0 : UInt8} (hlead : ¬(b0 < 0xC2 || b0 > 0xF4) = true) : 0xC2 ≤ b0.toNat ∧ b0.toNat ≤ 0xF4 := by
  rw [Bool.or_eq_true, decide_eq_true_iff, decide_eq_true_iff, not_or, UInt8.lt_iff_toNat_lt, gt_iff_lt,
    UInt8.lt_iff_toNat_lt] at hlead
  exact ⟨Nat.not_lt.mp hlead.1, Nat.not_lt.mp hlead.2⟩

/-- A lower bound on the second byte behind one lead byte, as the source tests for it. -/
theorem second_least {b0 b1 lead low : UInt8} (h : ¬(b0 = lead && b1 < low) = true) (hb0 : b0.toNat = lead.toNat) :
    low.toNat ≤ b1.toNat := by
  rw [Bool.and_eq_true, decide_eq_true_iff, decide_eq_true_iff, UInt8.lt_iff_toNat_lt] at h
  exact Nat.not_lt.mp fun hlt => h ⟨UInt8.toNat_inj.mp hb0, hlt⟩

/-- An upper bound on the second byte behind one lead byte, as the source tests for it. -/
theorem second_most {b0 b1 lead high : UInt8} (h : ¬(b0 = lead && b1 ≥ high) = true) (hb0 : b0.toNat = lead.toNat) :
    b1.toNat < high.toNat := by
  rw [Bool.and_eq_true, decide_eq_true_iff, decide_eq_true_iff, ge_iff_le, UInt8.le_iff_toNat_le] at h
  exact Nat.not_le.mp fun hle => h ⟨UInt8.toNat_inj.mp hb0, hle⟩

theorem mqttUtf8_of_wellFormed {s : Bytes} (h : utf8WellFormed s = true) : MqttUtf8 s := by
  have hcont {b : UInt8} (hb : ¬(b &&& 0xC0 != 0x80) = true) : 0x80 ≤ b.toNat ∧ b.toNat < 0xC0 :=
    (continuation_iff b).mp (Bool.not_eq_true _ ▸ hb)
  fun_induction utf8WellFormed s with
  | case1 => exact .nil
  | case3 b₀ rest hzero hone ih =>
    have hpos : 0 < b₀.toNat := Nat.pos_of_ne_zero fun h => hzero (UInt8.toNat_inj.mp h)
    obtain ⟨c, hc, heq⟩ := char_one hpos (UInt8.lt_iff_toNat_lt.mp hone)
    show MqttUtf8 ([b₀] ++ rest)
    exact heq ▸ .cons hc (ih h)
  | case6 b₀ hzero hone hlead htwo b₁ tail hb ih =>
    obtain ⟨c, hc, heq⟩ := char_two (lead_bounds hlead).1 (UInt8.lt_iff_toNat_lt.mp htwo) (hcont hb)
    show MqttUtf8 ([b₀, b₁] ++ tail)
    exact heq ▸ .cons hc (ih h)
  | case11 b₀ hzero hone hlead htwo hthree b₁ b₂ tail hb hover hsurrogate ih =>
    rw [Bool.or_eq_true, not_or] at hb
    rw [UInt8.lt_iff_toNat_lt] at htwo
    obtain ⟨c, hc, heq⟩ := char_three (Nat.not_lt.mp htwo) (UInt8.lt_iff_toNat_lt.mp hthree) (hcont hb.1) (hcont hb.2)
      (second_least hover) (second_most hsurrogate)
    show MqttUtf8 ([b₀, b₁, b₂] ++ tail)
    exact heq ▸ .cons hc (ih h)
  | case16 b₀ hzero hone hlead htwo hthree b₁ b₂ b₃ tail hb hover habove ih =>
    rw [Bool.or_eq_true, Bool.or_eq_true, not_or, not_or] at hb
    rw [UInt8.lt_iff_toNat_lt] at hthree
    obtain ⟨c, hc, heq⟩ := char_four (Nat.not_lt.mp hthree) (lead_bounds hlead).2 (hcont hb.1.1) (hcont hb.1.2) (hcont hb.2)
      (second_least hover) (second_most habove)
    show MqttUtf8 ([b₀, b₁, b₂, b₃] ++ tail)
    exact heq ▸ .cons hc (ih h)
  | _ => cases h

/-- What the test accepts are the strings of characters other than U+0000. -/
theorem utf8WellFormed_iff_mqttUtf8 {s : Bytes} : utf8WellFormed s = true ↔ MqttUtf8 s := by
  refine ⟨mqttUtf8_of_wellFormed, ?_⟩
  rintro ⟨cs, hcs, rfl⟩
  induction cs with
  | nil => rfl
  | cons c cs ih =>
    rw [List.forall_mem_cons] at hcs
    rw [List.flatMap_cons, wellFormed_char hcs.1]
    exact ih hcs.2

/-! ### The index -/

/-- What a turn of the loop makes of the bytes from its index on. -/
inductive Utf8Turn (s : Bytes) (i : UInt16) : Except Fault (Option UInt16) → Prop
  | stops (h : utf8WellFormed (s.drop i.toNat) = false) : Utf8Turn s i (.ok none)
  | passes {j : UInt16} (hmore : i.toNat < j.toNat) (hend : j.toNat ≤ s.length)
      (h : utf8WellFormed (s.drop i.toNat) = utf8WellFormed (s.drop j.toNat)) : Utf8Turn s i (.ok (some j))

section Turn
variable {s : Bytes} {i : UInt16}

theorem lt_length_iff (hlen : s.length < 65536) : i < UInt16.ofNat s.length ↔ i.toNat < s.length := by
  have hto : (UInt16.ofNat s.length).toNat = s.length := UInt16.toNat_ofNat_of_lt hlen
  rw [UInt16.lt_iff_toNat_lt, hto]

/-- A turn that takes `k` bytes. -/
theorem Utf8Turn.pass {k : Nat} (hlen : s.length < 65536) (hpos : 0 < k) (hend : i.toNat + k ≤ s.length)
    (h : utf8WellFormed (s.drop i.toNat) = utf8WellFormed ((s.drop i.toNat).drop k)) :
    Utf8Turn s i (.ok (some (i + UInt16.ofNat k))) := by
  have hj : (i + UInt16.ofNat k).toNat = i.toNat + k := by
    rw [UInt16.toNat_add, UInt16.toNat_ofNat']
    omega
  rw [List.drop_drop] at h
  exact .passes (by omega) (by omega) (hj ▸ h)

/-- A turn reads inside the string; it stops at bytes that are malformed, and takes the character otherwise. -/
theorem utf8Next_turn (hlen : s.length < 65536) (hi : i.toNat < s.length) :
    Utf8Turn s i (utf8Next s (UInt16.ofNat s.length) i) := by
  have hto : (UInt16.ofNat s.length).toNat = s.length := UInt16.toNat_ofNat_of_lt hlen
  obtain ⟨b0, rest, hdrop⟩ : ∃ b0 rest, s.drop i.toNat = b0 :: rest :=
    List.exists_cons_of_ne_nil (by rw [ne_eq, List.drop_eq_nil_iff]; omega)
  have hread {k : Nat} {b : UInt8} (h : (b0 :: rest)[k]? = some b) : readByte s (i.toNat + k) = .ok b :=
    readByte_of_drop (hdrop ▸ h)
  have hroom : i.toNat + (rest.length + 1) = s.length := by
    have := congrArg List.length hdrop
    rw [List.length_drop, List.length_cons] at this
    omega
  have hpass {k : Nat} {tail : Bytes} (hpos : 0 < k) (hk : k ≤ rest.length + 1) (htail : (b0 :: rest).drop k = tail)
      (h : utf8WellFormed (b0 :: rest) = utf8WellFormed tail) : Utf8Turn s i (.ok (some (i + UInt16.ofNat k))) :=
    .pass hlen hpos (by omega) (by rw [hdrop, htail]; exact h)
  have hstop (h : utf8WellFormed (b0 :: rest) = false) : Utf8Turn s i (.ok none) := .stops (hdrop ▸ h)
  have hb0 : readByte s i.toNat = .ok b0 := hread (k := 0) rfl
  have hwf := utf8WellFormed.eq_def (b0 :: rest)
  dsimp only at hwf
  rw [utf8Next, hb0, hto]
  show Utf8Turn s i (if b0 = 0x00 then _ else _)
  by_cases hzero : b0 = 0x00
  · rw [if_pos hzero] at hwf ⊢
    exact hstop hwf
  rw [if_neg hzero] at hwf ⊢
  by_cases hone : b0 < 0x80
  · rw [if_pos hone] at hwf ⊢
    exact hpass (k := 1) Nat.one_pos (by omega) rfl hwf
  rw [if_neg hone] at hwf ⊢
  by_cases hlead : (b0 < 0xC2 || b0 > 0xF4) = true
  · rw [if_pos hlead] at hwf ⊢
    exact hstop hwf
  rw [if_neg hlead] at hwf ⊢
  by_cases htwo : b0 < 0xE0
  · rw [if_pos htwo] at hwf ⊢
    cases rest with
    | nil =>
      rw [if_pos (by simp only [List.length_nil] at hroom; omega)]
      exact hstop hwf
    | cons b1 tail =>
      rw [if_neg (by simp only [List.length_cons] at hroom; omega), hread (k := 1) rfl]
      show Utf8Turn s i (if (b1 &&& 0xC0 != 0x80) = true then _ else _)
      dsimp only at hwf
      split at hwf
      next hb => exact if_pos hb ▸ hstop hwf
      next hb => exact if_neg hb ▸ hpass (k := 2) Nat.two_pos (by simp) rfl hwf
  rw [if_neg htwo] at hwf ⊢
  by_cases hthree : b0 < 0xF0
  · rw [if_pos hthree] at hwf ⊢
    match rest with
    | [] | [_] =>
      rw [if_pos (by simp only [List.length_nil, List.length_cons] at hroom; omega)]
      exact hstop hwf
    | b1 :: b2 :: tail =>
      rw [if_neg (by simp only [List.length_cons] at hroom; omega), hread (k := 1) rfl, hread (k := 2) rfl]
      show Utf8Turn s i (if (b1 &&& 0xC0 != 0x80 || b2 &&& 0xC0 != 0x80) = true then _
        else if _ then _ else if _ then _ else _)
      dsimp only at hwf
      split at hwf
      next hb => exact if_pos hb ▸ hstop hwf
      next hb =>
      rw [if_neg hb]
      split at hwf
      next hover => exact if_pos hover ▸ hstop hwf
      next hover =>
      rw [if_neg hover]
      split at hwf
      next hsurrogate => exact if_pos hsurrogate ▸ hstop hwf
      next hsurrogate => exact if_neg hsurrogate ▸ hpass (k := 3) (Nat.succ_pos 2) (by simp) rfl hwf
  · rw [if_neg hthree] at hwf ⊢
    match rest with
    | [] | [_] | [_, _] =>
      rw [if_pos (by simp only [List.length_nil, List.length_cons] at hroom; omega)]
      exact hstop hwf
    | b1 :: b2 :: b3 :: tail =>
      rw [if_neg (by simp only [List.length_cons] at hroom; omega), hread (k := 1) rfl, hread (k := 2) rfl, hread (k := 3) rfl]
      show Utf8Turn s i (if (b1 &&& 0xC0 != 0x80 || b2 &&& 0xC0 != 0x80 || b3 &&& 0xC0 != 0x80) = true then _
        else if _ then _ else if _ then _ else _)
      dsimp only at hwf
      split at hwf
      next hb => exact if_pos hb ▸ hstop hwf
      next hb =>
      rw [if_neg hb]
      split at hwf
      next hover => exact if_pos hover ▸ hstop hwf
      next hover =>
      rw [if_neg hover]
      split at hwf
      next habove => exact if_pos habove ▸ hstop hwf
      next habove => exact if_neg habove ▸ hpass (k := 4) (Nat.succ_pos 3) (by simp) rfl hwf

/-- The loop ends within as many turns as there are bytes, and one more. -/
theorem utf8Loop_eq (hlen : s.length < 65536) {fuel : Nat} (hi : i.toNat ≤ s.length) (hfuel : s.length < i.toNat + fuel) :
    utf8Loop s (UInt16.ofNat s.length) fuel i = .ok (some (utf8WellFormed (s.drop i.toNat))) := by
  induction fuel generalizing i with
  | zero => omega
  | succ fuel ih =>
    rw [utf8Loop]
    split
    next hmore =>
      have hturn := utf8Next_turn hlen ((lt_length_iff hlen).mp hmore)
      generalize utf8Next s (UInt16.ofNat s.length) i = got at hturn ⊢
      cases hturn with
      | stops h => rw [h]; rfl
      | passes hup hend h => rw [h]; exact ih hend (by omega)
    next hend =>
      rw [lt_length_iff hlen, Nat.not_lt] at hend
      rw [List.drop_eq_nil_of_le hend]
      rfl

/-- The loop never leaves the string, and every turn that goes on goes up. -/
theorem Utf8Index.inside (hlen : s.length < 65536) (h : Utf8Index s i) : i.toNat ≤ s.length := by
  induction h with
  | start => exact Nat.zero_le _
  | next _ hmore hnext _ =>
    have hturn := utf8Next_turn hlen ((lt_length_iff hlen).mp hmore)
    rw [hnext] at hturn
    cases hturn with
    | passes _ hend _ => exact hend

/-- The loop decides what the test over the bytes as a list decides. -/
theorem scanUtf8_eq (hlen : s.length < 65536) : scanUtf8 s = .ok (some (utf8WellFormed s)) :=
  utf8Loop_eq hlen (Nat.zero_le _) (by omega)

end Turn

/-- `Utf8WellFormed` ends, reads nothing outside the string and accepts the strings of characters other than U+0000;
its index stays inside the string and goes up in every turn that goes on. -/
theorem scanUtf8_exact {s : Bytes} (hlen : s.length ≤ 65535) :
    (∃ b, scanUtf8 s = .ok (some b)) ∧
    (scanUtf8 s = .ok (some true) ↔
      ∃ cs : List Char, (∀ c ∈ cs, c.toNat ≠ 0) ∧ s = cs.flatMap String.utf8EncodeChar) ∧
    ∀ i, Utf8Index s i → i.toNat ≤ s.length ∧ (i < UInt16.ofNat s.length →
      ∃ next, utf8Next s (UInt16.ofNat s.length) i = .ok next ∧ ∀ j, next = some j → i.toNat < j.toNat) := by
  have hlen : s.length < 65536 := by omega
  refine ⟨⟨_, scanUtf8_eq hlen⟩, ?_, fun i hi => ⟨hi.inside hlen, fun hmore => ?_⟩⟩
  · rw [scanUtf8_eq hlen, ← MqttUtf8, ← utf8WellFormed_iff_mqttUtf8]
    simp
  · have hturn := utf8Next_turn hlen ((lt_length_iff hlen).mp hmore)
    generalize utf8Next s (UInt16.ofNat s.length) i = got at hturn ⊢
    cases hturn with
    | stops _ => exact ⟨none, rfl, nofun⟩
    | passes hup _ _ => exact ⟨_, rfl, fun _ h => Option.some.inj h ▸ hup⟩

/-- U+00E9, the letter e with an acute accent. -/
theorem scanUtf8_exact_accent : scanUtf8 [0xC3, 0xA9] = .ok (some true) :=
  (scanUtf8_exact (s := [0xC3, 0xA9]) (by decide)).2.1.mpr
    ⟨[Char.ofNat 0xE9], List.forall_mem_singleton.mpr (by decide), rfl⟩

end WolfMqtt
