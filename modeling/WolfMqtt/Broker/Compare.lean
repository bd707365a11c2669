import WolfMqtt.Broker.Connect
import WolfMqtt.Lib.Agree
import WolfMqtt.Packet.PropScan

/-! The comparison of credentials: `BrokerBufCompare`, `BrokerStrLenBounded` and `BrokerStrCompare`.

They take the same steps whatever they are given. Indices past the end of an input are
masked to 0, that the lengths differ is folded into the result, and the length of a
string is counted in a loop that goes on after its NUL. A read past the end of what is
given is an `overrun`. -/
namespace WolfMqtt.Broker
open Agree (ok_bind)

/-! ### Bytes -/

/-- An index of the comparison: 0 from the length of its input on. -/
def clampIndex (i len : Nat) : Nat :=
  let mask : BitVec 32 := 0 - (if i < len then 1 else 0)
  (BitVec.ofNat 32 i &&& mask).toNat

/-- How the bytes differ that one turn looks at. -/
def bytesDiffer (a : Bytes) (lenA : Nat) (b : Bytes) (lenB : Nat) (i : Nat) : Except Fault (BitVec 32) := do
  let x ← readByte a (clampIndex i lenA)
  let y ← readByte b (clampIndex i lenB)
  .ok (x.toBitVec.setWidth 32 ^^^ y.toBitVec.setWidth 32)

def bufCompareLoop (a : Bytes) (lenA : Nat) (b : Bytes) (lenB : Nat) : Nat → Nat → BitVec 32 → Except Fault (BitVec 32)
  | 0, _, result => .ok result
  | turns + 1, i, result => do
    let diff ← bytesDiffer a lenA b lenB i
    bufCompareLoop a lenA b lenB turns (i + 1) (result ||| diff)

/-- `BrokerBufCompare`: 0 if equal. -/
def bufCompare (a : Bytes) (lenA : Nat) (b : Bytes) (lenB cmpLen : Nat) : Except Fault (BitVec 32) := do
  let result ← bufCompareLoop a lenA b lenB cmpLen 0 0
  let result := result ||| (BitVec.ofNat 32 lenA ^^^ BitVec.ofNat 32 lenB)
  let result := result ||| (if lenA ≥ cmpLen then 1 else 0)
  .ok (result ||| (if lenB ≥ cmpLen then 1 else 0))

/-- The variables of `BrokerStrLenBounded`. -/
structure StrScan where
  len : Nat := 0
  idx : Nat := 0
  done : Bool := false
deriving Repr, DecidableEq

def strLenLoop (s : Bytes) : Nat → StrScan → Except Fault StrScan
  | 0, t => .ok t
  | turns + 1, t => do
    let c ← readByte s t.idx
    let done := t.done || c = 0
    strLenLoop s turns {len := t.len + (if done then 0 else 1), idx := t.idx + (if done then 0 else 1), done}

/-- `BrokerStrLenBounded` -/
def strLenBounded (s : Bytes) (maxLen : Nat) : Except Fault Nat := do
  let t ← strLenLoop s maxLen {}
  .ok t.len

/-- `BrokerStrCompare` -/
def strCompare (a b : Bytes) (cmpLen : Nat) : Except Fault (BitVec 32) := do
  let lenA ← strLenBounded a cmpLen
  let lenB ← strLenBounded b cmpLen
  bufCompare a lenA b lenB cmpLen

section comparison
variable {a b : Bytes} {lenA lenB : Nat}

theorem clampIndex_eq {i : Nat} (len : Nat) (hi : i < 4294967296) : clampIndex i len = if i < len then i else 0 := by
  unfold clampIndex
  dsimp only
  by_cases h : i < len
  · rw [if_pos h, if_pos h, show (0 - 1 : BitVec 32) = BitVec.allOnes 32 from by decide, BitVec.and_allOnes,
      BitVec.toNat_ofNat, Nat.mod_eq_of_lt hi]
  · rw [if_neg h, if_neg h, show (0 - 0 : BitVec 32) = 0#32 from rfl, BitVec.and_zero]
    rfl

theorem readByte_getElem {rx : Bytes} {i : Nat} (h : i < rx.length) : readByte rx i = .ok rx[i] := by
  rw [readByte, List.getElem?_eq_getElem h]

/-- The byte that a turn looks at. -/
def selected (a : Bytes) (len i : Nat) : UInt8 := a.getD (if i < len then i else 0) 0

theorem readByte_clampIndex {i : Nat} (ha : 0 < a.length) (hlen : lenA ≤ a.length) (hi : i < 4294967296) :
    readByte a (clampIndex i lenA) = .ok (selected a lenA i) := by
  have hlt : (if i < lenA then i else 0) < a.length := by
    split
    · omega
    · exact ha
  rw [clampIndex_eq lenA hi, readByte_getElem hlt, selected, List.getD_eq_getElem?_getD, List.getElem?_eq_getElem hlt]
  rfl

theorem bytesDiffer_spec {i : Nat} (ha : 0 < a.length) (hlenA : lenA ≤ a.length) (hb : 0 < b.length)
    (hlenB : lenB ≤ b.length) (hi : i < 4294967296) :
    ∃ diff, bytesDiffer a lenA b lenB i = .ok diff ∧ (diff = 0 ↔ selected a lenA i = selected b lenB i) := by
  refine ⟨(selected a lenA i).toBitVec.setWidth 32 ^^^ (selected b lenB i).toBitVec.setWidth 32, ?_, ?_⟩
  · rw [bytesDiffer, readByte_clampIndex ha hlenA hi, readByte_clampIndex hb hlenB hi]
    rfl
  · constructor
    · intro h
      have heq := congrArg (BitVec.setWidth 8) (BitVec.xor_eq_zero_iff.mp h)
      rw [BitVec.setWidth_setWidth_of_le _ (by decide), BitVec.setWidth_setWidth_of_le _ (by decide),
        BitVec.setWidth_eq, BitVec.setWidth_eq] at heq
      exact UInt8.toBitVec_inj.mp heq
    · intro h
      rw [h]
      exact BitVec.xor_self

theorem or_eq_zero {x y : BitVec 32} : x ||| y = 0 ↔ x = 0 ∧ y = 0 := BitVec.or_eq_zero_iff

theorem xor_eq_zero {x y : BitVec 32} : x ^^^ y = 0 ↔ x = y := BitVec.xor_eq_zero_iff

/-- The loop reads inside its inputs, and finds nothing where the bytes it looks at are the same. -/
theorem bufCompareLoop_spec (ha : 0 < a.length) (hlenA : lenA ≤ a.length) (hb : 0 < b.length) (hlenB : lenB ≤ b.length)
    (turns : Nat) : ∀ (i : Nat) (result : BitVec 32), i + turns ≤ 4294967296 →
      ∃ out, bufCompareLoop a lenA b lenB turns i result = .ok out ∧
        (out = 0 ↔ result = 0 ∧ ∀ j, i ≤ j → j < i + turns → selected a lenA j = selected b lenB j) := by
  induction turns with
  | zero =>
    intro i result _
    exact ⟨result, rfl, fun h => ⟨h, fun j hij hji => by omega⟩, fun h => h.1⟩
  | succ turns ih =>
    intro i result hturns
    obtain ⟨diff, hdiff, hzero⟩ := bytesDiffer_spec ha hlenA hb hlenB (show i < 4294967296 by omega)
    obtain ⟨out, hout, hiff⟩ := ih (i + 1) (result ||| diff) (by omega)
    refine ⟨out, ?_, hiff.trans ?_⟩
    · rw [bufCompareLoop, hdiff]
      exact hout
    rw [or_eq_zero, hzero]
    constructor
    · intro h
      refine ⟨h.1.1, fun j hij hji => ?_⟩
      rcases Nat.eq_or_lt_of_le hij with rfl | hlt
      · exact h.1.2
      · exact h.2 j hlt (by omega)
    · intro h
      exact ⟨⟨h.1, h.2 i (Nat.le_refl _) (by omega)⟩, fun j hij hji => h.2 j (by omega) (by omega)⟩

theorem flag_eq_zero {p : Prop} [Decidable p] : (if p then 1 else 0 : BitVec 32) = 0 ↔ ¬p := by
  split
  · exact ⟨fun h => absurd h (by decide), fun h => absurd ‹p› h⟩
  · exact ⟨fun _ => ‹¬p›, fun _ => rfl⟩

theorem ofNat_inj_of_lt {m n : Nat} (hm : m < 4294967296) (hn : n < 4294967296) :
    BitVec.ofNat 32 m = BitVec.ofNat 32 n ↔ m = n := by
  rw [← BitVec.toNat_inj, BitVec.toNat_ofNat, BitVec.toNat_ofNat, Nat.mod_eq_of_lt hm, Nat.mod_eq_of_lt hn]

/-- Below a bound that the length stays under, the turns see every byte of the inputs. -/
theorem take_eq_take_iff {cmpLen len : Nat} (hlenA : len ≤ a.length) (hlenB : len ≤ b.length) (hlt : len < cmpLen)
    (hfront : len = 0 → a.getD 0 0 = b.getD 0 0) :
    a.take len = b.take len ↔ ∀ j, 0 ≤ j → j < 0 + cmpLen → selected a len j = selected b len j := by
  have hget {x : Bytes} {j : Nat} (hlen : len ≤ x.length) (hj : j < len) : (x.take len)[j]? = some (selected x len j) := by
    rw [List.getElem?_take_of_lt hj, selected, if_pos hj, List.getD_eq_getElem?_getD,
      List.getElem?_eq_getElem (show j < x.length by omega)]
    rfl
  constructor
  · intro h j _ _
    have hsame (k : Nat) (hk : k < len) : selected a len k = selected b len k := by
      have heq : (a.take len)[k]? = (b.take len)[k]? := by rw [h]
      rw [hget hlenA hk, hget hlenB hk] at heq
      exact Option.some.inj heq
    by_cases hj : j < len
    · exact hsame j hj
    rw [selected, selected, if_neg hj]
    by_cases hzero : len = 0
    · exact hfront hzero
    · have h₀ := hsame 0 (by omega)
      rwa [selected, selected, if_pos (by omega)] at h₀
  · intro h
    refine List.ext_getElem? fun j => ?_
    by_cases hj : j < len
    · rw [hget hlenA hj, hget hlenB hj, h j (Nat.zero_le _) (by omega)]
    · rw [List.getElem?_take_eq_none (by omega), List.getElem?_take_eq_none (by omega)]

/-- What the comparison decides. Of two empty inputs it looks at what stands in front. -/
theorem bufCompare_spec {lenA lenB cmpLen : Nat} (ha : 0 < a.length) (hlenA : lenA ≤ a.length) (hb : 0 < b.length)
    (hlenB : lenB ≤ b.length) (hA : lenA < 4294967296) (hB : lenB < 4294967296) (hcmp : cmpLen ≤ 4294967296)
    (hfront : lenA = 0 → lenB = 0 → 0 < cmpLen → a.getD 0 0 = b.getD 0 0) :
    ∃ out, bufCompare a lenA b lenB cmpLen = .ok out ∧
      (out = 0 ↔ bufEqual cmpLen (a.take lenA) (b.take lenB) = true) := by
  obtain ⟨out, hout, hiff⟩ := bufCompareLoop_spec ha hlenA hb hlenB cmpLen 0 0 (by omega)
  refine ⟨_, by rw [bufCompare, hout]; rfl, ?_⟩
  have htakeA : (a.take lenA).length = lenA := by rw [List.length_take, Nat.min_eq_left hlenA]
  have htakeB : (b.take lenB).length = lenB := by rw [List.length_take, Nat.min_eq_left hlenB]
  rw [or_eq_zero, or_eq_zero, or_eq_zero, xor_eq_zero, flag_eq_zero, flag_eq_zero,
    ofNat_inj_of_lt hA hB, hiff, bufEqual, Bool.and_eq_true, decide_eq_true_eq, decide_eq_true_eq, htakeA]
  constructor
  · rintro ⟨⟨⟨⟨-, hsame⟩, rfl⟩, hlt⟩, -⟩
    exact ⟨(take_eq_take_iff hlenA hlenB (by omega) fun h => hfront h h (by omega)).mpr hsame, by omega⟩
  · rintro ⟨heq, hlt⟩
    have hlen : lenA = lenB := by rw [← htakeA, heq, htakeB]
    subst hlen
    have hsame := (take_eq_take_iff hlenA hlenB hlt fun h => hfront h h (by omega)).mp heq
    exact ⟨⟨⟨⟨rfl, hsame⟩, rfl⟩, by omega⟩, by omega⟩

/-! ### Strings -/

/-- A string stands at the front of the memory, with its NUL. -/
structure IsCString (memory str : Bytes) : Prop where
  noNul : 0 ∉ str
  stands : str ++ [0] <+: memory

namespace IsCString

theorem lt_length {memory str : Bytes} (h : IsCString memory str) : str.length < memory.length := by
  have hle := h.stands.length_le
  rw [List.length_append] at hle
  exact hle

theorem getElem?_of_lt {memory str : Bytes} (h : IsCString memory str) {i : Nat} (hi : i < str.length) :
    memory[i]? = some str[i] := by
  obtain ⟨rest, rfl⟩ := h.stands
  rw [List.append_assoc, List.getElem?_append_left hi, List.getElem?_eq_getElem hi]

theorem getElem?_length {memory str : Bytes} (h : IsCString memory str) : memory[str.length]? = some 0 := by
  obtain ⟨rest, rfl⟩ := h.stands
  rw [List.append_assoc, List.getElem?_append_right (Nat.le_refl _), Nat.sub_self]
  rfl

theorem take {memory str : Bytes} (h : IsCString memory str) {n : Nat} (hn : n ≤ str.length) :
    memory.take n = str.take n := by
  obtain ⟨rest, rfl⟩ := h.stands
  rw [List.append_assoc, List.take_append_of_le_length hn]

end IsCString

/-- The scan for the NUL counts one byte each turn until it stands on it. -/
theorem strLenLoop_spec {memory str : Bytes} (h : IsCString memory str) (turns : Nat) : ∀ (k : Nat) (done : Bool),
    k ≤ str.length → (done = true → k = str.length) →
      ∃ done', strLenLoop memory turns ⟨k, k, done⟩ =
        .ok ⟨min (k + turns) str.length, min (k + turns) str.length, done'⟩ := by
  induction turns with
  | zero =>
    intro k done hk _
    exact ⟨done, by rw [Nat.add_zero, Nat.min_eq_left hk]; rfl⟩
  | succ turns ih =>
    intro k done hk hdone
    by_cases hlt : k < str.length
    · have hread : readByte memory k = .ok str[k] := by rw [readByte, h.getElem?_of_lt hlt]
      have hnul : ¬str[k] = 0 := fun heq => h.noNul (heq ▸ List.getElem_mem hlt)
      have hnot : done = false := Bool.eq_false_iff.mpr fun heq => absurd (hdone heq) (by omega)
      obtain ⟨done', hrest⟩ := ih (k + 1) false (by omega) (fun h => Bool.noConfusion h)
      refine ⟨done', ?_⟩
      rw [strLenLoop, hread, ok_bind, hnot, decide_eq_false hnul, show k + (turns + 1) = k + 1 + turns from by omega]
      exact hrest
    · obtain rfl : k = str.length := by omega
      have hread : readByte memory str.length = .ok 0 := by rw [readByte, h.getElem?_length]
      obtain ⟨done', hrest⟩ := ih str.length true (Nat.le_refl _) (fun _ => rfl)
      refine ⟨done', ?_⟩
      rw [strLenLoop, hread, ok_bind, decide_eq_true rfl, Bool.or_true,
        show min (str.length + (turns + 1)) str.length = min (str.length + turns) str.length from by omega]
      exact hrest

theorem strLenBounded_spec {memory str : Bytes} (h : IsCString memory str) (maxLen : Nat) :
    strLenBounded memory maxLen = .ok (min maxLen str.length) := by
  obtain ⟨done, hloop⟩ := strLenLoop_spec h maxLen 0 false (Nat.zero_le _) (fun h => Bool.noConfusion h)
  rw [Nat.zero_add] at hloop
  rw [strLenBounded, hloop]
  rfl

theorem bufEqual_comm (cmpLen : Nat) (x y : Bytes) : bufEqual cmpLen x y = bufEqual cmpLen y x := by
  unfold bufEqual
  by_cases h : x = y
  · rw [h]
  · rw [decide_eq_false h, decide_eq_false (Ne.symm h), Bool.false_and, Bool.false_and]

/-- What stands behind the bound does not decide. -/
theorem bufEqual_take (cmpLen : Nat) (x y : Bytes) : bufEqual cmpLen (x.take cmpLen) y = bufEqual cmpLen x y := by
  by_cases hlt : x.length < cmpLen
  · rw [List.take_of_length_le (Nat.le_of_lt hlt)]
  · have hlen : (x.take cmpLen).length = cmpLen := by rw [List.length_take, Nat.min_eq_left (by omega)]
    unfold bufEqual
    rw [hlen, decide_eq_false (Nat.lt_irrefl _), decide_eq_false hlt, Bool.and_false, Bool.and_false]

/-- Two strings are the same to the comparison if they are the same, and shorter than the bound. -/
theorem strCompare_spec {x y : Bytes} (ha : IsCString a x) (hb : IsCString b y) {cmpLen : Nat} (hcmp : cmpLen < 4294967296) :
    ∃ out, strCompare a b cmpLen = .ok out ∧ (out = 0 ↔ bufEqual cmpLen x y = true) := by
  have hltA := ha.lt_length
  have hltB := hb.lt_length
  have hfront (hA : min cmpLen x.length = 0) (hB : min cmpLen y.length = 0) (hpos : 0 < cmpLen) :
      a.getD 0 0 = b.getD 0 0 := by
    have h₁ := ha.getElem?_length
    have h₂ := hb.getElem?_length
    rw [show x.length = 0 from by omega] at h₁
    rw [show y.length = 0 from by omega] at h₂
    rw [List.getD_eq_getElem?_getD, List.getD_eq_getElem?_getD, h₁, h₂]
  have hlenA : min cmpLen x.length ≤ a.length := by omega
  have hlenB : min cmpLen y.length ≤ b.length := by omega
  obtain ⟨out, hout, hiff⟩ :=
    bufCompare_spec (by omega) hlenA (by omega) hlenB (by omega) (by omega) (Nat.le_of_lt hcmp) hfront
  refine ⟨out, ?_, ?_⟩
  · rw [strCompare, strLenBounded_spec ha, ok_bind, strLenBounded_spec hb, ok_bind]
    exact hout
  · rw [hiff, ha.take (by omega), hb.take (by omega), ← List.take_take, ← List.take_take, List.take_length, List.take_length,
      bufEqual_take, bufEqual_comm, bufEqual_take, bufEqual_comm]

end comparison

end WolfMqtt.Broker
