import WolfMqtt.Lib.Agree
import WolfMqtt.Packet.Property

/-! The property decoder over its buffer: offsets, `word32` lengths, and what it reads.

`rx` is the receive buffer up to its end, and a read at or past that end is an `overrun`. Strings and
binary data are not copied: a decoded property points into the buffer. `scanProps_decodeProps` is the
refinement: the decoder over the buffer never reads outside it, and decides as `decodeProps` does on
the bytes from where it starts. -/
namespace WolfMqtt

/-- Why a decoder gave up: with a return code, or because it read outside its buffer. -/
inductive Fault where
  | code (rc : Int)
  | overrun
deriving Repr, DecidableEq

/-- A decoded pointer and the length of what it points to. -/
structure Slice where
  off : Nat
  len : Nat
deriving Repr, DecidableEq

namespace Slice

def get (rx : Bytes) (s : Slice) : Bytes := (rx.drop s.off).take s.len

def Inside (n : Nat) (s : Slice) : Prop := s.off + s.len ≤ n

end Slice

/-- A property as it is decoded: `none` for a pointer that was left NULL. -/
structure PropView where
  type : PropType
  dataByte : UInt8 := 0
  dataShort : Nat := 0
  dataInt : Nat := 0
  dataStr : Option Slice := none
  dataBin : Option Slice := none
  dataStr2 : Option Slice := none
deriving Repr, DecidableEq

namespace PropView

def get (rx : Bytes) (s : Option Slice) : Bytes := (s.map (Slice.get rx)).getD []

/-- The property, with what its pointers point to. -/
def read (rx : Bytes) (v : PropView) : MqttProp :=
  { type := v.type
    dataByte := v.dataByte
    dataShort := v.dataShort
    dataInt := v.dataInt
    dataStr := get rx v.dataStr
    dataBin := get rx v.dataBin
    dataStr2 := get rx v.dataStr2 }

/-- All that the property points to lies in the first `n` bytes. -/
structure Inside (n : Nat) (v : PropView) : Prop where
  str : ∀ s ∈ v.dataStr, s.Inside n
  bin : ∀ s ∈ v.dataBin, s.Inside n
  str2 : ∀ s ∈ v.dataStr2, s.Inside n

theorem Inside.mono {n m : Nat} {v : PropView} (h : v.Inside n) (hle : n ≤ m) : v.Inside m where
  str s hs := Nat.le_trans (h.str s hs) hle
  bin s hs := Nat.le_trans (h.bin s hs) hle
  str2 s hs := Nat.le_trans (h.str2 s hs) hle

end PropView

/-! ### Reading -/

/-- The difference of two `word32` values. -/
def wordDiff (a b : Nat) : Nat := (((a : Int) - b) % 4294967296).toNat

def readByte (rx : Bytes) (pos : Nat) : Except Fault UInt8 :=
  match rx[pos]? with
  | some b => .ok b
  | none => .error .overrun

def readBytes (rx : Bytes) (pos n : Nat) : Except Fault Bytes :=
  if pos + n ≤ rx.length then .ok ((rx.drop pos).take n) else .error .overrun

theorem readBytes_of_le {rx : Bytes} {pos n : Nat} (h : pos + n ≤ rx.length) :
    readBytes rx pos n = .ok ((rx.drop pos).take n) := if_pos h

/-- A failure that is a return value, and not a read past the end. -/
def Returned (e : Fault) : Prop := ∃ rc, e = .code rc

theorem rejected {α : Type} {P : α → Prop} (rc : Int) : Agree.Yields Returned P (.error (.code rc)) := ⟨rc, rfl⟩

theorem readByte_inside {rx : Bytes} {pos : Nat} (h : pos < rx.length) :
    Agree.Yields Returned (fun _ => True) (readByte rx pos) := by
  rw [readByte, List.getElem?_eq_getElem h]
  trivial

theorem readBytes_inside {rx : Bytes} {pos n : Nat} (h : pos + n ≤ rx.length) :
    Agree.Yields Returned (fun _ => True) (readBytes rx pos n) := by
  rw [readBytes_of_le h]
  trivial

/-- The loop of `MqttDecode_Vbi`, `rc` bytes into the number, with `turns` bytes still allowed. -/
def scanVbiLoop (rx : Bytes) (pos bufLen rc value multiplier : Nat) : Nat → Except Fault (Nat × Nat)
  | 0 => if bufLen < rc + 1 then .error (.code Code.outOfBuffer) else .error (.code Code.malformedData)
  | turns + 1 =>
    if bufLen < rc + 1 then .error (.code Code.outOfBuffer)
    else do
      let b ← readByte rx (pos + rc)
      if b.toNat ≥ 128 then
        scanVbiLoop rx pos bufLen (rc + 1) (value + b.toNat % 128 * multiplier) (multiplier * 128) turns
      else if rc + 1 > 1 && b = 0 then .error (.code Code.malformedData)
      else .ok (value + b.toNat * multiplier, rc + 1)

/-- `MqttDecode_Vbi` at an offset of the buffer, with `bufLen` bytes from there on. -/
def scanVbi (rx : Bytes) (pos bufLen : Nat) : Except Fault (Nat × Nat) := scanVbiLoop rx pos bufLen 0 0 1 maxLenBytes

/-- `MqttDecode_Num` -/
def scanNum (rx : Bytes) (pos bufLen : Nat) : Except Fault Nat :=
  if bufLen < 2 then .error (.code Code.outOfBuffer)
  else do
    let hi ← readByte rx pos
    let lo ← readByte rx (pos + 1)
    .ok (hi.toNat * 256 + lo.toNat)

/-- `MqttDecode_Int` -/
def scanInt (rx : Bytes) (pos bufLen : Nat) : Except Fault Nat :=
  if bufLen < 4 then .error (.code Code.outOfBuffer)
  else do
    let a ← readByte rx pos
    let b ← readByte rx (pos + 1)
    let c ← readByte rx (pos + 2)
    let d ← readByte rx (pos + 3)
    .ok (a.toNat * 16777216 + b.toNat * 65536 + c.toNat * 256 + d.toNat)

/-- `MqttDecode_String`: the string in place. It takes two bytes more than its length. -/
def scanString (rx : Bytes) (pos bufLen : Nat) : Except Fault Slice := do
  let len ← scanNum rx pos bufLen
  if len > wordDiff bufLen 2 then .error (.code Code.outOfBuffer)
  else
    let s ← readBytes rx (pos + 2) len
    if !utf8WellFormed s then .error (.code Code.malformedData)
    else .ok ⟨pos + 2, len⟩

/-! ### The decoder -/

/-- The value of one property, `at_` bytes behind `pbuf`, with `propLen` bytes of the list left: the
property, and how many bytes the value takes. -/
def scanPropValue (rx : Bytes) (pbuf bufLen : Nat) (type : PropType) (at_ propLen : Nat) :
    Except Fault (PropView × Nat) :=
  match type.dataType with
  | .byte =>
    if (at_ : Int) ≥ toInt32 bufLen || propLen < 1 then .error (.code Code.outOfBuffer)
    else do
      let b ← readByte rx (pbuf + at_)
      if b > 1 then .error (.code Code.property) else .ok ({type, dataByte := b}, 1)
  | .short =>
    if (at_ : Int) > toInt32 bufLen then .error (.code Code.outOfBuffer)
    else do
      let value ← scanNum rx (pbuf + at_) (wordDiff bufLen at_)
      if 2 > propLen then .error (.code Code.malformedData)
      else if type = .topicAlias && value = 0 then .error (.code Code.malformedData)
      else .ok ({type, dataShort := value}, 2)
  | .int =>
    if (at_ : Int) > toInt32 bufLen || propLen < 4 then .error (.code Code.outOfBuffer)
    else do
      let value ← scanInt rx (pbuf + at_) (wordDiff bufLen at_)
      if type = .maxPacketSz && value = 0 then .error (.code Code.malformedData)
      else .ok ({type, dataInt := value}, 4)
  | .string =>
    if (at_ : Int) > toInt32 bufLen then .error (.code Code.outOfBuffer)
    else do
      let s ← scanString rx (pbuf + at_) (wordDiff bufLen at_)
      if 2 + s.len > wordDiff bufLen at_ then .error (.code Code.property)
      else if 2 + s.len > propLen then .error (.code Code.malformedData)
      else if type = .respTopic && !topicNameValid (s.get rx) level5 then .error (.code Code.malformedData)
      else .ok ({type, dataStr := some s}, 2 + s.len)
  | .varInt =>
    if bufLen < at_ then .error (.code Code.outOfBuffer)
    else do
      let (value, n) ← scanVbi rx (pbuf + at_) (wordDiff bufLen at_)
      if n > propLen then .error (.code Code.malformedData)
      else if type = .subscriptionId && value = 0 then .error (.code Code.malformedData)
      else .ok ({type, dataInt := value}, n)
  | .binary => do
    let len ← scanNum rx (pbuf + at_) (wordDiff bufLen at_)
    if 2 > propLen then .error (.code Code.malformedData)
    else if len > wordDiff bufLen (at_ + 2) then .error (.code Code.property)
    else if len > wordDiff propLen 2 then .error (.code Code.malformedData)
    else .ok ({type, dataBin := some ⟨pbuf + at_ + 2, len⟩}, 2 + len)
  | .stringPair => do
    let s ← scanString rx (pbuf + at_) (wordDiff bufLen at_)
    if 2 + s.len > wordDiff bufLen at_ then .error (.code Code.property)
    else if 2 + s.len > propLen then .error (.code Code.malformedData)
    else
      let next := at_ + (2 + s.len)
      if wordDiff bufLen next = 0 then .error (.code Code.property)
      else
        let s₂ ← scanString rx (pbuf + next) (wordDiff bufLen next)
        if 2 + s₂.len > wordDiff bufLen next then .error (.code Code.property)
        else if 2 + s₂.len > wordDiff propLen (2 + s.len) then .error (.code Code.malformedData)
        else .ok ({type, dataStr := some s, dataStr2 := some s₂}, 2 + s.len + (2 + s₂.len))

/-- `seen_lo` and `seen_hi`: a bit for each type that may not come again. -/
structure SeenBits where
  lo : Nat := 0
  hi : Nat := 0
deriving Repr, DecidableEq

namespace SeenBits

def has (s : SeenBits) (type : PropType) : Bool :=
  if type.toNat < 32 then s.lo.testBit type.toNat else s.hi.testBit (type.toNat - 32)

def add (s : SeenBits) (type : PropType) : SeenBits :=
  if type.toNat < 32 then {s with lo := s.lo ||| 1 <<< type.toNat}
  else {s with hi := s.hi ||| 1 <<< (type.toNat - 32)}

end SeenBits

/-- The loop of `MqttDecode_Props`, `at_` bytes behind `pbuf`, with `left` properties still allowed and
`room` of them free in the pool: the properties, and where it stops. The identifier is taken off
`prop_len` without a look at how much there is. -/
def scanPropsLoop (packet : PacketType) (rx : Bytes) (pbuf bufLen : Nat) (seen : SeenBits) (room at_ propLen : Nat) :
    Nat → Except Fault (List PropView × Nat)
  | 0 => if toInt32 propLen > 0 then .error (.code Code.property) else .ok ([], at_)
  | left + 1 =>
    if ¬toInt32 propLen > 0 then .ok ([], at_)
    else if room = 0 then .error (.code Code.memory)
    else if (at_ : Int) > toInt32 bufLen then .error (.code Code.outOfBuffer)
    else do
      let (id, n) ← scanVbi rx (pbuf + at_) (wordDiff bufLen at_)
      let propLen := wordDiff propLen n
      if id ≥ propMatrixSize then .error (.code Code.property)
      else
        match PropType.ofNat? id with
        | none => .error (.code Code.propertyMismatch)
        | some type =>
          if !type.allowedIn packet then .error (.code Code.propertyMismatch)
          else if !propRepeats packet type && seen.has type then .error (.code Code.property)
          else
            let seen := if propRepeats packet type then seen else seen.add type
            let (p, k) ← scanPropValue rx pbuf bufLen type (at_ + n) propLen
            let (rest, stop) ←
              scanPropsLoop packet rx pbuf bufLen seen (room - 1) (at_ + n + k) (wordDiff propLen k) left
            .ok (p :: rest, stop)

/-- `MqttDecode_Props` at offset `pbuf` of the buffer, with `bufLen` bytes from there on: the properties,
and how many bytes it has gone through. -/
def scanProps (packet : PacketType) (room : Nat) (rx : Bytes) (pbuf bufLen propLen : Nat) :
    Except Fault (List PropView × Nat) := do
  let (props, total) ← scanPropsLoop packet rx pbuf bufLen {} room 0 propLen maxProps
  if props.any (·.type = .authData) && !props.any (·.type = .authMethod) then .error (.code Code.property)
  else .ok (props, total)

/-! ### The scans agree with the decoders -/

/-- A return code is the same on both sides, and an overrun has nothing to agree with. -/
def Coded (f : Fault) (rc : Int) : Prop := f = .code rc

open Agree (Agrees)

section Scans
variable {rx : Bytes} {pos bufLen : Nat}

theorem wordDiff_of_le {a b : Nat} (hle : b ≤ a) (ha : a < 4294967296) : wordDiff a b = a - b := by
  unfold wordDiff
  omega

theorem toInt32_done {n : Nat} (h : n < 2147483648) : ¬toInt32 n > 0 ↔ n = 0 := by
  rw [toInt32_of_lt h]
  omega

theorem readByte_of_drop {b : UInt8} {i : Nat} (h : (rx.drop pos)[i]? = some b) : readByte rx (pos + i) = .ok b := by
  rw [List.getElem?_drop] at h
  rw [readByte, h]

theorem scanVbiLoop_agrees (hlen : pos + bufLen = rx.length) (turns rc value multiplier : Nat)
    (hturns : rc + turns = maxLenBytes) :
    Agrees Coded Eq (scanVbiLoop rx pos bufLen rc value multiplier turns)
      (decodeVbiLoop rc value multiplier (rx.drop (pos + rc))) := by
  induction turns generalizing rc value multiplier with
  | zero =>
    unfold scanVbiLoop
    cases hbuf : rx.drop (pos + rc) with
    | nil =>
      rw [List.drop_eq_nil_iff] at hbuf
      rw [if_pos (by omega)]
      exact Agree.error rfl
    | cons b rest =>
      have hlt := (List.drop_eq_nil_iff.not.mp (by rw [hbuf]; exact List.cons_ne_nil b rest))
      rw [if_neg (by omega), decodeVbiLoop, if_pos (by omega)]
      exact Agree.error rfl
  | succ turns ih =>
    unfold scanVbiLoop
    cases hbuf : rx.drop (pos + rc) with
    | nil =>
      rw [List.drop_eq_nil_iff] at hbuf
      rw [if_pos (by omega)]
      exact Agree.error rfl
    | cons b rest =>
      have hlt := (List.drop_eq_nil_iff.not.mp (by rw [hbuf]; exact List.cons_ne_nil b rest))
      have hread : readByte rx (pos + rc + 0) = .ok b := readByte_of_drop (by rw [hbuf]; rfl)
      have hrest : rx.drop (pos + (rc + 1)) = rest := by
        rw [← Nat.add_assoc, ← List.drop_drop, hbuf]
        rfl
      rw [if_neg (by omega), ← Nat.add_zero (pos + rc), hread, decodeVbiLoop, if_neg (by omega)]
      refine Agree.ite Iff.rfl (fun _ => ?_) fun _ => ?_
      · rw [← hrest]
        exact ih (rc + 1) _ _ (by omega)
      · exact Agree.ite Iff.rfl (fun _ => Agree.error rfl) fun _ => Agree.ok rfl

theorem scanVbi_agrees (hlen : pos + bufLen = rx.length) :
    Agrees Coded Eq (scanVbi rx pos bufLen) (decodeVbi (rx.drop pos)) :=
  scanVbiLoop_agrees hlen maxLenBytes 0 0 1 rfl

theorem scanNum_agrees (hlen : pos + bufLen = rx.length) :
    Agrees Coded Eq (scanNum rx pos bufLen) (decodeNum (rx.drop pos)) := by
  have hdrop : (rx.drop pos).length = bufLen := by
    rw [List.length_drop]
    omega
  unfold scanNum
  match hbuf : rx.drop pos with
  | hi :: lo :: rest =>
    rw [hbuf] at hdrop
    have hroom : ¬bufLen < 2 := by
      rw [← hdrop]
      simp
    have hhi : readByte rx pos = .ok hi := readByte_of_drop (i := 0) (by rw [hbuf]; rfl)
    have hlo : readByte rx (pos + 1) = .ok lo := readByte_of_drop (by rw [hbuf]; rfl)
    rw [if_neg hroom, hhi, hlo]
    exact Agree.ok rfl
  | [] =>
    rw [hbuf] at hdrop
    rw [← hdrop]
    exact Agree.error rfl
  | [b] =>
    rw [hbuf] at hdrop
    rw [← hdrop]
    exact Agree.error rfl

theorem scanInt_agrees (hlen : pos + bufLen = rx.length) :
    Agrees Coded Eq (scanInt rx pos bufLen) (decodeInt (rx.drop pos)) := by
  have hdrop : (rx.drop pos).length = bufLen := by
    rw [List.length_drop]
    omega
  unfold scanInt
  match hbuf : rx.drop pos with
  | a :: b :: c :: d :: rest =>
    rw [hbuf] at hdrop
    have hroom : ¬bufLen < 4 := by
      rw [← hdrop]
      simp
    have ha : readByte rx pos = .ok a := readByte_of_drop (i := 0) (by rw [hbuf]; rfl)
    have hb : readByte rx (pos + 1) = .ok b := readByte_of_drop (by rw [hbuf]; rfl)
    have hc : readByte rx (pos + 2) = .ok c := readByte_of_drop (by rw [hbuf]; rfl)
    have hd : readByte rx (pos + 3) = .ok d := readByte_of_drop (by rw [hbuf]; rfl)
    rw [if_neg hroom, ha, hb, hc, hd]
    exact Agree.ok rfl
  | [] | [_] | [_, _] | [_, _, _] =>
    rw [hbuf] at hdrop
    rw [← hdrop]
    exact Agree.error rfl

/-- A string read in place: where it stands, and that its buffer holds it. -/
structure StringAt (rx : Bytes) (pos bufLen : Nat) (s : Slice) (str : Bytes) : Prop where
  off : s.off = pos + 2
  len : s.len = str.length
  get : s.get rx = str
  room : 2 + str.length ≤ bufLen

theorem scanString_agrees (hlen : pos + bufLen = rx.length) (hbuf : bufLen < 4294967296) :
    Agrees Coded (StringAt rx pos bufLen) (scanString rx pos bufLen) (decodeString (rx.drop pos)) := by
  have hnum := scanNum_agrees hlen
  have hdrop : (rx.drop pos).length = bufLen := by
    rw [List.length_drop]
    omega
  unfold scanString decodeString
  cases hdec : decodeNum (rx.drop pos) with
  | error e =>
    rw [hdec] at hnum
    cases hscan : scanNum rx pos bufLen with
    | error f =>
      rw [hscan] at hnum
      exact hnum
    | ok n =>
      rw [hscan] at hnum
      exact hnum.elim
  | ok len =>
    obtain ⟨len, hscan, rfl⟩ := Agree.left_of_ok hnum hdec
    obtain ⟨-, rest, hrest⟩ := decodeNum_canonical hdec
    have htwo : 2 ≤ bufLen := by
      rw [← hdrop, hrest, List.length_append, encodeNum_length]
      omega
    rw [hscan, hdrop]
    show Agrees Coded _ (if _ then _ else _) (if _ then _ else _)
    rw [wordDiff_of_le htwo hbuf]
    refine Agree.ite Iff.rfl (fun _ => Agree.error rfl) fun hfits => ?_
    have hin : pos + 2 + len ≤ rx.length := by omega
    have hread : readBytes rx (pos + 2) len = .ok (((rx.drop pos).drop 2).take len) := by
      rw [readBytes_of_le hin, List.drop_drop]
    rw [hread]
    refine Agree.ite Iff.rfl (fun _ => Agree.error rfl) fun _ => Agree.ok ?_
    have htake : (((rx.drop pos).drop 2).take len).length = len := by
      rw [List.length_take, List.length_drop, hdrop]
      omega
    exact ⟨rfl, htake.symm, by rw [Slice.get, List.drop_drop], by rw [htake]; omega⟩

end Scans

/-! ### Values -/

/-- A value read in place: its property, its size, and that its buffer holds it. -/
structure ValueAt (rx : Bytes) (pos : Nat) (x : PropView × Nat) (y : MqttProp × Nat) : Prop where
  read : x.1.read rx = y.1
  size : x.2 = y.2
  inside : x.1.Inside (pos + x.2)

theorem StringAt.inside {rx : Bytes} {pos bufLen : Nat} {s : Slice} {str : Bytes} (h : StringAt rx pos bufLen s str) :
    s.Inside (pos + (2 + s.len)) := by
  rw [Slice.Inside, h.off]
  omega

theorem scanPropValue_agrees {rx : Bytes} {pbuf bufLen at_ propLen : Nat} (hlen : pbuf + bufLen = rx.length)
    (hbuf : bufLen < 2147483648) (hat : at_ ≤ bufLen) (hprop : propLen < 4294967296) (type : PropType) :
    Agrees Coded (ValueAt rx (pbuf + at_)) (scanPropValue rx pbuf bufLen type at_ propLen)
      (decodePropValue type (rx.drop (pbuf + at_)) propLen) := by
  have hint : toInt32 bufLen = bufLen := toInt32_of_lt hbuf
  have hleft : wordDiff bufLen at_ = bufLen - at_ := wordDiff_of_le hat (by omega)
  have hfront : ¬(at_ : Int) > toInt32 bufLen := by
    rw [hint]
    omega
  have hhere : pbuf + at_ + (bufLen - at_) = rx.length := by omega
  have hdrop : (rx.drop (pbuf + at_)).length = bufLen - at_ := by
    rw [List.length_drop]
    omega
  unfold scanPropValue decodePropValue
  cases type.dataType with
  | byte =>
    dsimp only
    cases hrest : rx.drop (pbuf + at_) with
    | nil =>
      rw [hrest] at hdrop
      have hend : (at_ : Int) ≥ toInt32 bufLen := by
        rw [hint]
        have : 0 = bufLen - at_ := hdrop
        omega
      rw [if_pos (by simp [hend])]
      exact Agree.error rfl
    | cons b rest =>
      rw [hrest, List.length_cons] at hdrop
      have hmore : ¬(at_ : Int) ≥ toInt32 bufLen := by
        rw [hint]
        omega
      have hread : readByte rx (pbuf + at_ + 0) = .ok b := readByte_of_drop (by rw [hrest]; rfl)
      refine Agree.ite (by simp [hmore]) (fun _ => Agree.error rfl) fun _ => ?_
      rw [← Nat.add_zero (pbuf + at_), hread]
      refine Agree.ite Iff.rfl (fun _ => Agree.error rfl) fun _ => Agree.ok ?_
      exact ⟨rfl, rfl, by constructor <;> simp⟩
  | short =>
    dsimp only
    rw [if_neg hfront, hleft]
    refine Agree.bind (scanNum_agrees hhere) ?_
    rintro value _ rfl
    refine Agree.ite Iff.rfl (fun _ => Agree.error rfl) fun _ => ?_
    refine Agree.ite Iff.rfl (fun _ => Agree.error rfl) fun _ => Agree.ok ?_
    exact ⟨rfl, rfl, by constructor <;> simp⟩
  | int =>
    dsimp only
    rw [hleft]
    refine Agree.ite (by simp only [hfront, decide_false, Bool.false_or, decide_eq_true_eq]) (fun _ => Agree.error rfl)
      fun _ => ?_
    refine Agree.bind (scanInt_agrees hhere) ?_
    rintro value _ rfl
    refine Agree.ite Iff.rfl (fun _ => Agree.error rfl) fun _ => Agree.ok ?_
    exact ⟨rfl, rfl, by constructor <;> simp⟩
  | string =>
    dsimp only
    rw [if_neg hfront, hleft]
    refine Agree.bind (scanString_agrees hhere (by omega)) ?_
    intro s str hs
    have hroom := hs.room
    rw [hs.len, if_neg (by omega), hs.get]
    refine Agree.ite Iff.rfl (fun _ => Agree.error rfl) fun _ => ?_
    refine Agree.ite Iff.rfl (fun _ => Agree.error rfl) fun _ => Agree.ok ?_
    have hin := hs.inside
    rw [hs.len] at hin
    exact ⟨by simp [PropView.read, PropView.get, hs.get], rfl, by constructor <;> simp [hin]⟩
  | varInt =>
    dsimp only
    rw [if_neg (by omega), hleft]
    refine Agree.bind (scanVbi_agrees hhere) ?_
    rintro ⟨value, n⟩ _ rfl
    refine Agree.ite Iff.rfl (fun _ => Agree.error rfl) fun _ => ?_
    refine Agree.ite Iff.rfl (fun _ => Agree.error rfl) fun _ => Agree.ok ?_
    exact ⟨rfl, rfl, by constructor <;> simp⟩
  | binary =>
    dsimp only
    rw [hleft]
    refine Agree.bind_of_ok (scanNum_agrees hhere) ?_
    rintro len _ - hdec rfl
    obtain ⟨-, rest, hrest⟩ := decodeNum_canonical hdec
    have htwo : 2 ≤ bufLen - at_ := by
      rw [← hdrop, hrest, List.length_append, encodeNum_length]
      omega
    rw [hdrop]
    refine Agree.ite Iff.rfl (fun _ => Agree.error rfl) fun hlist => ?_
    have hsub : wordDiff bufLen (at_ + 2) = bufLen - at_ - 2 := by
      rw [wordDiff_of_le (by omega) (by omega)]
      omega
    rw [hsub, wordDiff_of_le (by omega) hprop]
    refine Agree.ite Iff.rfl (fun _ => Agree.error rfl) fun hfits => ?_
    refine Agree.ite Iff.rfl (fun _ => Agree.error rfl) fun _ => Agree.ok ?_
    refine ⟨?_, rfl, ?_⟩
    · simp [PropView.read, PropView.get, Slice.get, List.drop_drop]
    · constructor <;> simp [Slice.Inside]
      omega
  | stringPair =>
    dsimp only
    rw [hleft]
    refine Agree.bind (scanString_agrees hhere (by omega)) ?_
    intro s str hs
    have hroom := hs.room
    have hnext : wordDiff bufLen (at_ + (2 + str.length)) = bufLen - at_ - (2 + str.length) := by
      rw [wordDiff_of_le (by omega) (by omega)]
      omega
    have hthere : pbuf + (at_ + (2 + str.length)) + (bufLen - at_ - (2 + str.length)) = rx.length := by omega
    rw [hs.len, if_neg (by omega)]
    refine Agree.ite Iff.rfl (fun _ => Agree.error rfl) fun hlist => ?_
    rw [hnext, hdrop, wordDiff_of_le (by omega) hprop]
    refine Agree.ite Iff.rfl (fun _ => Agree.error rfl) fun _ => ?_
    rw [List.drop_drop, Nat.add_assoc]
    refine Agree.bind (scanString_agrees hthere (by omega)) ?_
    intro s₂ str₂ hs₂
    have hroom₂ := hs₂.room
    rw [hs₂.len, if_neg (by omega)]
    refine Agree.ite Iff.rfl (fun _ => Agree.error rfl) fun _ => Agree.ok ?_
    have hin := hs.inside
    have hin₂ := hs₂.inside
    rw [hs.len] at hin
    rw [hs₂.len] at hin₂
    refine ⟨by simp [PropView.read, PropView.get, hs.get, hs₂.get], rfl, ?_⟩
    constructor
    · simp only [Option.mem_def, Option.some.injEq, forall_eq']
      exact Nat.le_trans hin (by omega)
    · simp
    · simp only [Option.mem_def, Option.some.injEq, forall_eq']
      exact Nat.le_trans hin₂ (by omega)

/-! ### The loop -/

theorem PropType.toNat_inj {s t : PropType} : s.toNat = t.toNat ↔ s = t := by
  constructor
  · intro h
    have hs := PropType.ofNat?_toNat s
    rw [h, PropType.ofNat?_toNat] at hs
    exact (Option.some.inj hs).symm
  · rintro rfl
    rfl

namespace SeenBits

theorem has_add (s : SeenBits) (t u : PropType) : (s.add t).has u = (decide (t = u) || s.has u) := by
  unfold has add
  by_cases hu : u.toNat < 32
  · by_cases ht : t.toNat < 32
    · rw [if_pos hu, if_pos hu, if_pos ht, Nat.testBit_or, Nat.one_shiftLeft, Nat.testBit_two_pow, Bool.or_comm]
      simp only [PropType.toNat_inj]
    · have hne : ¬t = u := by
        rintro rfl
        exact ht hu
      rw [if_pos hu, if_pos hu, if_neg ht, decide_eq_false hne, Bool.false_or]
  · by_cases ht : t.toNat < 32
    · have hne : ¬t = u := by
        rintro rfl
        exact hu ht
      rw [if_neg hu, if_neg hu, if_pos ht, decide_eq_false hne, Bool.false_or]
    · have hsame : t.toNat - 32 = u.toNat - 32 ↔ t = u := by
        rw [← PropType.toNat_inj]
        omega
      rw [if_neg hu, if_neg hu, if_neg ht, Nat.testBit_or, Nat.one_shiftLeft, Nat.testBit_two_pow, Bool.or_comm]
      simp only [hsame]

/-- The bits stand for the types seen, of those that may not come again. -/
def Marks (packet : PacketType) (s : SeenBits) (seen : List PropType) : Prop :=
  ∀ t, propRepeats packet t = false → s.has t = seen.contains t

theorem Marks.empty (packet : PacketType) : Marks packet {} [] := by
  intro t _
  unfold has
  split <;> exact Nat.zero_testBit _

theorem Marks.next {packet : PacketType} {s : SeenBits} {seen : List PropType} (h : Marks packet s seen) (t : PropType) :
    Marks packet (if propRepeats packet t then s else s.add t) (t :: seen) := by
  intro u hu
  rw [List.contains_cons]
  split
  next hrep =>
    have hne : (u == t) = false := by
      refine beq_eq_false_iff_ne.mpr ?_
      rintro rfl
      rw [hrep] at hu
      cases hu
    rw [hne, Bool.false_or, h u hu]
  · have hsame : (u == t) = decide (t = u) := by
      rw [beq_eq_decide]
      exact decide_eq_decide.mpr eq_comm
    rw [has_add, h u hu, hsame]

end SeenBits

/-- A list read in place, up to `stop` bytes behind `pbuf`. -/
structure PropsAt (rx : Bytes) (pbuf stop : Nat) (x : List PropView × Nat) (ys : List MqttProp) : Prop where
  read : x.1.map (PropView.read rx) = ys
  ends : x.2 = stop
  inside : ∀ v ∈ x.1, v.Inside (pbuf + stop)

theorem scanPropsLoop_agrees {packet : PacketType} {rx : Bytes} {pbuf bufLen : Nat} (hlen : pbuf + bufLen = rx.length)
    (hbuf : bufLen < 2147483648) {s : SeenBits} {seen : List PropType} (hseen : s.Marks packet seen)
    {room at_ propLen : Nat} (hat : at_ ≤ bufLen) (hprop : propLen < 2147483648) (left : Nat) :
    Agrees Coded (PropsAt rx pbuf (at_ + propLen)) (scanPropsLoop packet rx pbuf bufLen s room at_ propLen left)
      (decodePropsLoop packet seen room (rx.drop (pbuf + at_)) propLen left) := by
  induction left generalizing s seen room at_ propLen with
  | zero =>
    unfold scanPropsLoop decodePropsLoop
    by_cases hzero : propLen = 0
    · rw [if_neg ((toInt32_done hprop).mpr hzero), if_pos hzero]
      exact Agree.ok ⟨rfl, by rw [hzero]; rfl, by simp⟩
    · rw [if_pos (not_not.mp ((toInt32_done hprop).not.mpr hzero)), if_neg hzero]
      exact Agree.error rfl
  | succ left ih =>
    have hleft : wordDiff bufLen at_ = bufLen - at_ := wordDiff_of_le hat (by omega)
    have hfront : ¬(at_ : Int) > toInt32 bufLen := by
      rw [toInt32_of_lt hbuf]
      omega
    have hhere : pbuf + at_ + (bufLen - at_) = rx.length := by omega
    have hdrop : ∀ i, (rx.drop (pbuf + i)).length = bufLen - i := by
      intro i
      rw [List.length_drop]
      omega
    unfold scanPropsLoop decodePropsLoop
    refine Agree.ite (toInt32_done hprop) (fun hzero => ?_) fun hmore => ?_
    · exact Agree.ok ⟨rfl, by rw [(toInt32_done hprop).mp hzero]; rfl, by simp⟩
    have hpos : 1 ≤ propLen := Nat.pos_of_ne_zero fun hzero => hmore ((toInt32_done hprop).mpr hzero)
    refine Agree.ite Iff.rfl (fun _ => Agree.error rfl) fun _ => ?_
    rw [if_neg hfront, hleft]
    obtain ⟨f, e, hf, he, hfe⟩ | ⟨⟨id, n⟩, _, hscan, hvbi, rfl⟩ := Agree.cases (scanVbi_agrees hhere)
    · rw [hf, he]
      exact Agree.error hfe
    rw [hscan, hvbi]
    dsimp only [bind, Except.bind]
    refine Agree.ite Iff.rfl (fun _ => Agree.error rfl) fun hid => ?_
    cases htype : PropType.ofNat? id with
    | none => exact Agree.error rfl
    | some type =>
      dsimp only
      refine Agree.ite Iff.rfl (fun _ => Agree.error rfl) fun _ => ?_
      refine Agree.ite ?_ (fun _ => Agree.error rfl) fun _ => ?_
      · cases hrep : propRepeats packet type with
        | true => simp
        | false => simp [hseen type hrep]
      -- the identifier is one byte, so that taking it off cannot wrap
      obtain ⟨-, hn, rest, hrest⟩ := decodeVbi_canonical hvbi
      rw [vbiBytes_of_lt (by omega), List.length_singleton] at hn
      subst hn
      have hone : at_ + 1 ≤ bufLen := by
        have hlen := hdrop at_
        rw [hrest, vbiBytes_of_lt (by omega), List.length_append, List.length_singleton] at hlen
        omega
      rw [wordDiff_of_le hpos (by omega), List.drop_drop, Nat.add_assoc pbuf at_ 1]
      obtain ⟨f, e, hf, he, hfe⟩ | ⟨⟨v, k⟩, ⟨p, j⟩, hscan', hvalue, hv⟩ :=
        Agree.cases (scanPropValue_agrees hlen hbuf hone (by omega : propLen - 1 < 4294967296) type)
      · rw [hf, he]
        exact Agree.error hfe
      obtain ⟨hread, hsize, hinside⟩ := hv
      have hkj : k = j := hsize
      subst hkj
      obtain ⟨-, -, -, hk, w, rest', -, hw, hrest'⟩ := decodePropValue_canonical hvalue
      have hfits : at_ + 1 + k ≤ bufLen := by
        have hlen := hdrop (at_ + 1)
        rw [hrest', List.length_append, hw] at hlen
        omega
      rw [hscan', hvalue]
      dsimp only
      rw [wordDiff_of_le hk (by omega), List.drop_drop, Nat.add_assoc pbuf at_ (1 + k), ← Nat.add_assoc at_ 1 k]
      have hstop : at_ + 1 + k + (propLen - 1 - k) = at_ + propLen := by omega
      obtain ⟨f, e, hf, he, hfe⟩ | ⟨⟨vs, stop⟩, ps, hscans, hprops, hvs⟩ :=
        Agree.cases (ih (hseen.next type) hfits (by omega : propLen - 1 - k < 2147483648))
      · rw [hf, he]
        exact Agree.error hfe
      rw [hstop] at hvs
      rw [hscans, hprops]
      refine Agree.ok ⟨?_, hvs.ends, ?_⟩
      · rw [← hvs.read, List.map_cons]
        exact congrArg (· :: _) hread
      · intro u hu
        obtain rfl | hu := List.mem_cons.mp hu
        · exact PropView.Inside.mono hinside (by dsimp only; omega)
        · exact hvs.inside u hu

/-! ### Whole lists -/

theorem PropsAt.any_type {rx : Bytes} {pbuf stop : Nat} {x : List PropView × Nat} {ys : List MqttProp}
    (h : PropsAt rx pbuf stop x ys) (type : PropType) : x.1.any (·.type = type) = ys.any (·.type = type) := by
  rw [← h.read, List.any_map]
  rfl

/-- The decoder over the buffer decides as the one on the bytes does, and never reads outside the buffer. -/
theorem scanProps_decodeProps {packet : PacketType} {rx : Bytes} {pbuf bufLen propLen : Nat}
    (hlen : pbuf + bufLen = rx.length) (hbuf : bufLen < 2147483648) (hprop : propLen < 2147483648) (room : Nat) :
    Agrees Coded (PropsAt rx pbuf propLen) (scanProps packet room rx pbuf bufLen propLen)
      (decodeProps packet room (rx.drop pbuf) propLen) := by
  have hloop : Agrees Coded (PropsAt rx pbuf (0 + propLen))
      (scanPropsLoop packet rx pbuf bufLen {} room 0 propLen maxProps) _ :=
    scanPropsLoop_agrees hlen hbuf (SeenBits.Marks.empty packet) (Nat.zero_le bufLen) hprop maxProps
  rw [Nat.zero_add, Nat.add_zero] at hloop
  unfold scanProps decodeProps
  obtain ⟨f, e, hf, he, hfe⟩ | ⟨x, ys, hscan, hdec, hx⟩ := Agree.cases hloop
  · rw [hf, he]
    exact Agree.error hfe
  rw [hscan, hdec]
  dsimp only [bind, Except.bind]
  refine Agree.ite ?_ (fun _ => Agree.error rfl) fun _ => Agree.ok hx
  rw [hx.any_type, hx.any_type]

/-- A list that was written is read back from its own bytes exactly if Authentication Data has its method. -/
theorem scanProps_encodeProps_iff {packet : PacketType} {props : List MqttProp} (hp : ∀ p ∈ props, p.Typed)
    {bytes : Bytes} (h : encodeProps packet props = .ok bytes) {room : Nat} (hroom : maxProps ≤ room) :
    (∃ views, scanProps packet room bytes 0 bytes.length bytes.length = .ok (views, bytes.length) ∧
      views.map (PropView.read bytes) = props.map MqttProp.own) ↔ authPaired props := by
  obtain ⟨hbytes, hprops⟩ := encodeProps_length_le h
  have hshort : bytes.length < 2147483648 := Nat.lt_of_le_of_lt hbytes (by decide)
  have hagree : Agrees Coded _ (scanProps packet room bytes 0 bytes.length bytes.length) _ :=
    scanProps_decodeProps (Nat.zero_add _) hshort hshort room
  constructor
  · rintro ⟨views, hscan, hread⟩
    obtain ⟨ys, hdec, hx⟩ := Agree.right_of_ok hagree hscan
    obtain ⟨-, -, hauth, -⟩ := decodeProps_canonical hdec hbytes
    have hys : ys = props.map MqttProp.own := hx.read.symm.trans hread
    rwa [hys, authPaired_map_own] at hauth
  · intro hauth
    have hdec := decodeProps_encodeProps hp h (Nat.le_trans hprops hroom) hauth []
    rw [List.append_nil] at hdec
    obtain ⟨⟨views, stop⟩, hscan, hx⟩ := Agree.left_of_ok hagree hdec
    have hstop : stop = bytes.length := hx.ends
    subst hstop
    exact ⟨views, hscan, hx.read⟩

/-- The properties of a CONNECT with enhanced authentication, and their bytes. -/
def eauthProps : List MqttProp :=
  [{type := .sessionExpiryInterval, dataInt := 60}, {type := .authMethod, dataStr := [0x6D]},
    {type := .authData, dataBin := [1, 2]}, {type := .userProp, dataStr := [0x6B], dataStr2 := [0x76]}]

def eauthBytes : Bytes := [17, 0, 0, 0, 60, 21, 0, 1, 109, 22, 0, 2, 1, 2, 38, 0, 1, 107, 0, 1, 118]

theorem scanProps_encodeProps_iff_sample :
    encodeProps .connect eauthProps = .ok eauthBytes ∧
      ∃ views, scanProps .connect 30 eauthBytes 0 21 21 = .ok (views, 21) ∧
        views.map (PropView.read eauthBytes) = eauthProps := by
  have hencode : encodeProps .connect eauthProps = .ok eauthBytes := rfl
  have hauth : authPaired eauthProps := by simp [authPaired, eauthProps]
  exact ⟨hencode, (scanProps_encodeProps_iff (by decide) hencode (Nat.le_refl _)).mpr hauth⟩

/-- Authentication Data on its own is written, and refused when it is read. -/
theorem not_scanProps_encodeProps :
    ¬∀ (packet : PacketType) (props : List MqttProp) (bytes : Bytes) (room : Nat), (∀ p ∈ props, p.Typed) →
      encodeProps packet props = .ok bytes → maxProps ≤ room →
      ∃ views, scanProps packet room bytes 0 bytes.length bytes.length = .ok (views, bytes.length) ∧
        views.map (PropView.read bytes) = props.map MqttProp.own := by
  intro h
  obtain ⟨views, hscan, -⟩ := h .connect [{type := .authData}] [22, 0, 0] maxProps
    (by simp; constructor <;> decide) rfl (Nat.le_refl _)
  have hrefused : scanProps .connect maxProps [22, 0, 0] 0 3 3 = .error (.code Code.property) := rfl
  rw [List.length_cons, List.length_cons, List.length_cons, List.length_nil] at hscan
  rw [hrefused] at hscan
  cases hscan

/-- In a buffer whose length is negative as an `int` no property is decoded. -/
theorem scanProps_of_large (packet : PacketType) (room : Nat) {rx : Bytes} {propLen : Nat}
    (hlarge : 2147483648 ≤ rx.length) (hbuf : rx.length < 4294967296) (hprop : propLen < 2147483648) :
    scanProps packet room rx 0 rx.length propLen =
      if propLen = 0 then .ok ([], 0)
      else if room = 0 then .error (.code Code.memory)
      else .error (.code Code.outOfBuffer) := by
  have hneg : ((0 : Nat) : Int) > toInt32 rx.length := by
    unfold toInt32
    rw [Nat.mod_eq_of_lt hbuf, if_neg (by omega)]
    omega
  have hmax : maxProps = 29 + 1 := rfl
  rw [scanProps, hmax, scanPropsLoop]
  by_cases hzero : propLen = 0
  · rw [if_pos ((toInt32_done hprop).mpr hzero), if_pos hzero]
    rfl
  · rw [if_neg ((toInt32_done hprop).not.mpr hzero), if_neg hzero, if_pos hneg]
    split
    · rfl
    · rfl

/-- A list read from a buffer was read in all of its length and inside the buffer, and is written as the bytes it
was read from. -/
theorem encodeProps_scanProps (packet : PacketType) (room : Nat) {rx : Bytes} {propLen : Nat}
    (hbuf : rx.length < 4294967296) (hprop : propLen ≤ maxRemainLen) :
    scanProps packet room rx 0 rx.length propLen ≠ .error .overrun ∧
      ∀ views total, scanProps packet room rx 0 rx.length propLen = .ok (views, total) →
        total = propLen ∧ propLen ≤ rx.length ∧
          encodeProps packet (views.map (PropView.read rx)) = .ok (rx.take propLen) := by
  have hlt : propLen < 2147483648 := Nat.lt_of_le_of_lt hprop (by decide)
  by_cases hint : rx.length < 2147483648
  · have hagree : Agrees Coded _ (scanProps packet room rx 0 rx.length propLen) _ :=
      scanProps_decodeProps (Nat.zero_add _) hint hlt room
    constructor
    · intro hover
      obtain ⟨e, -, hcoded⟩ := Agree.fails_of_error hagree hover
      cases hcoded
    · intro views total hscan
      obtain ⟨ys, hdec, hx⟩ := Agree.right_of_ok hagree hscan
      obtain ⟨-, -, -, bytes, rest, henc, hlen, hrx⟩ := decodeProps_canonical hdec hprop
      have hrx' : rx = bytes ++ rest := hrx
      refine ⟨hx.ends, ?_, ?_⟩
      · rw [hrx', List.length_append]
        omega
      · rw [show views.map (PropView.read rx) = ys from hx.read, henc, hrx', ← hlen, List.take_left]
  · have hscan := scanProps_of_large packet room (by omega : 2147483648 ≤ rx.length) hbuf hlt
    rw [hscan]
    split
    next hzero =>
      refine ⟨by simp, ?_⟩
      intro views total h
      cases h
      exact ⟨hzero.symm, by omega, by rw [hzero]; rfl⟩
    · split
      · simp
      · simp

theorem encodeProps_scanProps_sample :
    scanProps .publish 30 [35, 0, 9, 7] 0 4 3 ≠ .error .overrun ∧
      ∀ views total, scanProps .publish 30 [35, 0, 9, 7] 0 4 3 = .ok (views, total) →
        total = 3 ∧ 3 ≤ 4 ∧
          encodeProps .publish (views.map (PropView.read [35, 0, 9, 7])) = .ok [35, 0, 9] :=
  encodeProps_scanProps .publish 30 (by decide : [35, 0, 9, 7].length < 4294967296) (by decide)

end WolfMqtt
