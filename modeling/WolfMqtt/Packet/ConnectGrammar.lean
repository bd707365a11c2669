import WolfMqtt.Lib.Layout
import WolfMqtt.Packet.Connect
import WolfMqtt.Packet.PropWire

/-! The CONNECT packets there are, and that the decoder reads just these.

`ConnectPacket.Ok` and `ConnectPacket.wire` describe the packets without a decoder. Each section of the
decoder `Reads` one kind of block; `decodeConnect_reads` puts them together: the decoder accepts a
buffer exactly if a packet stands at its front, gives what the packet says, and points nowhere else. -/
namespace WolfMqtt

open Agree (Agrees bind_eq_ok ok_bind)
open Layout (At Reads at_append)

/-! ### The packets -/

structure WillPart where
  qos : Nat
  retain : Bool
  props : List MqttProp
  topic : Bytes
  payload : Bytes
deriving Repr, DecidableEq

structure ConnectPacket where
  level : UInt8
  clean : Bool
  keepAlive : Nat
  props : List MqttProp
  clientId : Bytes
  will : Option WillPart
  username : Option Bytes
  password : Option Bytes
deriving Repr, DecidableEq

def StringOk (s : Bytes) : Prop := s.length < 65536 ∧ utf8WellFormed s

def DataOk (data : Bytes) : Prop := data.length < 65536

/-- A property list that a CONNECT may carry. -/
structure PropsOk (props : List MqttProp) : Prop where
  typed : ∀ p ∈ props, p.Typed
  own : ∀ p ∈ props, p.own = p
  valid : ValidProps .connect props
  auth : authPaired props

/-- The properties of level 5, and none below. -/
def LevelProps (Ok : List MqttProp → Prop) (level : UInt8) (props : List MqttProp) : Prop :=
  if level = 5 then Ok props else props = []

def WillPropsOk (props : List MqttProp) : Prop := PropsOk props ∧ ∀ p ∈ props, willPropsValidateType p.type

structure WillPart.Ok (level : UInt8) (w : WillPart) : Prop where
  qos : w.qos ≤ 2
  props : LevelProps WillPropsOk level w.props
  topic : StringOk w.topic
  filled : w.topic ≠ []
  plain : topicNameValid w.topic level.toNat
  payload : DataOk w.payload

structure ConnectPacket.Ok (p : ConnectPacket) : Prop where
  keepAlive : p.keepAlive < 65536
  props : LevelProps PropsOk p.level p.props
  clientId : StringOk p.clientId
  will : ∀ w ∈ p.will, w.Ok p.level
  username : ∀ s ∈ p.username, StringOk s
  password : ∀ s ∈ p.password, DataOk s
  paired : p.level = 4 → p.password.isSome → p.username.isSome

/-- How many properties the packet has, its will's counted too. -/
def ConnectPacket.slots (p : ConnectPacket) : Nat :=
  p.props.length + ((p.will.map (·.props.length)).getD 0)

/-! ### The bytes -/

def propSection (props : List MqttProp) : Bytes :=
  vbiBytes maxLenBytes (propsWire props).length ++ propsWire props

def levelSection (level : UInt8) (props : List MqttProp) : Bytes := if level = 5 then propSection props else []

def WillPart.wire (level : UInt8) (w : WillPart) : Bytes :=
  levelSection level w.props ++ (encodeData w.topic ++ encodeData w.payload)

/-- A section that may be missing. -/
def optionWire {α : Type} (wire : α → Bytes) (x : Option α) : Bytes := (x.map wire).getD []

/-- The connect flags: reserved bit clear, and no Will QoS or Will Retain without a will. -/
def flagsByte (clean : Bool) (will : Option (Nat × Bool)) (username password : Bool) : UInt8 :=
  (if clean then 0x02 else 0) |||
    (match will with
    | some (qos, retain) => (0x04 : UInt8) ||| (UInt8.ofNat qos <<< 3) ||| (if retain then 0x20 else 0)
    | none => 0) |||
    (if username then 0x80 else 0) ||| (if password then 0x40 else 0)

namespace ConnectPacket

def flags (p : ConnectPacket) : UInt8 :=
  flagsByte p.clean (p.will.map fun w => (w.qos, w.retain)) p.username.isSome p.password.isSome

def payload (p : ConnectPacket) : Bytes :=
  levelSection p.level p.props ++ (encodeData p.clientId ++ (optionWire (WillPart.wire p.level) p.will ++
    (optionWire encodeData p.username ++ optionWire encodeData p.password)))

def body (p : ConnectPacket) : Bytes := connectFront p.level p.flags p.keepAlive ++ p.payload

def wire (p : ConnectPacket) : Bytes := 0x10 :: (vbiBytes maxLenBytes p.body.length ++ p.body)

end ConnectPacket

/-! ### What is decoded of a packet -/

/-- A slice that ends by `n` and holds the bytes. -/
structure Slice.Shows (rx : Bytes) (n : Nat) (s : Slice) (bytes : Bytes) : Prop where
  get : s.get rx = bytes
  len : s.len = bytes.length
  inside : s.Inside n

/-- Properties that point nowhere behind `n`. -/
def PropsShow (rx : Bytes) (n : Nat) (views : List PropView) (props : List MqttProp) : Prop :=
  views.map (PropView.read rx) = props ∧ ∀ v ∈ views, v.Inside n

structure LwtView.Shows (rx : Bytes) (n : Nat) (v : LwtView) (w : WillPart) : Prop where
  qos : v.qos = w.qos
  retain : v.retain = if w.retain then 1 else 0
  props : PropsShow rx n v.props w.props
  topicName : v.topicName.Shows rx n w.topic
  buffer : v.buffer.Shows rx n w.payload

structure ConnectView.Shows (rx : Bytes) (n : Nat) (c : ConnectView) (p : ConnectPacket) : Prop where
  protocolLevel : c.protocolLevel = p.level
  cleanSession : c.cleanSession = if p.clean then 1 else 0
  keepAliveSec : c.keepAliveSec = p.keepAlive
  props : PropsShow rx n c.props p.props
  clientId : c.clientId.Shows rx n p.clientId
  lwtMsg : Option.Rel (LwtView.Shows rx n) c.lwtMsg p.will
  username : Option.Rel (Slice.Shows rx n) c.username p.username
  password : Option.Rel (Slice.Shows rx n) c.password p.password

theorem Slice.Shows.mono {rx : Bytes} {n m : Nat} {s : Slice} {bytes : Bytes} (h : s.Shows rx n bytes) (hle : n ≤ m) :
    s.Shows rx m bytes :=
  ⟨h.get, h.len, Nat.le_trans h.inside hle⟩

theorem PropsShow.mono {rx : Bytes} {n m : Nat} {views : List PropView} {props : List MqttProp}
    (h : PropsShow rx n views props) (hle : n ≤ m) : PropsShow rx m views props :=
  ⟨h.1, fun v hv => (h.2 v hv).mono hle⟩

theorem LwtView.Shows.mono {rx : Bytes} {n m : Nat} {v : LwtView} {w : WillPart} (h : v.Shows rx n w) (hle : n ≤ m) :
    v.Shows rx m w where
  qos := h.qos
  retain := h.retain
  props := h.props.mono hle
  topicName := h.topicName.mono hle
  buffer := h.buffer.mono hle

theorem option_rel_mono {α β : Type} {r s : α → β → Prop} (hrs : ∀ a b, r a b → s a b) {x : Option α} {y : Option β}
    (h : Option.Rel r x y) : Option.Rel s x y := by
  cases h with
  | some hab => exact .some (hrs _ _ hab)
  | none => exact .none

/-! ### Sections -/

section Sections
variable {rx : Bytes} (limit : Nat)

theorem wordDiff_length {pos : Nat} (hrx : rx.length < 2147483648) (hpos : pos ≤ rx.length) :
    wordDiff rx.length pos = rx.length - pos :=
  wordDiff_of_le hpos (by omega)

/-- A string in place, and that nothing else is taken for one. -/
theorem scanString_ok_iff {pos : Nat} (hrx : rx.length < 2147483648) (hpos : pos ≤ rx.length) (s : Slice) :
    scanString rx pos (wordDiff rx.length pos) = .ok s ↔
      ∃ str, StringOk str ∧ At rx pos (encodeData str) ∧ s = ⟨pos + 2, str.length⟩ := by
  have hagree : Agrees Coded (StringAt rx pos (rx.length - pos)) (scanString rx pos (rx.length - pos)) _ :=
    scanString_agrees (by omega) (by omega)
  rw [wordDiff_length hrx hpos]
  constructor
  · intro h
    obtain ⟨str, hdec, hat⟩ := Agree.right_of_ok hagree h
    obtain ⟨hlen, hutf, hrest⟩ := decodeString_canonical hdec
    refine ⟨str, ⟨hlen, hutf⟩, Layout.at_iff.mpr hrest, ?_⟩
    rw [← hat.off, ← hat.len]
  · rintro ⟨str, ⟨hlen, hutf⟩, hat, rfl⟩
    obtain ⟨rest, hrest⟩ := Layout.at_iff.mp hat
    have hdec : decodeString (rx.drop pos) = .ok str := by
      rw [hrest]
      exact decodeString_encodeData hlen hutf rest
    obtain ⟨s, hscan, hs⟩ := Agree.left_of_ok hagree hdec
    rw [hscan, ← hs.off, ← hs.len]

theorem scanNum_ok_iff {pos : Nat} (hrx : rx.length < 2147483648) (hpos : pos ≤ rx.length) (n : Nat) :
    scanNum rx pos (wordDiff rx.length pos) = .ok n ↔ n < 65536 ∧ At rx pos (encodeNum n) := by
  have hagree : Agrees Coded Eq (scanNum rx pos (rx.length - pos)) _ := scanNum_agrees (by omega)
  rw [wordDiff_length hrx hpos]
  constructor
  · intro h
    obtain ⟨_, hdec, rfl⟩ := Agree.right_of_ok hagree h
    obtain ⟨hlt, hrest⟩ := decodeNum_canonical hdec
    exact ⟨hlt, Layout.at_iff.mpr hrest⟩
  · rintro ⟨hlt, hat⟩
    obtain ⟨rest, hrest⟩ := Layout.at_iff.mp hat
    have hdec : decodeNum (rx.drop pos) = .ok n := by
      rw [hrest]
      exact decodeNum_encodeNum hlt rest
    obtain ⟨_, hscan, rfl⟩ := Agree.left_of_ok hagree hdec
    exact hscan

/-- The slice behind a length prefix holds what stands there. -/
theorem shows_of_at {pos : Nat} {data : Bytes} (hat : At rx pos (encodeData data)) :
    Slice.Shows rx (pos + (encodeData data).length) ⟨pos + 2, data.length⟩ data := by
  rw [encodeData, at_append, encodeNum_length] at hat
  refine ⟨hat.2.take_drop, rfl, ?_⟩
  rw [Slice.Inside, encodeData_length]
  dsimp only
  omega

theorem reads_field (hrx : rx.length < 2147483648) :
    Reads rx limit (scanField rx limit) StringOk encodeData (Slice.Shows rx) where
  sound := by
    intro pos s next hpos h
    obtain ⟨s', hs, h⟩ := bind_eq_ok.mp h
    obtain ⟨str, hok, hat, rfl⟩ := (scanString_ok_iff hrx hpos s').mp hs
    split at h
    · cases h
    cases h
    rw [← encodeData_length]
    exact ⟨str, hok, hat, rfl, shows_of_at hat⟩
  complete := by
    intro pos str hpos hok hat hlimit
    refine ⟨⟨pos + 2, str.length⟩, ?_, shows_of_at hat⟩
    rw [encodeData_length] at hlimit ⊢
    rw [scanField, (scanString_ok_iff hrx hpos _).mpr ⟨str, hok, hat, rfl⟩, ok_bind, if_neg (by dsimp only; omega)]

/-- A length and as many bytes behind it, wherever they are known to fit. -/
theorem at_encodeData {pos len : Nat} (hlt : len < 65536) (hat : At rx pos (encodeNum len))
    (hfits : pos + 2 + len ≤ rx.length) :
    ∃ data, DataOk data ∧ At rx pos (encodeData data) ∧ data.length = len := by
  have hdata : ((rx.drop (pos + 2)).take len).length = len := by
    rw [List.length_take, List.length_drop]
    omega
  refine ⟨(rx.drop (pos + 2)).take len, by rwa [DataOk, hdata], ?_, hdata⟩
  rw [encodeData, at_append, hdata, encodeNum_length]
  exact ⟨hat, Layout.at_take_drop⟩

theorem reads_willPayload (hrx : rx.length < 2147483648) (hlimit : limit ≤ rx.length) :
    Reads rx limit (scanWillPayload rx limit) DataOk encodeData (Slice.Shows rx) where
  sound := by
    intro pos s next hpos h
    obtain ⟨len, hlen, h⟩ := bind_eq_ok.mp h
    obtain ⟨hlt, hat⟩ := (scanNum_ok_iff hrx hpos len).mp hlen
    split at h
    · cases h
    cases h
    obtain ⟨data, hok, hat', rfl⟩ := at_encodeData hlt hat (by omega)
    have hshows := shows_of_at hat'
    rw [encodeData_length, ← Nat.add_assoc] at hshows
    exact ⟨data, hok, hat', by rw [encodeData_length, Nat.add_assoc], hshows⟩
  complete := by
    intro pos data hpos hok hat hend
    refine ⟨⟨pos + 2, data.length⟩, ?_, shows_of_at hat⟩
    rw [encodeData, at_append] at hat
    rw [encodeData_length] at hend ⊢
    rw [scanWillPayload, (scanNum_ok_iff hrx hpos _).mpr ⟨hok, hat.1⟩, ok_bind, if_neg (by omega), Nat.add_assoc]

theorem reads_password (hrx : rx.length < 2147483648) :
    Reads rx limit (scanPassword rx limit) DataOk encodeData (Slice.Shows rx) where
  sound := by
    intro pos s next hpos h
    obtain ⟨len, hlen, h⟩ := bind_eq_ok.mp h
    obtain ⟨hlt, hat⟩ := (scanNum_ok_iff hrx hpos len).mp hlen
    have htwo := hat.le hpos
    rw [encodeNum_length] at htwo
    rw [wordDiff_length hrx htwo] at h
    split at h
    · cases h
    split at h
    · cases h
    cases h
    obtain ⟨data, hok, hat', rfl⟩ := at_encodeData hlt hat (by omega)
    have hshows := shows_of_at hat'
    rw [encodeData_length, ← Nat.add_assoc] at hshows
    exact ⟨data, hok, hat', by rw [encodeData_length, Nat.add_assoc], hshows⟩
  complete := by
    intro pos data hpos hok hat hend
    refine ⟨⟨pos + 2, data.length⟩, ?_, shows_of_at hat⟩
    rw [encodeData, at_append, encodeNum_length] at hat
    have htwo := hat.1.le hpos
    rw [encodeNum_length] at htwo
    have hfits := hat.2.le htwo
    rw [encodeData_length] at hend ⊢
    rw [scanPassword, (scanNum_ok_iff hrx hpos _).mpr ⟨hok, hat.1⟩, ok_bind, wordDiff_length hrx htwo,
      if_neg (by omega), if_neg (by omega), Nat.add_assoc]

/-- A section that a flag selects is read as the section is, and an absent one takes nothing. -/
theorem reads_optional {α γ : Type} {scan : Nat → Except Fault (α × Nat)} {Ok : γ → Prop} {wire : γ → Bytes}
    {Shows : Nat → α → γ → Prop} (h : Reads rx limit scan Ok wire Shows) (present : Bool) :
    Reads rx limit (scanOptional present scan) (fun o => o.isSome = present ∧ ∀ v ∈ o, Ok v) (optionWire wire)
      (fun n => Option.Rel (Shows n)) where
  sound := by
    intro pos o next hpos hscan
    unfold scanOptional at hscan
    cases present with
    | false =>
      cases hscan
      exact ⟨none, ⟨rfl, by simp⟩, Layout.at_nil, rfl, .none⟩
    | true =>
      obtain ⟨⟨x, stop⟩, hx, hscan⟩ := bind_eq_ok.mp hscan
      cases hscan
      obtain ⟨v, hok, hat, hnext, hshows⟩ := h.sound hpos hx
      exact ⟨some v, ⟨rfl, by simpa using hok⟩, hat, hnext, .some hshows⟩
  complete := by
    intro pos o hpos hok hat hend
    unfold scanOptional
    cases o with
    | none =>
      rw [← hok.1]
      exact ⟨none, rfl, .none⟩
    | some v =>
      obtain ⟨x, hx, hshows⟩ := h.complete hpos (hok.2 v rfl) hat hend
      rw [← hok.1]
      refine ⟨some x, ?_, .some hshows⟩
      rw [if_pos (by rfl), hx]
      rfl

/-! ### Properties -/

theorem propsOk_nil : PropsOk [] where
  typed := by simp
  own := by simp
  valid := ⟨by decide, by simp, by simp, by simp⟩
  auth := by simp [authPaired]

theorem PropsOk.map_own {props : List MqttProp} (h : PropsOk props) : props.map MqttProp.own = props :=
  (List.map_congr_left h.own).trans (List.map_id props)

theorem propsWire_eq_nil {props : List MqttProp} (h : (propsWire props).length = 0) : props = [] := by
  cases props with
  | nil => rfl
  | cons p props => simp [propsWire, MqttProp.wire] at h

theorem reads_propSection (hrx : rx.length < 2147483648) (room : Nat) :
    Reads rx limit (scanPropSection room rx) (fun props => PropsOk props ∧ props.length ≤ room) propSection
      (PropsShow rx) where
  sound := by
    intro pos views next hpos h
    unfold scanPropSection at h
    rw [if_neg (by omega), wordDiff_length hrx hpos] at h
    obtain ⟨⟨len, n⟩, hvbi, h⟩ := bind_eq_ok.mp h
    have hagree : Agrees Coded Eq (scanVbi rx pos (rx.length - pos)) _ := scanVbi_agrees (by omega)
    obtain ⟨_, hdec, rfl⟩ := Agree.right_of_ok hagree hvbi
    obtain ⟨hmax, hn, hrest⟩ := decodeVbi_canonical hdec
    have hat : At rx pos (vbiBytes maxLenBytes len) := Layout.at_iff.mpr hrest
    have hle := hat.le hpos
    rw [← hn] at hle
    dsimp only at h
    split at h
    next hsome =>
      obtain ⟨⟨views', total⟩, hscan, h⟩ := bind_eq_ok.mp h
      cases h
      rw [wordDiff_length hrx hle] at hscan
      have hlt : len < 2147483648 := Nat.lt_of_le_of_lt hmax (by decide)
      have hprops : Agrees Coded _ (scanProps .connect room rx (pos + n) (rx.length - (pos + n)) len) _ :=
        scanProps_decodeProps (by omega) (by omega) hlt room
      obtain ⟨props, hdecp, hshown⟩ := Agree.right_of_ok hprops hscan
      obtain ⟨hall, hroom, hauth, bytes, rest, henc, hbytes, hdrop⟩ := decodeProps_canonical hdecp hmax
      have htyped : ∀ p ∈ props, p.Typed := fun p hp => (hall p hp).2
      obtain ⟨hvalid, rfl⟩ := (encodeProps_ok_iff htyped bytes).mp henc
      have htotal : total = len := hshown.ends
      subst htotal
      refine ⟨props, ⟨⟨htyped, fun p hp => (hall p hp).1, hvalid, hauth⟩, hroom⟩, ?_, ?_, hshown.read, hshown.inside⟩
      · rw [propSection, at_append, hbytes, ← hn]
        exact ⟨hat, Layout.at_iff.mpr ⟨rest, hdrop⟩⟩
      · rw [propSection, List.length_append, hbytes, ← hn, Nat.add_assoc]
    next hnone =>
      cases h
      have hzero : len = 0 := by omega
      subst hzero
      refine ⟨[], ⟨propsOk_nil, Nat.zero_le _⟩, ?_, ?_, rfl, by simp⟩
      · rw [propSection, at_append]
        exact ⟨hat, Layout.at_nil⟩
      · rw [propSection, List.length_append, hn]
        rfl
  complete := by
    intro pos props hpos hok hat hend
    obtain ⟨hprops, hroom⟩ := hok
    have hshort := propsWire_short hprops.typed hprops.valid
    have hmax : (propsWire props).length ≤ maxRemainLen := Nat.le_trans hshort (by decide)
    rw [propSection, at_append] at hat
    have hle := hat.1.le hpos
    obtain ⟨rest, hrest⟩ := Layout.at_iff.mp hat.1
    have hagree : Agrees Coded Eq (scanVbi rx pos (rx.length - pos)) _ := scanVbi_agrees (by omega)
    have hdec := decodeVbi_vbiBytes hmax rest
    rw [← hrest] at hdec
    obtain ⟨_, hvbi, rfl⟩ := Agree.left_of_ok hagree hdec
    unfold scanPropSection
    rw [if_neg (by omega), wordDiff_length hrx hpos, hvbi, ok_bind]
    dsimp only
    by_cases hsome : (propsWire props).length > 0
    · obtain ⟨rest', hrest'⟩ := Layout.at_iff.mp hat.2
      have hagree' : Agrees Coded _ (scanProps .connect room rx (pos + (vbiBytes maxLenBytes (propsWire props).length).length)
          (rx.length - (pos + (vbiBytes maxLenBytes (propsWire props).length).length)) (propsWire props).length) _ :=
        scanProps_decodeProps (by omega) (by omega) (by omega) room
      have hdecp := decodeProps_encodeProps hprops.typed (encodeProps_eq hprops.typed hprops.valid) hroom hprops.auth rest'
      rw [← hrest', hprops.map_own] at hdecp
      obtain ⟨⟨views, total⟩, hscan, hshown⟩ := Agree.left_of_ok hagree' hdecp
      have htotal : total = (propsWire props).length := hshown.ends
      rw [if_pos hsome, wordDiff_length hrx hle, hscan, ok_bind, htotal]
      refine ⟨views, ?_, ?_⟩
      · rw [propSection, List.length_append, Nat.add_assoc]
      · refine ⟨hshown.read, ?_⟩
        rw [propSection, List.length_append, ← Nat.add_assoc]
        exact hshown.inside
    · obtain rfl : props = [] := propsWire_eq_nil (by omega)
      rw [if_neg hsome]
      exact ⟨[], rfl, rfl, by simp⟩

theorem reads_willProps (hrx : rx.length < 2147483648) (room : Nat) :
    Reads rx limit (scanWillProps room rx) (fun props => WillPropsOk props ∧ props.length ≤ room) propSection
      (PropsShow rx) where
  sound := by
    intro pos views next hpos h
    obtain ⟨⟨views', next'⟩, hscan, h⟩ := bind_eq_ok.mp h
    dsimp only at h
    split at h
    · cases h
    next htypes =>
    cases h
    obtain ⟨props, ⟨hok, hroom⟩, hat, hnext, hread, hinside⟩ := (reads_propSection limit hrx room).sound hpos hscan
    refine ⟨props, ⟨⟨hok, ?_⟩, hroom⟩, hat, hnext, hread, hinside⟩
    simp only [Bool.not_eq_true', Bool.not_eq_false, List.all_eq_true] at htypes
    rw [← hread]
    simpa [PropView.read] using htypes
  complete := by
    intro pos props hpos hok hat hend
    obtain ⟨views, hscan, hread, hinside⟩ := (reads_propSection limit hrx room).complete hpos ⟨hok.1.1, hok.2⟩ hat hend
    refine ⟨views, ?_, hread, hinside⟩
    have htypes : views.all (fun p => willPropsValidateType p.type) = true := by
      have hall := hok.1.2
      rw [← hread] at hall
      rw [List.all_eq_true]
      simpa [PropView.read] using hall
    rw [scanWillProps, hscan, ok_bind]
    simp only [htypes, Bool.not_true, Bool.false_eq_true, if_false]

theorem reads_levelProps {scan : Nat → Except Fault (List PropView × Nat)} {Ok : List MqttProp → Prop} {room : Nat}
    (h : Reads rx limit scan (fun props => Ok props ∧ props.length ≤ room) propSection (PropsShow rx)) (level : UInt8) :
    Reads rx limit (scanLevelProps level scan) (fun props => LevelProps Ok level props ∧ props.length ≤ room)
      (levelSection level) (PropsShow rx) := by
  unfold scanLevelProps LevelProps levelSection
  by_cases hlevel : level = 5
  · simp only [if_pos hlevel]
    exact h
  · simp only [if_neg hlevel]
    constructor
    · intro pos views next hpos hscan
      cases hscan
      exact ⟨[], ⟨rfl, Nat.zero_le _⟩, Layout.at_nil, rfl, rfl, by simp⟩
    · rintro pos props hpos ⟨rfl, hroom⟩ hat hend
      exact ⟨[], rfl, rfl, by simp⟩

/-! ### The will -/

/-- The will that the flags announce. -/
structure Announced (level flags : UInt8) (room : Nat) (w : WillPart) : Prop where
  ok : w.Ok level
  room : w.props.length ≤ room
  qos : w.qos = ((flags &&& 0x18) >>> 3).toNat
  retain : w.retain = decide (flags &&& 0x20 ≠ 0)

theorem retain_shown {flags : UInt8} {retain : Bool} (h : retain = decide (flags &&& 0x20 ≠ 0)) :
    (if flags &&& 0x20 ≠ 0 then 1 else 0 : UInt8) = if retain then 1 else 0 := by
  rw [h]
  simp only [decide_eq_true_eq]

theorem reads_will (hrx : rx.length < 2147483648) (hlimit : limit ≤ rx.length) {level flags : UInt8}
    (hqos : ((flags &&& 0x18) >>> 3).toNat ≤ 2) (room : Nat) :
    Reads rx limit (scanWill true level flags room rx limit) (Announced level flags room) (WillPart.wire level)
      (LwtView.Shows rx) where
  sound := by
    intro pos v next hpos h
    obtain ⟨⟨views, pos₁⟩, hprops, h⟩ := bind_eq_ok.mp h
    obtain ⟨⟨topic, pos₂⟩, htopic, h⟩ := bind_eq_ok.mp h
    obtain ⟨props, ⟨hlevel, hroom⟩, hat, rfl, hshown⟩ :=
      (reads_levelProps limit (reads_willProps limit hrx room) level).sound hpos hprops
    have hpos₁ := hat.le hpos
    obtain ⟨str, hstr, hat₁, rfl, hshown₁⟩ := (reads_field limit hrx).sound hpos₁ htopic
    have hpos₂ := hat₁.le hpos₁
    dsimp only at h
    split at h
    · cases h
    next hname =>
    rw [hshown₁.len, hshown₁.get] at hname
    simp only [Bool.or_eq_true, decide_eq_true_eq, Bool.not_eq_true', not_or, Bool.not_eq_false] at hname
    obtain ⟨⟨buffer, pos₃⟩, hpayload, h⟩ := bind_eq_ok.mp h
    cases h
    obtain ⟨data, hdata, hat₂, rfl, hshown₂⟩ := (reads_willPayload limit hrx hlimit).sound hpos₂ hpayload
    refine ⟨⟨_, decide (flags &&& 0x20 ≠ 0), props, str, data⟩, ⟨⟨hqos, hlevel, hstr, ?_, hname.2, hdata⟩, hroom, rfl, rfl⟩,
      ?_, ?_, ?_⟩
    · rintro rfl
      exact hname.1 rfl
    · rw [WillPart.wire, at_append, at_append]
      exact ⟨hat, hat₁, hat₂⟩
    · rw [WillPart.wire, List.length_append, List.length_append, Nat.add_assoc, Nat.add_assoc]
    · exact ⟨rfl, retain_shown rfl, hshown.mono (by omega), hshown₁.mono (by omega), hshown₂⟩
  complete := by
    intro pos w hpos hw hat hend
    have hok := hw.ok
    rw [WillPart.wire, at_append, at_append] at hat
    rw [WillPart.wire, List.length_append, List.length_append] at hend ⊢
    obtain ⟨hat, hat₁, hat₂⟩ := hat
    have hpos₁ := hat.le hpos
    have hpos₂ := hat₁.le hpos₁
    obtain ⟨views, hprops, hshown⟩ := (reads_levelProps limit (reads_willProps limit hrx room) level).complete hpos
      ⟨hok.props, hw.room⟩ hat (by omega)
    obtain ⟨topic, htopic, hshown₁⟩ := (reads_field limit hrx).complete hpos₁ hok.topic hat₁ (by omega)
    obtain ⟨buffer, hpayload, hshown₂⟩ := (reads_willPayload limit hrx hlimit).complete hpos₂ hok.payload hat₂ (by omega)
    have hname : ¬(decide (topic.len = 0) || !topicNameValid (topic.get rx) level.toNat) = true := by
      rw [hshown₁.len, hshown₁.get, hok.plain]
      simpa using hok.filled
    refine ⟨⟨((flags &&& 0x18) >>> 3).toNat, if flags &&& 0x20 ≠ 0 then 1 else 0, views, topic, buffer⟩, ?_, ?_⟩
    · rw [scanWill, if_neg (by decide), hprops, ok_bind]
      dsimp only
      rw [htopic, ok_bind]
      dsimp only
      rw [if_neg hname, hpayload, ok_bind, Nat.add_assoc, Nat.add_assoc]
    · rw [← Nat.add_assoc, ← Nat.add_assoc]
      exact ⟨hw.qos.symm, retain_shown hw.retain, hshown.mono (by omega), hshown₁.mono (by omega), hshown₂⟩

end Sections

/-! ### The flags -/

/-- What the decoder takes a flags byte to say. -/
structure FlagsSay (flags : UInt8) (clean : Bool) (will : Option (Nat × Bool)) (username password : Bool) : Prop where
  isClean : decide (flags &&& 0x02 ≠ 0) = clean
  hasWill : decide (flags &&& 0x04 ≠ 0) = will.isSome
  qos : ∀ w ∈ will, ((flags &&& 0x18) >>> 3).toNat = w.1
  retain : ∀ w ∈ will, decide (flags &&& 0x20 ≠ 0) = w.2
  hasUsername : decide (flags &&& 0x80 ≠ 0) = username
  hasPassword : decide (flags &&& 0x40 ≠ 0) = password

/-- The will that a flags byte announces. -/
def flagsWill (flags : UInt8) : Option (Nat × Bool) :=
  if flags &&& 0x04 ≠ 0 then some (((flags &&& 0x18) >>> 3).toNat, decide (flags &&& 0x20 ≠ 0)) else none

theorem connectFlagsValid_iff (level flags : UInt8) :
    connectFlagsValid level flags = true ↔
      connectFlagsValid 5 flags = true ∧ (level = 4 → flags &&& 0x40 ≠ 0 → flags &&& 0x80 ≠ 0) := by
  unfold connectFlagsValid
  by_cases h : level = 4
  · subst h
    split
    · simp
    split
    · simp
    split
    · simp
    · simp [or_iff_not_imp_left]
  · simp [h]

/-- A valid byte is the one its bits are written as. -/
theorem flagsByte_flagsWill {flags : UInt8} (h : connectFlagsValid 5 flags = true) :
    flagsByte (decide (flags &&& 0x02 ≠ 0)) (flagsWill flags) (decide (flags &&& 0x80 ≠ 0))
        (decide (flags &&& 0x40 ≠ 0)) = flags ∧
      ((flags &&& 0x18) >>> 3).toNat ≤ 2 := by
  have hall : ∀ n : Fin 256, connectFlagsValid 5 (UInt8.ofFin n) = true →
      flagsByte (decide (UInt8.ofFin n &&& 0x02 ≠ 0)) (flagsWill (UInt8.ofFin n))
          (decide (UInt8.ofFin n &&& 0x80 ≠ 0)) (decide (UInt8.ofFin n &&& 0x40 ≠ 0)) = UInt8.ofFin n ∧
        ((UInt8.ofFin n &&& 0x18) >>> 3).toNat ≤ 2 := by
    decide +kernel
  exact hall flags.toFin h

theorem flagsByte_means (clean : Bool) {will : Option (Nat × Bool)} (username password : Bool)
    (hwill : ∀ w ∈ will, w.1 ≤ 2) :
    FlagsSay (flagsByte clean will username password) clean will username password ∧
      connectFlagsValid 5 (flagsByte clean will username password) = true := by
  cases will with
  | none =>
    have hall : ∀ clean username password,
        (decide (flagsByte clean none username password &&& 0x02 ≠ 0) = clean ∧
          decide (flagsByte clean none username password &&& 0x04 ≠ 0) = false ∧
          decide (flagsByte clean none username password &&& 0x80 ≠ 0) = username ∧
          decide (flagsByte clean none username password &&& 0x40 ≠ 0) = password) ∧
        connectFlagsValid 5 (flagsByte clean none username password) = true := by
      decide
    obtain ⟨⟨hclean, hwill, husername, hpassword⟩, hvalid⟩ := hall clean username password
    exact ⟨⟨hclean, hwill, by simp, by simp, husername, hpassword⟩, hvalid⟩
  | some w =>
    obtain ⟨qos, retain⟩ := w
    have hall : ∀ (qos : Fin 3) (retain clean username password : Bool),
        (decide (flagsByte clean (some (qos.val, retain)) username password &&& 0x02 ≠ 0) = clean ∧
          decide (flagsByte clean (some (qos.val, retain)) username password &&& 0x04 ≠ 0) = true ∧
          ((flagsByte clean (some (qos.val, retain)) username password &&& 0x18) >>> 3).toNat = qos.val ∧
          decide (flagsByte clean (some (qos.val, retain)) username password &&& 0x20 ≠ 0) = retain ∧
          decide (flagsByte clean (some (qos.val, retain)) username password &&& 0x80 ≠ 0) = username ∧
          decide (flagsByte clean (some (qos.val, retain)) username password &&& 0x40 ≠ 0) = password) ∧
        connectFlagsValid 5 (flagsByte clean (some (qos.val, retain)) username password) = true := by
      decide +kernel
    have hqos : qos ≤ 2 := hwill _ rfl
    obtain ⟨⟨hclean, hwill, hbits, hretain, husername, hpassword⟩, hvalid⟩ :=
      hall ⟨qos, by omega⟩ retain clean username password
    exact ⟨⟨hclean, hwill, by simpa using hbits, by simpa using hretain, husername, hpassword⟩, hvalid⟩

/-! ### The payload -/

section Payload
variable {rx : Bytes} {limit : Nat}

theorem scanPayload_sound (hrx : rx.length < 2147483648) (hlimit : limit ≤ rx.length) {room pos keepAlive : Nat}
    {level flags : UInt8} (hkeep : keepAlive < 65536) (hflags : connectFlagsValid level flags = true)
    (hpos : pos ≤ rx.length) {c : ConnectView} (h : scanPayload true room level flags keepAlive rx limit pos = .ok c) :
    ∃ p : ConnectPacket, p.Ok ∧ p.slots ≤ room ∧ p.level = level ∧ p.flags = flags ∧ p.keepAlive = keepAlive ∧
      At rx pos p.payload ∧ limit = pos + p.payload.length ∧ c.Shows rx limit p := by
  obtain ⟨hvalid, hpaired⟩ := (connectFlagsValid_iff level flags).mp hflags
  obtain ⟨hbyte, hqos⟩ := flagsByte_flagsWill hvalid
  obtain ⟨⟨views, pos₁⟩, hprops, h⟩ := bind_eq_ok.mp h
  obtain ⟨⟨clientId, pos₂⟩, hclient, h⟩ := bind_eq_ok.mp h
  obtain ⟨⟨lwt, pos₃⟩, hwill, h⟩ := bind_eq_ok.mp h
  obtain ⟨⟨username, pos₄⟩, huser, h⟩ := bind_eq_ok.mp h
  obtain ⟨⟨password, pos₅⟩, hpass, h⟩ := bind_eq_ok.mp h
  obtain ⟨props, ⟨hlevel, hroom⟩, hat, rfl, hshown⟩ :=
    (reads_levelProps limit (reads_propSection limit hrx room) level).sound hpos hprops
  have hpos₁ := hat.le hpos
  obtain ⟨id, hid, hat₁, rfl, hshown₁⟩ := (reads_field limit hrx).sound hpos₁ hclient
  have hpos₂ := hat₁.le hpos₁
  have hviews : views.length = props.length := by rw [← hshown.1, List.length_map]
  obtain ⟨will, ⟨hsome, hannounced⟩, hat₂, rfl, hshown₂⟩ :=
    (reads_optional limit (reads_will limit hrx hlimit hqos (room - views.length)) _).sound hpos₂ hwill
  have hpos₃ := hat₂.le hpos₂
  obtain ⟨name, ⟨hsome', hname⟩, hat₃, rfl, hshown₃⟩ := (reads_optional limit (reads_field limit hrx) _).sound hpos₃ huser
  have hpos₄ := hat₃.le hpos₃
  obtain ⟨word, ⟨hsome'', hword⟩, hat₄, rfl, hshown₄⟩ :=
    (reads_optional limit (reads_password limit hrx) _).sound hpos₄ hpass
  dsimp only at h
  split at h
  · cases h
  next hend =>
  cases h
  have hend := not_not.mp hend
  have hwillFlags : will.map (fun w => (w.qos, w.retain)) = flagsWill flags := by
    unfold flagsWill
    cases will with
    | none =>
      rw [if_neg (by simpa using hsome.symm)]
      rfl
    | some w =>
      have hw := hannounced w rfl
      rw [if_pos (by simpa using hsome.symm), Option.map_some, hw.qos, hw.retain]
  refine ⟨⟨level, decide (flags &&& 0x02 ≠ 0), keepAlive, props, id, will, name, word⟩, ?_, ?_, rfl, ?_, rfl, ?_, ?_, ?_⟩
  · refine ⟨hkeep, hlevel, hid, fun w hw => (hannounced w hw).ok, hname, hword, ?_⟩
    intro hfour hpassword
    rw [hsome', decide_eq_true_eq]
    rw [hsome'', decide_eq_true_eq] at hpassword
    exact hpaired hfour hpassword
  · unfold ConnectPacket.slots
    cases will with
    | none => exact hroom
    | some w =>
      have hw := (hannounced w rfl).room
      show props.length + w.props.length ≤ room
      omega
  · rw [ConnectPacket.flags, hwillFlags, hsome', hsome'', hbyte]
  · rw [ConnectPacket.payload, at_append, at_append, at_append, at_append]
    exact ⟨hat, hat₁, hat₂, hat₃, hat₄⟩
  · rw [ConnectPacket.payload]
    simp only [List.length_append]
    omega
  · refine ⟨rfl, ?_, rfl, hshown.mono (by omega), hshown₁.mono (by omega),
      option_rel_mono (fun _ _ h => h.mono (by omega)) hshown₂,
      option_rel_mono (fun _ _ h => h.mono (by omega)) hshown₃, ?_⟩
    · simp only [decide_eq_true_eq]
    · rwa [hend] at hshown₄

theorem ConnectPacket.Ok.flags_say {p : ConnectPacket} (h : p.Ok) :
    FlagsSay p.flags p.clean (p.will.map fun w => (w.qos, w.retain)) p.username.isSome p.password.isSome ∧
      connectFlagsValid p.level p.flags = true := by
  have hwill : ∀ w ∈ p.will.map (fun w => (w.qos, w.retain)), w.1 ≤ 2 := by
    intro w hw
    obtain ⟨w', hw', rfl⟩ := Option.map_eq_some_iff.mp hw
    exact (h.will w' hw').qos
  obtain ⟨hsay, hvalid⟩ := flagsByte_means p.clean p.username.isSome p.password.isSome hwill
  refine ⟨hsay, (connectFlagsValid_iff _ _).mpr ⟨hvalid, fun hfour hpassword => ?_⟩⟩
  have hpass : p.password.isSome = true := by
    rw [← hsay.hasPassword]
    exact decide_eq_true hpassword
  exact of_decide_eq_true (hsay.hasUsername.trans (h.paired hfour hpass))

theorem scanPayload_complete (hrx : rx.length < 2147483648) (hlimit : limit ≤ rx.length) {room pos : Nat}
    {p : ConnectPacket} (hp : p.Ok) (hroom : p.slots ≤ room) (hpos : pos ≤ rx.length) (hat : At rx pos p.payload)
    (hend : limit = pos + p.payload.length) :
    ∃ c, scanPayload true room p.level p.flags p.keepAlive rx limit pos = .ok c ∧ c.Shows rx limit p := by
  obtain ⟨hsay, hvalid⟩ := hp.flags_say
  have hqos := (flagsByte_flagsWill ((connectFlagsValid_iff _ _).mp hvalid).1).2
  rw [ConnectPacket.payload, at_append, at_append, at_append, at_append] at hat
  rw [ConnectPacket.payload] at hend
  simp only [List.length_append] at hend
  obtain ⟨hat, hat₁, hat₂, hat₃, hat₄⟩ := hat
  have hpos₁ := hat.le hpos
  have hpos₂ := hat₁.le hpos₁
  have hpos₃ := hat₂.le hpos₂
  have hpos₄ := hat₃.le hpos₃
  unfold ConnectPacket.slots at hroom
  obtain ⟨views, hprops, hshown⟩ := (reads_levelProps limit (reads_propSection limit hrx room) p.level).complete hpos
    ⟨hp.props, by omega⟩ hat (by omega)
  obtain ⟨clientId, hclient, hshown₁⟩ := (reads_field limit hrx).complete hpos₁ hp.clientId hat₁ (by omega)
  have hviews : views.length = p.props.length := by rw [← hshown.1, List.length_map]
  have hwill : p.will.isSome = decide (p.flags &&& 0x04 ≠ 0) := by rw [hsay.hasWill, Option.isSome_map]
  have hannounced : ∀ w ∈ p.will, Announced p.level p.flags (room - views.length) w := by
    intro w hw
    have hpair : (w.qos, w.retain) ∈ p.will.map (fun w => (w.qos, w.retain)) := Option.map_eq_some_iff.mpr ⟨w, hw, rfl⟩
    have hwroom : p.props.length + w.props.length ≤ room := by
      rw [Option.mem_def] at hw
      simpa [hw] using hroom
    exact ⟨hp.will w hw, by omega, (hsay.qos _ hpair).symm, (hsay.retain _ hpair).symm⟩
  obtain ⟨lwt, hlwt, hshown₂⟩ :=
    (reads_optional limit (reads_will limit hrx hlimit hqos (room - views.length)) _).complete hpos₂ ⟨hwill, hannounced⟩
      hat₂ (by omega)
  obtain ⟨username, huser, hshown₃⟩ := (reads_optional limit (reads_field limit hrx) _).complete hpos₃
    ⟨hsay.hasUsername.symm, hp.username⟩ hat₃ (by omega)
  obtain ⟨password, hpass, hshown₄⟩ := (reads_optional limit (reads_password limit hrx) _).complete hpos₄
    ⟨hsay.hasPassword.symm, hp.password⟩ hat₄ (by omega)
  refine ⟨⟨p.level, if p.flags &&& 0x02 ≠ 0 then 1 else 0, p.keepAlive, views, clientId, lwt, username, password⟩, ?_, ?_⟩
  · rw [scanPayload, hprops, ok_bind]
    dsimp only
    rw [hclient, ok_bind]
    dsimp only
    rw [hlwt, ok_bind]
    dsimp only
    rw [huser, ok_bind]
    dsimp only
    rw [hpass, ok_bind]
    dsimp only
    rw [if_neg (not_not.mpr (by omega))]
  · refine ⟨rfl, ?_, rfl, hshown.mono (by omega), hshown₁.mono (by omega),
      option_rel_mono (fun _ _ h => h.mono (by omega)) hshown₂,
      option_rel_mono (fun _ _ h => h.mono (by omega)) hshown₃,
      option_rel_mono (fun _ _ h => h.mono (by omega)) hshown₄⟩
    rw [← hsay.isClean]
    simp only [decide_eq_true_eq]

end Payload

/-! ### The packet -/

theorem connectFront_length (level flags : UInt8) (keepAlive : Nat) : (connectFront level flags keepAlive).length = 10 :=
  rfl

theorem encodeNum_of_bytes (hi lo : UInt8) : encodeNum (hi.toNat * 256 + lo.toNat) = [hi, lo] := by
  have hnum : decodeNum [hi, lo] = .ok (hi.toNat * 256 + lo.toNat) := rfl
  obtain ⟨-, rest, hrest⟩ := decodeNum_canonical hnum
  have hlen := congrArg List.length hrest
  rw [List.length_append, encodeNum_length] at hlen
  have hnil : rest = [] := List.length_eq_zero_iff.mp (by simpa using hlen.symm)
  rw [hrest, hnil, List.append_nil]

/-! ### Packets that fit -/

/-- A property list that the encoder takes, read or not. -/
structure PropsSent (props : List MqttProp) : Prop where
  typed : ∀ p ∈ props, p.Typed
  own : ∀ p ∈ props, p.own = p
  valid : ValidProps .connect props

theorem PropsOk.sent {props : List MqttProp} (h : PropsOk props) : PropsSent props := ⟨h.typed, h.own, h.valid⟩

/-- A packet whose parts fit their places. -/
structure ConnectPacket.Sent (p : ConnectPacket) : Prop where
  keepAlive : p.keepAlive < 65536
  props : LevelProps PropsSent p.level p.props
  clientId : DataOk p.clientId
  qos : ∀ w ∈ p.will, w.qos ≤ 2
  willProps : ∀ w ∈ p.will, LevelProps PropsSent p.level w.props
  topic : ∀ w ∈ p.will, DataOk w.topic
  payload : ∀ w ∈ p.will, DataOk w.payload
  username : ∀ s ∈ p.username, DataOk s
  password : ∀ s ∈ p.password, DataOk s

theorem LevelProps.mono {Ok Ok' : List MqttProp → Prop} (himp : ∀ props, Ok props → Ok' props) {level : UInt8}
    {props : List MqttProp} (h : LevelProps Ok level props) : LevelProps Ok' level props := by
  unfold LevelProps at h ⊢
  split
  next hlevel =>
    rw [if_pos hlevel] at h
    exact himp props h
  next hlevel => rwa [if_neg hlevel] at h

theorem ConnectPacket.Ok.sent {p : ConnectPacket} (h : p.Ok) : p.Sent where
  keepAlive := h.keepAlive
  props := h.props.mono fun _ hp => hp.sent
  clientId := h.clientId.1
  qos w hw := (h.will w hw).qos
  willProps w hw := (h.will w hw).props.mono fun _ hp => hp.1.sent
  topic w hw := (h.will w hw).topic.1
  payload w hw := (h.will w hw).payload
  username s hs := (h.username s hs).1
  password := h.password

theorem levelSection_length_le {level : UInt8} {props : List MqttProp} (h : LevelProps PropsSent level props) :
    (levelSection level props).length ≤ 3932254 := by
  unfold LevelProps at h
  unfold levelSection
  split at h
  next hlevel =>
    have hshort := propsWire_short h.typed h.valid
    have hvbi := vbiBytes_length_le maxLenBytes (propsWire props).length
    rw [if_pos hlevel, propSection, List.length_append]
    rw [maxLenBytes] at hvbi ⊢
    omega
  next hlevel =>
    rw [if_neg hlevel]
    exact Nat.zero_le _

theorem optionWire_length_le {α : Type} {wire : α → Bytes} {x : Option α} {n : Nat} (h : ∀ v ∈ x, (wire v).length ≤ n) :
    (optionWire wire x).length ≤ n := by
  cases x with
  | none => exact Nat.zero_le _
  | some v => exact h v rfl

/-- A packet that fits can be written with its length in front. -/
theorem ConnectPacket.Sent.body_length_le {p : ConnectPacket} (hp : p.Sent) : p.body.length ≤ maxRemainLen := by
  have hdata : ∀ s : Bytes, DataOk s → (encodeData s).length ≤ 65537 := by
    intro s hs
    rw [DataOk] at hs
    rw [encodeData_length]
    omega
  have hprops := levelSection_length_le hp.props
  have hid := hdata _ hp.clientId
  have hwill : (optionWire (WillPart.wire p.level) p.will).length ≤ 4063328 := by
    refine optionWire_length_le fun w hw => ?_
    have hwprops := levelSection_length_le (hp.willProps w hw)
    have htopic := hdata _ (hp.topic w hw)
    have hpayload := hdata _ (hp.payload w hw)
    rw [WillPart.wire, List.length_append, List.length_append]
    omega
  have huser := optionWire_length_le fun s hs => hdata s (hp.username s hs)
  have hpass := optionWire_length_le fun s hs => hdata s (hp.password s hs)
  rw [ConnectPacket.body, List.length_append, connectFront_length, ConnectPacket.payload]
  simp only [List.length_append]
  rw [maxRemainLen]
  omega

section Packet
variable {rx : Bytes}

theorem scanFixedHeader_ok_iff (headerLen remainLen : Nat) :
    scanFixedHeader rx .connect = .ok (headerLen, remainLen) ↔
      remainLen ≤ maxRemainLen ∧ At rx 0 (0x10 :: vbiBytes maxLenBytes remainLen) ∧
        headerLen = (vbiBytes maxLenBytes remainLen).length + 1 := by
  unfold scanFixedHeader
  constructor
  · intro h
    split at h
    · cases h
    next hlen =>
    have hagree : Agrees Coded Eq (scanVbi rx 1 (rx.length - 1)) _ := scanVbi_agrees (by omega)
    obtain ⟨⟨remain, n⟩, hvbi, h⟩ := bind_eq_ok.mp h
    obtain ⟨_, hdec, rfl⟩ := Agree.right_of_ok hagree hvbi
    obtain ⟨hmax, hn, rest, hrest⟩ := decodeVbi_canonical hdec
    dsimp only at h
    rw [if_neg (by omega)] at h
    obtain ⟨first, hfirst, h⟩ := bind_eq_ok.mp h
    split at h
    · cases h
    next htype =>
    split at h
    · cases h
    next hflags =>
    cases h
    cases rx with
    | nil => simp at hlen
    | cons b tail =>
      cases hfirst
      have hnat : first.toNat = 16 := by
        have htype : first.toNat / 16 = 1 := not_not.mp htype
        omega
      have hb : first = 0x10 := UInt8.toNat_inj.mp hnat
      refine ⟨hmax, ?_, by rw [hn]⟩
      rw [hb]
      exact List.cons_prefix_cons.mpr ⟨rfl, rest, hrest.symm⟩
  · rintro ⟨hmax, hat, rfl⟩
    cases rx with
    | nil => simp [At] at hat
    | cons b tail =>
      obtain ⟨hb, rest, hrest⟩ := List.cons_prefix_cons.mp hat
      subst hb
      have hvpos := vbiBytes_length_pos remainLen
      have hlen : ¬((0x10 : UInt8) :: tail).length < 2 := by
        rw [List.length_cons, ← hrest, List.length_append]
        omega
      have hagree : Agrees Coded Eq (scanVbi (0x10 :: tail) 1 (((0x10 : UInt8) :: tail).length - 1)) _ :=
        scanVbi_agrees (by omega)
      have hdec := decodeVbi_vbiBytes hmax rest
      rw [hrest] at hdec
      obtain ⟨_, hvbi, rfl⟩ := Agree.left_of_ok hagree hdec
      have hmax' : ¬remainLen > maxRemainLen := by omega
      rw [if_neg hlen, hvbi, ok_bind]
      dsimp only
      rw [if_neg hmax']
      rfl

/-- The packet in front of a buffer, as the decoder finds it. -/
theorem decodeConnect_sound (hrx : rx.length < 2147483648) {room n : Nat} {c : ConnectView}
    (h : decodeConnect true room rx = .ok (n, c)) :
    ∃ p : ConnectPacket, p.Ok ∧ p.slots ≤ room ∧ p.wire <+: rx ∧ n = p.wire.length ∧ c.Shows rx n p := by
  unfold decodeConnect at h
  split at h
  · cases h
  obtain ⟨⟨headerLen, remainLen⟩, hheader, h⟩ := bind_eq_ok.mp h
  obtain ⟨hmax, hat, rfl⟩ := (scanFixedHeader_ok_iff headerLen remainLen).mp hheader
  dsimp only at h
  split at h
  · cases h
  next hfits =>
  split at h
  · cases h
  next hten =>
  simp only [Bool.or_eq_true, decide_eq_true_eq, not_or] at hten
  obtain ⟨packet, hpacket, h⟩ := bind_eq_ok.mp h
  have hpacketAt : At rx ((vbiBytes maxLenBytes remainLen).length + 1) packet := by
    unfold readBytes at hpacket
    split at hpacket
    · cases hpacket
      exact Layout.at_take_drop
    · cases hpacket
  split at h
  next len₁ len₀ m q t t' level flags keep₁ keep₀ =>
    split at h
    · cases h
    next hname =>
    split at h
    · cases h
    next hflags =>
    obtain ⟨c', hpayload, h⟩ := bind_eq_ok.mp h
    cases h
    simp only [Bool.or_eq_true, decide_eq_true_eq, not_or, not_not, List.cons.injEq, and_true] at hname
    obtain ⟨hlen, rfl, rfl, rfl, rfl⟩ := hname
    have hkeep : keep₁.toNat * 256 + keep₀.toNat < 65536 := by
      have h₁ := keep₁.toNat_lt
      have h₀ := keep₀.toNat_lt
      omega
    obtain ⟨p, hok, hroom, rfl, rfl, hka, hpat, hend, hshows⟩ := scanPayload_sound hrx (by omega) hkeep
      (by simpa using hflags) (by omega) hpayload
    have hfront : connectFront p.level p.flags p.keepAlive =
        [len₁, len₀, 0x4D, 0x51, 0x54, 0x54, p.level, p.flags, keep₁, keep₀] := by
      have hlen₁ : len₁ = 0 := UInt8.toNat_inj.mp (by
        have h₀ := len₀.toNat_lt
        show len₁.toNat = 0
        omega)
      have hlen₀ : len₀ = 4 := UInt8.toNat_inj.mp (by
        have h₀ := len₀.toNat_lt
        show len₀.toNat = 4
        omega)
      rw [connectFront, hka, encodeNum_of_bytes, hlen₁, hlen₀]
      rfl
    have hbody : remainLen = p.body.length := by
      rw [ConnectPacket.body, List.length_append, connectFront_length]
      omega
    have hwire : At rx 0 p.wire := by
      have hsplit : p.wire = (0x10 :: vbiBytes maxLenBytes remainLen) ++ p.body := by rw [ConnectPacket.wire, hbody]; rfl
      rw [hsplit, at_append, ConnectPacket.body, at_append, hfront, List.length_cons, Nat.zero_add]
      exact ⟨hat, hpacketAt, hpat⟩
    refine ⟨p, hok, hroom, hwire, ?_, hshows⟩
    rw [ConnectPacket.wire, List.length_cons, List.length_append, hbody]
    omega
  · cases h

theorem decodeConnect_complete (hrx : rx.length < 2147483648) {room : Nat} {p : ConnectPacket} (hp : p.Ok)
    (hroom : p.slots ≤ room) (hwire : p.wire <+: rx) :
    ∃ c, decodeConnect true room rx = .ok (p.wire.length, c) ∧ c.Shows rx p.wire.length p := by
  have hat : At rx 0 p.wire := hwire
  have hsplit : p.wire = (0x10 :: vbiBytes maxLenBytes p.body.length) ++ p.body := rfl
  have hlen : p.wire.length = (vbiBytes maxLenBytes p.body.length).length + 1 + p.body.length := by
    rw [hsplit, List.length_append, List.length_cons]
  have hbody : p.body.length = 10 + p.payload.length := by
    rw [ConnectPacket.body, List.length_append, connectFront_length]
  have hle := hwire.length_le
  rw [hsplit, at_append, ConnectPacket.body, at_append, List.length_cons, Nat.zero_add, connectFront_length,
    ← ConnectPacket.body] at hat
  obtain ⟨hhead, hfront, hpayload⟩ := hat
  have hheader := (scanFixedHeader_ok_iff _ _).mpr ⟨hp.sent.body_length_le, hhead, rfl⟩
  have hread : readBytes rx ((vbiBytes maxLenBytes p.body.length).length + 1) 10 =
      .ok (connectFront p.level p.flags p.keepAlive) := by
    rw [readBytes, if_pos (by omega)]
    exact congrArg Except.ok hfront.take_drop
  obtain ⟨c, hscan, hshows⟩ :
      ∃ c, scanPayload true room p.level p.flags p.keepAlive rx p.wire.length _ = .ok c ∧ c.Shows rx p.wire.length p :=
    scanPayload_complete hrx hle hp hroom (by omega) hpayload (by omega)
  refine ⟨c, ?_, hshows⟩
  have hkeep : (UInt8.ofNat (p.keepAlive / 256)).toNat * 256 + (UInt8.ofNat p.keepAlive).toNat = p.keepAlive := by
    have hka := hp.keepAlive
    rw [UInt8.toNat_ofNat', UInt8.toNat_ofNat']
    omega
  rw [decodeConnect, if_neg (by omega), hheader, ok_bind]
  dsimp only
  rw [if_neg (by omega), if_neg (by simp; omega), hread, ok_bind]
  dsimp only [connectFront, encodeNum, List.cons_append, List.nil_append]
  rw [if_neg (by decide), hp.flags_say.2, if_neg (by decide), hkeep, ← hlen, hscan]
  rfl

/-- The decoder accepts the packets there are, as far as there is room for their properties, and all that it gives
lies in the packet. -/
theorem decodeConnect_reads (hrx : rx.length < 2147483648) (room : Nat) :
    (∀ n, (∃ c, decodeConnect true room rx = .ok (n, c)) ↔
      ∃ p : ConnectPacket, p.Ok ∧ p.slots ≤ room ∧ p.wire <+: rx ∧ n = p.wire.length) ∧
      ∀ n c, decodeConnect true room rx = .ok (n, c) →
        n ≤ rx.length ∧ ∃ p : ConnectPacket, n = p.wire.length ∧ p.wire = rx.take n ∧ c.Shows rx n p := by
  constructor
  · intro n
    constructor
    · rintro ⟨c, h⟩
      obtain ⟨p, hok, hroom, hwire, hn, -⟩ := decodeConnect_sound hrx h
      exact ⟨p, hok, hroom, hwire, hn⟩
    · rintro ⟨p, hok, hroom, hwire, rfl⟩
      obtain ⟨c, h, -⟩ := decodeConnect_complete hrx hok hroom hwire
      exact ⟨c, h⟩
  · intro n c h
    obtain ⟨p, -, -, hwire, rfl, hshows⟩ := decodeConnect_sound hrx h
    exact ⟨hwire.length_le, p, rfl, (List.prefix_iff_eq_take.mp hwire), hshows⟩

/-- A CONNECT with enhanced authentication, a Will and credentials. -/
def fullConnectWire : Bytes :=
  [16, 60, 0, 4, 77, 81, 84, 84, 5, 238, 0, 60] ++ (21 :: eauthBytes) ++ [0, 1, 65] ++
    [12, 24, 0, 0, 0, 5, 38, 0, 1, 107, 0, 1, 118, 0, 1, 116, 0, 1, 119] ++ [0, 1, 117, 0, 1, 112]

/-- It is in front of a PINGREQ. -/
theorem decodeConnect_reads_sample :
    ∃ (c : ConnectView) (p : ConnectPacket), decodeConnect true 30 (fullConnectWire ++ [192, 0]) = .ok (62, c) ∧
      p.wire = fullConnectWire ∧ c.Shows (fullConnectWire ++ [192, 0]) 62 p := by
  have hread : (decodeConnect true 30 (fullConnectWire ++ [192, 0])).map Prod.fst = .ok 62 := by decide +kernel
  obtain ⟨⟨n, c⟩, hc, rfl⟩ : ∃ x, decodeConnect true 30 (fullConnectWire ++ [192, 0]) = .ok x ∧ x.1 = 62 := by
    cases h : decodeConnect true 30 (fullConnectWire ++ [192, 0]) with
    | error e =>
      rw [h] at hread
      cases hread
    | ok x =>
      rw [h] at hread
      exact ⟨x, rfl, Except.ok.inj hread⟩
  have hrx : (fullConnectWire ++ [192, 0]).length < 2147483648 := by decide
  obtain ⟨-, p, -, hwire, hshows⟩ := (decodeConnect_reads hrx 30).2 62 c hc
  exact ⟨c, p, hc, hwire, hshows⟩

end Packet

end WolfMqtt
