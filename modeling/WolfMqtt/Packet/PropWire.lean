import WolfMqtt.Packet.Property

/-! What a list of properties looks like on the wire, without an encoder.

`ValidProps` says which lists a packet may carry and `propsWire` what they are written as;
`encodeProps_ok_iff` is the connection to `MqttEncode_Props`. -/
namespace WolfMqtt

namespace MqttProp

/-- The value is in the domain its property has. -/
def Legal (p : MqttProp) : Prop :=
  match p.type.dataType with
  | .byte => p.dataByte ≤ 1
  | .short => p.type = .topicAlias → p.dataShort ≠ 0
  | .int => p.type = .maxPacketSz → p.dataInt ≠ 0
  | .string => utf8WellFormed p.dataStr ∧ (p.type = .respTopic → topicNameValid p.dataStr level5)
  | .varInt => p.dataInt ≤ maxRemainLen ∧ (p.type = .subscriptionId → p.dataInt ≠ 0)
  | .binary => True
  | .stringPair => utf8WellFormed p.dataStr ∧ utf8WellFormed p.dataStr2

/-- The bytes of the value. -/
def value (p : MqttProp) : Bytes :=
  match p.type.dataType with
  | .byte => [p.dataByte]
  | .short => encodeNum p.dataShort
  | .int => encodeInt p.dataInt
  | .string => encodeData p.dataStr
  | .varInt => vbiBytes maxLenBytes p.dataInt
  | .binary => encodeData p.dataBin
  | .stringPair => encodeData p.dataStr ++ encodeData p.dataStr2

/-- The identifier, then the value. -/
def wire (p : MqttProp) : Bytes := UInt8.ofNat p.type.toNat :: p.value

theorem wire_length_le {p : MqttProp} (hp : p.Typed) : p.wire.length ≤ 131075 := by
  have hstr := hp.str
  have hbin := hp.bin
  have hstr2 := hp.str2
  rw [wire, List.length_cons, value]
  cases p.type.dataType with
  | byte => simp
  | short => simp
  | int => simp
  | string =>
    dsimp only
    rw [encodeData_length]
    omega
  | varInt =>
    have hvbi := vbiBytes_length_le maxLenBytes p.dataInt
    dsimp only
    rw [maxLenBytes] at hvbi ⊢
    omega
  | binary =>
    dsimp only
    rw [encodeData_length]
    omega
  | stringPair =>
    dsimp only
    rw [List.length_append, encodeData_length, encodeData_length]
    omega

end MqttProp

theorem ok_iff_of_holds {P : Prop} (h : P) (b v : Bytes) : (.ok b : Except Int Bytes) = .ok v ↔ P ∧ v = b := by
  constructor
  · intro hbv
    exact ⟨h, (Except.ok.inj hbv).symm⟩
  · rintro ⟨-, rfl⟩
    rfl

theorem error_iff_of_not {P : Prop} (h : ¬P) (e : Int) (b v : Bytes) :
    (.error e : Except Int Bytes) = .ok v ↔ P ∧ v = b := by
  constructor
  · intro hev
    cases hev
  · intro hpv
    exact absurd hpv.1 h

/-- A value is written exactly if it is legal. -/
theorem encodePropValue_ok_iff (p : MqttProp) (v : Bytes) : encodePropValue p = .ok v ↔ p.Legal ∧ v = p.value := by
  unfold encodePropValue MqttProp.Legal MqttProp.value
  cases p.type.dataType with
  | byte =>
    dsimp only
    split
    next h => exact error_iff_of_not (UInt8.not_le.mpr h) _ _ _
    next h => exact ok_iff_of_holds (UInt8.not_lt.mp h) _ _
  | short =>
    dsimp only
    split
    next h => exact error_iff_of_not (by simpa using h) _ _ _
    next h => exact ok_iff_of_holds (by simpa using h) _ _
  | int =>
    dsimp only
    split
    next h => exact error_iff_of_not (by simpa using h) _ _ _
    next h => exact ok_iff_of_holds (by simpa using h) _ _
  | string =>
    dsimp only
    split
    next h =>
      simp only [Bool.and_eq_true, decide_eq_true_eq, Bool.not_eq_true'] at h
      exact error_iff_of_not (by simp [h.1, h.2]) _ _ _
    next h =>
      simp only [Bool.and_eq_true, decide_eq_true_eq, Bool.not_eq_true', not_and, Bool.not_eq_false] at h
      split
      next hutf => exact error_iff_of_not (by simpa using fun hwell => absurd hwell (by simpa using hutf)) _ _ _
      next hutf => exact ok_iff_of_holds ⟨by simpa using hutf, h⟩ _ _
  | varInt =>
    dsimp only
    unfold encodeVbi
    split
    next h =>
      simp only [Bool.and_eq_true, decide_eq_true_eq] at h
      exact error_iff_of_not (fun hlegal => hlegal.2 h.1 h.2) _ _ _
    next h =>
      simp only [Bool.and_eq_true, decide_eq_true_eq, not_and] at h
      split
      next hmax => exact error_iff_of_not (fun hlegal => Nat.not_le.mpr hmax hlegal.1) _ _ _
      next hmax => exact ok_iff_of_holds ⟨Nat.not_lt.mp hmax, h⟩ _ _
  | binary => exact ok_iff_of_holds trivial _ _
  | stringPair =>
    dsimp only
    split
    next hutf =>
      refine error_iff_of_not ?_ _ _ _
      rintro ⟨hstr, hstr2⟩
      simp [hstr, hstr2] at hutf
    next hutf =>
      simp only [Bool.or_eq_true, Bool.not_eq_true', not_or, Bool.not_eq_false] at hutf
      exact ok_iff_of_holds hutf _ _

/-- No property that may not come again comes again, and none has been `seen`. -/
def Singles (packet : PacketType) (seen : List PropType) (props : List MqttProp) : Prop :=
  (∀ p ∈ props, propRepeats packet p.type = false → p.type ∉ seen) ∧
    props.Pairwise fun p q => propRepeats packet q.type = false → q.type ≠ p.type

/-- The lists a packet may carry. -/
structure ValidProps (packet : PacketType) (props : List MqttProp) : Prop where
  count : props.length ≤ maxProps
  allowed : ∀ p ∈ props, p.type.allowedIn packet
  legal : ∀ p ∈ props, p.Legal
  single : props.Pairwise fun p q => propRepeats packet q.type = false → q.type ≠ p.type

def propsWire (props : List MqttProp) : Bytes := props.flatMap MqttProp.wire

theorem propsWire_length_le {props : List MqttProp} (hp : ∀ p ∈ props, p.Typed) :
    (propsWire props).length ≤ 131075 * props.length := by
  induction props with
  | nil => simp [propsWire]
  | cons p props ih =>
    have hhead := MqttProp.wire_length_le (hp p (by simp))
    have htail := ih fun q hq => hp q (by simp [hq])
    rw [propsWire, List.flatMap_cons, List.length_append, List.length_cons]
    rw [propsWire] at htail
    omega

theorem singles_cons {packet : PacketType} {seen : List PropType} {p : MqttProp} {props : List MqttProp} :
    Singles packet seen (p :: props) ↔
      (propRepeats packet p.type = false → p.type ∉ seen) ∧ Singles packet (p.type :: seen) props := by
  unfold Singles
  rw [List.forall_mem_cons, List.pairwise_cons]
  constructor
  · rintro ⟨⟨hp, hseen⟩, hfirst, hpairs⟩
    exact ⟨hp, fun q hq hrep => by simp [hseen q hq hrep, hfirst q hq hrep], hpairs⟩
  · rintro ⟨hp, hseen, hpairs⟩
    refine ⟨⟨hp, fun q hq hrep hmem => hseen q hq hrep (by simp [hmem])⟩, fun q hq hrep heq => ?_, hpairs⟩
    exact hseen q hq hrep (by simp [heq])

/-- From some point on, a list is written exactly if it may come there. A short list of values of their types is
never too long for the wire. -/
theorem encodePropsLoop_ok_iff {packet : PacketType} {props : List MqttProp} (hp : ∀ p ∈ props, p.Typed)
    {count rc : Nat} (seen : List PropType) (bytes : Bytes) (hcount : count ≤ maxProps)
    (hrc : rc + 131075 * (maxProps - count) ≤ maxRemainLen) :
    encodePropsLoop packet count seen rc props = .ok bytes ↔
      (count + props.length ≤ maxProps ∧ (∀ p ∈ props, p.type.allowedIn packet) ∧ (∀ p ∈ props, p.Legal) ∧
        Singles packet seen props) ∧ bytes = propsWire props := by
  induction props generalizing count rc seen bytes with
  | nil => exact ok_iff_of_holds ⟨hcount, by simp, by simp, by simp [Singles]⟩ _ _
  | cons p props ih =>
    have hwire := MqttProp.wire_length_le (hp p (by simp))
    rw [MqttProp.wire, List.length_cons] at hwire
    rw [encodePropsLoop]
    split
    next hfull => exact error_iff_of_not (fun h => by have := h.1; rw [List.length_cons] at this; omega) _ _ _
    next hfull =>
    split
    next hallowed => exact error_iff_of_not (fun h => by simp [h.2.1 p (by simp)] at hallowed) _ _ _
    next hallowed =>
    split
    next hseen =>
      refine error_iff_of_not (fun h => ?_) _ _ _
      simp only [Bool.and_eq_true, Bool.not_eq_true', List.contains_eq_mem, decide_eq_true_eq] at hseen
      exact (singles_cons.mp h.2.2.2).1 hseen.1 hseen.2
    next hseen =>
    simp only [Bool.and_eq_true, Bool.not_eq_true', List.contains_eq_mem, decide_eq_true_eq, not_and] at hseen
    split
    next e he =>
      refine error_iff_of_not (fun h => ?_) _ _ _
      have hok := (encodePropValue_ok_iff p p.value).mpr ⟨h.2.2.1 p (by simp), rfl⟩
      rw [he] at hok
      cases hok
    next value hvalue =>
    obtain ⟨hlegal, rfl⟩ := (encodePropValue_ok_iff p value).mp hvalue
    have hhere : vbiBytes maxLenBytes p.type.toNat ++ p.value = p.wire := by
      rw [vbiBytes_of_lt (PropType.toNat_lt _)]
      rfl
    have hlen : p.wire.length = p.value.length + 1 := by rw [MqttProp.wire, List.length_cons]
    dsimp only
    rw [hhere, if_neg (by omega)]
    have hrest := fun tail => ih (fun q hq => hp q (by simp [hq])) (p.type :: seen) tail
      (by omega : count + 1 ≤ maxProps)
      (by omega : rc + p.wire.length + 131075 * (maxProps - (count + 1)) ≤ maxRemainLen)
    split
    next e he =>
      refine error_iff_of_not (fun h => ?_) _ _ _
      obtain ⟨hlen, hall, hlegals, hsingles⟩ := h
      have hok := (hrest (propsWire props)).mpr ⟨⟨by rw [List.length_cons] at hlen; omega,
        fun q hq => hall q (by simp [hq]), fun q hq => hlegals q (by simp [hq]), (singles_cons.mp hsingles).2⟩, rfl⟩
      rw [he] at hok
      cases hok
    next tail htail =>
      obtain ⟨⟨hlen, hall, hlegals, hsingles⟩, rfl⟩ := (hrest tail).mp htail
      refine ok_iff_of_holds ⟨by rw [List.length_cons]; omega, ?_, ?_, singles_cons.mpr ⟨hseen, hsingles⟩⟩ _ _
      · exact List.forall_mem_cons.mpr ⟨by simpa using hallowed, hall⟩
      · exact List.forall_mem_cons.mpr ⟨hlegal, hlegals⟩

/-- The encoder takes the valid lists, and writes them as they look on the wire. -/
theorem encodeProps_ok_iff {packet : PacketType} {props : List MqttProp} (hp : ∀ p ∈ props, p.Typed) (bytes : Bytes) :
    encodeProps packet props = .ok bytes ↔ ValidProps packet props ∧ bytes = propsWire props := by
  rw [encodeProps, encodePropsLoop_ok_iff hp [] bytes (Nat.zero_le _) (by decide)]
  constructor
  · rintro ⟨⟨hlen, hallowed, hlegal, -, hsingle⟩, hbytes⟩
    exact ⟨⟨by omega, hallowed, hlegal, hsingle⟩, hbytes⟩
  · rintro ⟨hvalid, hbytes⟩
    exact ⟨⟨by have := hvalid.count; omega, hvalid.allowed, hvalid.legal, by simp, hvalid.single⟩, hbytes⟩

theorem encodeProps_eq {packet : PacketType} {props : List MqttProp} (hp : ∀ p ∈ props, p.Typed)
    (hvalid : ValidProps packet props) : encodeProps packet props = .ok (propsWire props) :=
  (encodeProps_ok_iff hp _).mpr ⟨hvalid, rfl⟩

/-- A list's bytes fit its length prefix. -/
theorem propsWire_short {packet : PacketType} {props : List MqttProp} (hp : ∀ p ∈ props, p.Typed)
    (hvalid : ValidProps packet props) : (propsWire props).length ≤ 3932250 := by
  have hlen := propsWire_length_le hp
  have hcount := hvalid.count
  rw [maxProps] at hcount
  omega

/-! ### The members that count -/

namespace MqttProp

theorem own_own (p : MqttProp) : p.own.own = p.own := by
  have htype := p.own_type
  unfold own at htype ⊢
  cases hdata : p.type.dataType <;> simp only [hdata] at htype ⊢

theorem Typed.own {p : MqttProp} (h : p.Typed) : p.own.Typed := by
  unfold MqttProp.own
  cases p.type.dataType with
  | byte => constructor <;> simp
  | short => constructor <;> simp [h.short]
  | int => constructor <;> simp [h.int]
  | varInt => constructor <;> simp [h.int]
  | string => constructor <;> simp [h.str]
  | binary => constructor <;> simp [h.bin]
  | stringPair => constructor <;> simp [h.str, h.str2]

theorem value_own (p : MqttProp) : p.own.value = p.value := by
  unfold value
  rw [own_type]
  unfold own
  cases p.type.dataType <;> rfl

theorem legal_own (p : MqttProp) : p.own.Legal ↔ p.Legal := by
  unfold Legal
  rw [own_type]
  unfold own
  cases p.type.dataType <;> rfl

end MqttProp

theorem propsWire_map_own (props : List MqttProp) : propsWire (props.map MqttProp.own) = propsWire props := by
  rw [propsWire, List.flatMap_map, propsWire]
  congr 1
  funext p
  rw [MqttProp.wire, MqttProp.own_type, MqttProp.value_own, MqttProp.wire]

theorem validProps_map_own {packet : PacketType} {props : List MqttProp} (h : ValidProps packet props) :
    ValidProps packet (props.map MqttProp.own) where
  count := by
    rw [List.length_map]
    exact h.count
  allowed := by simpa using h.allowed
  legal := by simpa [MqttProp.legal_own] using h.legal
  single := by
    rw [List.pairwise_map]
    simpa using h.single

end WolfMqtt
