import WolfMqtt.Packet.ConnectGrammar

/-! What the CONNECT encoder writes, and whether the decoder takes it.

`MqttConnect.packet` is what a client's structure asks to be sent. An accepted structure's bytes are
that packet's (`encodeConnect_wire`), a packet is read off its bytes in one way only (`wire_unique`),
and the decoder takes it exactly if it is in the grammar. -/
namespace WolfMqtt

open Layout (At at_append)

/-! ### A packet is read off its bytes -/

section Unique
variable {rx : Bytes} {pos : Nat}

theorem encodeData_unique {a b : Bytes} (ha : At rx pos (encodeData a)) (hb : At rx pos (encodeData b)) (hla : DataOk a)
    (hlb : DataOk b) : a = b := by
  have hpa := ha
  have hpb := hb
  rw [encodeData, at_append] at hpa hpb
  obtain ⟨rest, hrest⟩ := Layout.at_iff.mp hpa.1
  obtain ⟨rest', hrest'⟩ := Layout.at_iff.mp hpb.1
  have hnum : decodeNum (rx.drop pos) = .ok a.length := by
    rw [hrest]
    exact decodeNum_encodeNum hla rest
  have hnum' : decodeNum (rx.drop pos) = .ok b.length := by
    rw [hrest']
    exact decodeNum_encodeNum hlb rest'
  have hlen : a.length = b.length := Except.ok.inj (hnum.symm.trans hnum')
  exact hpa.2.unique hpb.2 hlen

theorem vbiBytes_unique {x y : Nat} (hx : At rx pos (vbiBytes maxLenBytes x)) (hy : At rx pos (vbiBytes maxLenBytes y))
    (hmx : x ≤ maxRemainLen) (hmy : y ≤ maxRemainLen) : x = y := by
  obtain ⟨rest, hrest⟩ := Layout.at_iff.mp hx
  obtain ⟨rest', hrest'⟩ := Layout.at_iff.mp hy
  have hvbi := decodeVbi_vbiBytes hmx rest
  have hvbi' := decodeVbi_vbiBytes hmy rest'
  rw [← hrest] at hvbi
  rw [← hrest'] at hvbi'
  exact congrArg Prod.fst (Except.ok.inj (hvbi.symm.trans hvbi'))

/-- A list is read off its bytes, by the loop of the decoder. -/
theorem propsWire_inj {a b : List MqttProp} (ha : PropsSent a) (hb : PropsSent b) (h : propsWire a = propsWire b) :
    a = b := by
  have hown : ∀ {props}, PropsSent props → props.map MqttProp.own = props := fun hp =>
    (List.map_congr_left hp.own).trans (List.map_id _)
  have hread := decodePropsLoop_encodePropsLoop ha.typed (encodeProps_eq ha.typed ha.valid) ha.valid.count
    (Nat.zero_add _) []
  have hread' := decodePropsLoop_encodePropsLoop hb.typed (encodeProps_eq hb.typed hb.valid) hb.valid.count
    (Nat.zero_add _) []
  rw [h, hown ha] at hread
  rw [hown hb] at hread'
  exact Except.ok.inj (hread.symm.trans hread')

theorem propSection_unique {a b : List MqttProp} (ha : At rx pos (propSection a)) (hb : At rx pos (propSection b))
    (hsa : PropsSent a) (hsb : PropsSent b) : a = b := by
  rw [propSection, at_append] at ha hb
  have hmax : (3932250 : Nat) ≤ maxRemainLen := by decide
  have hlen := vbiBytes_unique ha.1 hb.1 (Nat.le_trans (propsWire_short hsa.typed hsa.valid) hmax)
    (Nat.le_trans (propsWire_short hsb.typed hsb.valid) hmax)
  rw [hlen] at ha
  exact propsWire_inj hsa hsb (ha.2.unique hb.2 hlen)

theorem levelSection_unique {level : UInt8} {a b : List MqttProp} (ha : At rx pos (levelSection level a))
    (hb : At rx pos (levelSection level b)) (hsa : LevelProps PropsSent level a) (hsb : LevelProps PropsSent level b) :
    a = b := by
  unfold levelSection at ha hb
  unfold LevelProps at hsa hsb
  by_cases hlevel : level = 5
  · simp only [if_pos hlevel] at ha hb hsa hsb
    exact propSection_unique ha hb hsa hsb
  · rw [if_neg hlevel] at hsa hsb
    rw [hsa, hsb]

theorem optionData_unique {a b : Option Bytes} (ha : At rx pos (optionWire encodeData a))
    (hb : At rx pos (optionWire encodeData b)) (hsome : a.isSome = b.isSome) (hla : ∀ s ∈ a, DataOk s)
    (hlb : ∀ s ∈ b, DataOk s) : a = b := by
  cases a with
  | none =>
    cases b with
    | none => rfl
    | some t => cases hsome
  | some s =>
    cases b with
    | none => cases hsome
    | some t => rw [encodeData_unique ha hb (hla s rfl) (hlb t rfl)]

theorem willWire_unique {level : UInt8} {a b : WillPart} (ha : At rx pos (a.wire level)) (hb : At rx pos (b.wire level))
    (hpa : LevelProps PropsSent level a.props) (hpb : LevelProps PropsSent level b.props) (hta : DataOk a.topic)
    (htb : DataOk b.topic) (hda : DataOk a.payload) (hdb : DataOk b.payload) (hqos : a.qos = b.qos)
    (hretain : a.retain = b.retain) : a = b := by
  obtain ⟨qos, retain, props, topic, payload⟩ := a
  obtain ⟨qos', retain', props', topic', payload'⟩ := b
  dsimp only [WillPart.wire] at *
  subst hqos hretain
  rw [at_append, at_append] at ha hb
  obtain rfl := levelSection_unique ha.1 hb.1 hpa hpb
  obtain rfl := encodeData_unique ha.2.1 hb.2.1 hta htb
  obtain rfl := encodeData_unique ha.2.2 hb.2.2 hda hdb
  rfl

theorem FlagsSay.unique {flags : UInt8} {clean clean' username username' password password' : Bool}
    {will will' : Option (Nat × Bool)} (h : FlagsSay flags clean will username password)
    (h' : FlagsSay flags clean' will' username' password') :
    clean = clean' ∧ will = will' ∧ username = username' ∧ password = password' := by
  refine ⟨h.isClean.symm.trans h'.isClean, ?_, h.hasUsername.symm.trans h'.hasUsername,
    h.hasPassword.symm.trans h'.hasPassword⟩
  have hsome := h.hasWill.symm.trans h'.hasWill
  cases will with
  | none =>
    cases will' with
    | none => rfl
    | some w => cases hsome
  | some v =>
    cases will' with
    | none => cases hsome
    | some w =>
      have hqos := (h.qos v rfl).symm.trans (h'.qos w rfl)
      have hretain := (h.retain v rfl).symm.trans (h'.retain w rfl)
      rw [Prod.ext hqos hretain]

theorem ConnectPacket.Sent.flags_say {p : ConnectPacket} (h : p.Sent) :
    FlagsSay p.flags p.clean (p.will.map fun w => (w.qos, w.retain)) p.username.isSome p.password.isSome := by
  refine (flagsByte_means p.clean p.username.isSome p.password.isSome fun w hw => ?_).1
  obtain ⟨w', hw', rfl⟩ := Option.map_eq_some_iff.mp hw
  exact h.qos w' hw'

/-- A packet that fits is read off its bytes in one way only. -/
theorem wire_unique {p q : ConnectPacket} (hp : p.Sent) (hq : q.Sent) (hpw : p.wire <+: rx) (hqw : q.wire <+: rx) :
    p = q := by
  have hpa : At rx 0 ([0x10] ++ (vbiBytes maxLenBytes p.body.length ++ p.body)) := hpw
  have hqa : At rx 0 ([0x10] ++ (vbiBytes maxLenBytes q.body.length ++ q.body)) := hqw
  rw [at_append, at_append] at hpa hqa
  have hlen := vbiBytes_unique hpa.2.1 hqa.2.1 hp.body_length_le hq.body_length_le
  rw [hlen] at hpa
  have hbody := hpa.2.2.unique hqa.2.2 hlen
  obtain ⟨hfront, hpayload⟩ := List.append_inj hbody rfl
  obtain ⟨hsame, hkeep⟩ := List.append_inj hfront rfl
  simp only [List.cons.injEq, true_and, and_true] at hsame
  obtain ⟨hlevel, hflags⟩ := hsame
  have hka : p.keepAlive = q.keepAlive := by
    have hnum := decodeNum_encodeNum hp.keepAlive []
    have hnum' := decodeNum_encodeNum hq.keepAlive []
    rw [hkeep] at hnum
    exact Except.ok.inj (hnum.symm.trans hnum')
  have hsay := hq.flags_say
  rw [← hflags] at hsay
  obtain ⟨hclean, hwill, huser, hpass⟩ := hp.flags_say.unique hsay
  obtain ⟨payload, hpat, hqat⟩ : ∃ payload, At payload 0 p.payload ∧ At payload 0 q.payload :=
    ⟨p.payload, List.prefix_refl _, by rw [hpayload]; exact List.prefix_refl _⟩
  obtain ⟨level, clean, keepAlive, props, clientId, will, username, password⟩ := p
  obtain ⟨level', clean', keepAlive', props', clientId', will', username', password'⟩ := q
  rw [ConnectPacket.payload, at_append, at_append, at_append, at_append] at hpat hqat
  dsimp only at hpat hqat hlevel hka hclean hwill huser hpass
  subst hlevel hka hclean
  obtain rfl := levelSection_unique hpat.1 hqat.1 hp.props hq.props
  obtain rfl := encodeData_unique hpat.2.1 hqat.2.1 hp.clientId hq.clientId
  obtain rfl : will = will' := by
    cases will with
    | none =>
      cases will' with
      | none => rfl
      | some w => cases hwill
    | some v =>
      cases will' with
      | none => cases hwill
      | some w =>
        have hpair := Option.some.inj hwill
        rw [willWire_unique hpat.2.2.1 hqat.2.2.1 (hp.willProps v rfl) (hq.willProps w rfl) (hp.topic v rfl)
          (hq.topic w rfl) (hp.payload v rfl) (hq.payload w rfl) (congrArg Prod.fst hpair) (congrArg Prod.snd hpair)]
  obtain rfl := optionData_unique hpat.2.2.2.1 hqat.2.2.2.1 huser hp.username hq.username
  obtain rfl := optionData_unique hpat.2.2.2.2 hqat.2.2.2.2 hpass hp.password hq.password
  rfl

end Unique

/-! ### What a client asks for -/

namespace LwtMsg

/-- The bytes its pointers own reach as far as its length says. -/
structure Typed (w : LwtMsg) : Prop where
  props : ∀ p ∈ w.props, p.Typed
  payload : ∀ memory ∈ w.buffer, w.totalLen ≤ memory.length

/-- The will as it goes into a packet. -/
def part (level : UInt8) (w : LwtMsg) : WillPart :=
  { qos := w.qos
    retain := decide (w.retain ≠ 0)
    props := if level = 5 then w.props.map MqttProp.own else []
    topic := w.topicName.getD []
    payload := (w.buffer.getD []).take w.totalLen }

/-- What the encoder checks. -/
structure Accepted (level : UInt8) (w : LwtMsg) : Prop where
  topic : ∃ topic, w.topicName = some topic ∧ StringOk topic ∧ topicNameValid topic level.toNat
  buffer : w.buffer = none → w.totalLen = 0
  qos : w.qos ≤ 2
  totalLen : w.totalLen < 65536
  props : 5 ≤ level → ValidProps .connect w.props ∧ ∀ p ∈ w.props, willPropsValidateType p.type

end LwtMsg

namespace MqttConnect

structure Typed (c : MqttConnect) : Prop where
  props : ∀ p ∈ c.props, p.Typed
  lwtMsg : ∀ w ∈ c.lwtMsg, w.Typed
  password : ∀ memory ∈ c.password, c.passwordLen.toNat ≤ memory.length

/-- The packet that the structure asks for. Properties are sent at level 5 only. -/
def packet (c : MqttConnect) : ConnectPacket :=
  { level := c.level
    clean := decide (c.cleanSession ≠ 0)
    keepAlive := c.keepAliveSec.toNat
    props := if c.level = 5 then c.props.map MqttProp.own else []
    clientId := c.clientId.getD []
    will := if c.enableLwt ≠ 0 then c.lwtMsg.map (LwtMsg.part c.level) else none
    username := c.username
    password := c.password.map c.passwordBytes }

/-- What the encoder checks. -/
structure Accepted (c : MqttConnect) : Prop where
  clientId : ∃ id, c.clientId = some id ∧ StringOk id ∧ (c.level = 4 → c.cleanSession = 0 → id ≠ [])
  level : c.level = 4 ∨ c.level = 5
  paired : c.level = 4 → c.password.isSome → c.username.isSome
  props : 5 ≤ c.level → ValidProps .connect c.props
  will : c.enableLwt ≠ 0 → ∃ w, c.lwtMsg = some w ∧ w.Accepted c.level
  username : ∀ s ∈ c.username, StringOk s
  password : ∀ memory ∈ c.password, DataOk (c.passwordBytes memory)

end MqttConnect

/-! ### The encoder's checks -/

theorem connectString_ok_iff (s b : Bytes) : connectString s = .ok b ↔ StringOk s ∧ b = encodeData s := by
  unfold connectString StringOk
  split
  next h => exact error_iff_of_not (fun hok => by have := hok.1; omega) _ _ _
  next h =>
  split
  next hutf => exact error_iff_of_not (fun hok => by simp [hok.2] at hutf) _ _ _
  next hutf => exact ok_iff_of_holds ⟨by omega, by simpa using hutf⟩ _ _

theorem encodePropBlock_ok_iff {packet : PacketType} {props : List MqttProp} (hp : ∀ p ∈ props, p.Typed) (b : Bytes) :
    encodePropBlock packet props = .ok b ↔ ValidProps packet props ∧ b = propSection props := by
  unfold encodePropBlock
  split
  next e he =>
    refine error_iff_of_not (fun hvalid => ?_) _ _ _
    rw [encodeProps_eq hp hvalid] at he
    cases he
  next bytes hbytes =>
    obtain ⟨hvalid, rfl⟩ := (encodeProps_ok_iff hp bytes).mp hbytes
    have hmax : (3932250 : Nat) ≤ maxRemainLen := by decide
    rw [encodeVbi_eq (Nat.le_trans (propsWire_short hp hvalid) hmax)]
    exact ok_iff_of_holds hvalid _ _

theorem connectWillProps_ok_iff {level : UInt8} {w : LwtMsg} (hw : w.Typed) (b : Bytes) :
    connectWillProps level w = .ok b ↔
      (5 ≤ level → ValidProps .connect w.props ∧ ∀ p ∈ w.props, willPropsValidateType p.type) ∧
        b = if 5 ≤ level then propSection w.props else [] := by
  unfold connectWillProps
  by_cases hlevel : level ≥ 5
  · rw [if_pos hlevel, if_pos hlevel]
    split
    next h =>
      refine error_iff_of_not (fun hok => ?_) _ _ _
      obtain ⟨hvalid, htypes⟩ := hok hlevel
      have hall : w.props.all (fun p => willPropsValidateType p.type) = true := List.all_eq_true.mpr htypes
      have hcount : ¬w.props.length > maxProps := Nat.not_lt.mpr hvalid.count
      simp only [hall, hcount, decide_false, Bool.not_true, Bool.or_self, Bool.false_eq_true] at h
    next h =>
      simp only [Bool.or_eq_true, decide_eq_true_eq, Bool.not_eq_true', not_or, Bool.not_eq_false,
        List.all_eq_true] at h
      rw [encodePropBlock_ok_iff hw.props]
      exact and_congr_left fun _ => ⟨fun hvalid _ => ⟨hvalid, h.2⟩, fun hok => (hok hlevel).1⟩
  · rw [if_neg hlevel, if_neg hlevel]
    exact ok_iff_of_holds (fun h => absurd h hlevel) _ _

/-- The levels the encoder knows. -/
theorem level5_iff {level : UInt8} (h : level = 4 ∨ level = 5) : 5 ≤ level ↔ level = 5 := by
  obtain rfl | rfl := h <;> decide

theorem propSection_map_own (props : List MqttProp) : propSection (props.map MqttProp.own) = propSection props := by
  rw [propSection, propsWire_map_own, propSection]

theorem levelSection_own (level : UInt8) (props : List MqttProp) :
    levelSection level (if level = 5 then props.map MqttProp.own else []) =
      if level = 5 then propSection props else [] := by
  unfold levelSection
  by_cases h : level = 5
  · simp only [if_pos h, propSection_map_own]
  · simp only [if_neg h]

theorem connectWill_ok_iff {level : UInt8} (hlevel : level = 4 ∨ level = 5) {o : Option LwtMsg}
    (ho : ∀ w ∈ o, w.Typed) (b : Bytes) :
    connectWill level o = .ok b ↔ ∃ w, o = some w ∧ w.Accepted level ∧ b = (w.part level).wire level := by
  unfold connectWill
  cases o with
  | none => simp
  | some w =>
    have hw := ho w rfl
    simp only [Option.some.injEq, exists_eq_left']
    cases htopic : w.topicName with
    | none => exact error_iff_of_not (fun h => by obtain ⟨t, ht, -⟩ := h.topic; rw [htopic] at ht; cases ht) _ _ _
    | some topic =>
      have htopicOk : ∀ {P : Bytes → Prop}, (∃ t, w.topicName = some t ∧ P t) → P topic := by
        rintro P ⟨t, ht, hP⟩
        rw [htopic] at ht
        cases ht
        exact hP
      dsimp only
      split
      next h =>
        simp only [Bool.and_eq_true, decide_eq_true_eq, Option.isNone_iff_eq_none] at h
        exact error_iff_of_not (fun hok => h.2 (hok.buffer h.1)) _ _ _
      next hbuffer =>
      split
      next h => exact error_iff_of_not (fun hok => by have := (htopicOk hok.topic).1.1; omega) _ _ _
      next hshort =>
      split
      next h => exact error_iff_of_not (fun hok => by simp [(htopicOk hok.topic).2] at h) _ _ _
      next hplain =>
      split
      next h => exact error_iff_of_not (fun hok => by simp [(htopicOk hok.topic).1.2] at h) _ _ _
      next hutf =>
      split
      next h => exact error_iff_of_not (fun hok => by have := hok.qos; omega) _ _ _
      next hqos =>
      split
      next h => exact error_iff_of_not (fun hok => by have := hok.totalLen; omega) _ _ _
      next htotal =>
      simp only [Bool.and_eq_true, decide_eq_true_eq, Option.isNone_iff_eq_none, not_and, not_not] at hbuffer
      rw [Agree.bind_eq_ok]
      constructor
      · rintro ⟨block, hblock, hb⟩
        obtain ⟨hprops, rfl⟩ := (connectWillProps_ok_iff hw block).mp hblock
        cases hb
        refine ⟨⟨⟨topic, htopic, ⟨by omega, by simpa using hutf⟩, by simpa using hplain⟩, hbuffer, by omega, by omega, hprops⟩,
          ?_⟩
        rw [WillPart.wire, LwtMsg.part, levelSection_own, htopic, ← List.append_assoc]
        simp only [level5_iff hlevel]
        rfl
      · rintro ⟨hok, rfl⟩
        refine ⟨_, (connectWillProps_ok_iff hw _).mpr ⟨hok.props, rfl⟩, ?_⟩
        rw [WillPart.wire, LwtMsg.part, levelSection_own, htopic, ← List.append_assoc]
        simp only [level5_iff hlevel]
        rfl

/-- The flags the encoder sets are the packet's. -/
theorem connectFlags_eq (c : MqttConnect) (hwill : c.enableLwt ≠ 0 → ∃ w, c.lwtMsg = some w ∧ w.qos ≤ 2) :
    connectFlags c = c.packet.flags := by
  have hclean : (if c.cleanSession ≠ 0 then 0x02 else 0 : UInt8) =
      if decide (c.cleanSession ≠ 0) then 0x02 else 0 := by simp only [decide_eq_true_eq]
  have hpass : (c.password.map c.passwordBytes).isSome = c.password.isSome := Option.isSome_map
  unfold connectFlags ConnectPacket.flags flagsByte MqttConnect.packet
  simp only [hclean, hpass]
  congr 3
  by_cases henabled : c.enableLwt ≠ 0
  · obtain ⟨w, hw, hqos⟩ := hwill henabled
    have hbits : UInt8.ofNat w.qos <<< 3 &&& (0x18 : UInt8) = UInt8.ofNat w.qos <<< 3 := by
      have hall : ∀ q : Fin 3, UInt8.ofNat q.val <<< 3 &&& (0x18 : UInt8) = UInt8.ofNat q.val <<< 3 := by decide
      exact hall ⟨w.qos, by omega⟩
    simp only [hw, if_pos henabled, Option.map_some, LwtMsg.part, hbits, decide_eq_true_eq]
  · cases c.lwtMsg with
    | none => simp only [if_neg henabled, Option.map_none]
    | some w => simp only [if_neg henabled, Option.map_none]

section Sections
variable {c : MqttConnect}

theorem connectProps_ok_iff (hc : c.Typed) (hlevel : c.level = 4 ∨ c.level = 5) (b : Bytes) :
    connectProps c = .ok b ↔
      (5 ≤ c.level → ValidProps .connect c.props) ∧ b = levelSection c.level c.packet.props := by
  have hsection : levelSection c.level c.packet.props = if c.level = 5 then propSection c.props else [] :=
    levelSection_own c.level c.props
  unfold connectProps
  rw [hsection]
  by_cases h : c.level = 5
  · have hge : 5 ≤ c.level := (level5_iff hlevel).mpr h
    rw [if_pos hge, if_pos h, encodePropBlock_ok_iff hc.props]
    exact and_congr_left fun _ => ⟨fun hvalid _ => hvalid, fun hok => hok hge⟩
  · have hlt : ¬5 ≤ c.level := fun hge => h ((level5_iff hlevel).mp hge)
    rw [if_neg hlt, if_neg h]
    exact ok_iff_of_holds (fun hge => absurd hge hlt) _ _

theorem connectClientId_ok_iff (id b : Bytes) :
    connectClientId c id = .ok b ↔
      (StringOk id ∧ (c.level = 4 → c.cleanSession = 0 → id ≠ [])) ∧ b = encodeData id := by
  unfold connectClientId
  split
  next e he =>
    refine error_iff_of_not (fun hok => ?_) _ _ _
    have hstring := (connectString_ok_iff id (encodeData id)).mpr ⟨hok.1, rfl⟩
    rw [he] at hstring
    cases hstring
  next bytes hbytes =>
    obtain ⟨hok, rfl⟩ := (connectString_ok_iff id bytes).mp hbytes
    split
    next h =>
      simp only [Bool.and_eq_true, decide_eq_true_eq, List.length_eq_zero_iff] at h
      exact error_iff_of_not (fun hall => hall.2 h.2 h.1.2 h.1.1) _ _ _
    next h =>
      simp only [Bool.and_eq_true, decide_eq_true_eq, List.length_eq_zero_iff, not_and] at h
      exact ok_iff_of_holds ⟨hok, fun hfour hclean hnil => h ⟨hnil, hclean⟩ hfour⟩ _ _

theorem connectLwt_ok_iff (hc : c.Typed) (hlevel : c.level = 4 ∨ c.level = 5) (b : Bytes) :
    connectLwt c = .ok b ↔
      (c.enableLwt ≠ 0 → ∃ w, c.lwtMsg = some w ∧ w.Accepted c.level) ∧
        b = optionWire (WillPart.wire c.level) c.packet.will := by
  unfold connectLwt MqttConnect.packet
  by_cases henabled : c.enableLwt ≠ 0
  · rw [if_pos henabled, connectWill_ok_iff hlevel hc.lwtMsg]
    constructor
    · rintro ⟨w, hw, hok, rfl⟩
      refine ⟨fun _ => ⟨w, hw, hok⟩, ?_⟩
      simp only [if_pos henabled, hw]
      rfl
    · rintro ⟨hok, rfl⟩
      obtain ⟨w, hw, hacc⟩ := hok henabled
      refine ⟨w, hw, hacc, ?_⟩
      simp only [if_pos henabled, hw]
      rfl
  · simp only [if_neg henabled]
    exact ok_iff_of_holds (fun h => absurd h henabled) _ _

theorem connectUsername_ok_iff (b : Bytes) :
    connectUsername c = .ok b ↔ (∀ s ∈ c.username, StringOk s) ∧ b = optionWire encodeData c.packet.username := by
  unfold connectUsername MqttConnect.packet
  cases c.username with
  | none => exact ok_iff_of_holds (by simp) _ _
  | some name =>
    have hall : (∀ s ∈ some name, StringOk s) ↔ StringOk name := by simp
    rw [hall]
    exact connectString_ok_iff name b

theorem connectPassword_ok_iff (b : Bytes) :
    connectPassword c = .ok b ↔
      (∀ memory ∈ c.password, DataOk (c.passwordBytes memory)) ∧ b = optionWire encodeData c.packet.password := by
  unfold connectPassword MqttConnect.packet
  cases c.password with
  | none => exact ok_iff_of_holds (by simp) _ _
  | some memory =>
    dsimp only
    split
    next h =>
      refine error_iff_of_not (fun hok => ?_) _ _ _
      have := hok memory rfl
      rw [DataOk] at this
      omega
    next h =>
      refine ok_iff_of_holds ?_ _ _
      intro s hs
      cases hs
      rw [DataOk]
      omega

/-- The encoder takes what is accepted, and writes the packet asked for. -/
theorem connectBody_ok_iff (hc : c.Typed) (body : Bytes) :
    connectBody c = .ok body ↔ c.Accepted ∧ body = c.packet.body := by
  unfold connectBody
  cases hid : c.clientId with
  | none => exact error_iff_of_not (fun h => by obtain ⟨id, h, -⟩ := h.clientId; rw [hid] at h; cases h) _ _ _
  | some id =>
    dsimp only
    split
    next h =>
      simp only [Bool.and_eq_true, decide_eq_true_eq] at h
      exact error_iff_of_not (fun hok => by obtain hl | hl := hok.level; exact h.1 hl; exact h.2 hl) _ _ _
    next hlevel =>
    split
    next h =>
      simp only [Bool.and_eq_true, decide_eq_true_eq, Option.isNone_iff_eq_none] at h
      exact error_iff_of_not (fun hok => by have := hok.paired h.1.1 h.1.2; rw [h.2] at this; cases this) _ _ _
    next hpaired =>
    have hlevel : c.level = 4 ∨ c.level = 5 := by
      simp only [Bool.and_eq_true, decide_eq_true_eq, not_and, not_not] at hlevel
      exact or_iff_not_imp_left.mpr hlevel
    have hpaired : c.level = 4 → c.password.isSome → c.username.isSome := by
      simp only [Bool.and_eq_true, decide_eq_true_eq, Option.isNone_iff_eq_none, not_and] at hpaired
      exact fun hfour hpass => Option.ne_none_iff_isSome.mp (hpaired ⟨hfour, hpass⟩)
    have hcid : c.packet.clientId = id := by rw [MqttConnect.packet, hid]; rfl
    have hbody : (c.enableLwt ≠ 0 → ∃ w, c.lwtMsg = some w ∧ w.Accepted c.level) →
        connectFront c.level (connectFlags c) c.keepAliveSec.toNat ++ levelSection c.level c.packet.props ++
          encodeData id ++ optionWire (WillPart.wire c.level) c.packet.will ++
          optionWire encodeData c.packet.username ++ optionWire encodeData c.packet.password = c.packet.body := by
      intro hwill
      have hflags := connectFlags_eq c fun henabled => by
        obtain ⟨w, hw, hacc⟩ := hwill henabled
        exact ⟨w, hw, hacc.qos⟩
      rw [hflags, ConnectPacket.body, ConnectPacket.payload, hcid]
      simp only [List.append_assoc]
      rfl
    constructor
    · intro h
      obtain ⟨props, hprops, h⟩ := Agree.bind_eq_ok.mp h
      obtain ⟨clientId, hclient, h⟩ := Agree.bind_eq_ok.mp h
      obtain ⟨will, hwill, h⟩ := Agree.bind_eq_ok.mp h
      obtain ⟨username, huser, h⟩ := Agree.bind_eq_ok.mp h
      obtain ⟨password, hpass, h⟩ := Agree.bind_eq_ok.mp h
      obtain ⟨hpropsOk, rfl⟩ := (connectProps_ok_iff hc hlevel _).mp hprops
      obtain ⟨hclientOk, rfl⟩ := (connectClientId_ok_iff id _).mp hclient
      obtain ⟨hwillOk, rfl⟩ := (connectLwt_ok_iff hc hlevel _).mp hwill
      obtain ⟨huserOk, rfl⟩ := (connectUsername_ok_iff _).mp huser
      obtain ⟨hpassOk, rfl⟩ := (connectPassword_ok_iff _).mp hpass
      cases h
      exact ⟨⟨⟨id, hid, hclientOk⟩, hlevel, hpaired, hpropsOk, hwillOk, huserOk, hpassOk⟩, hbody hwillOk⟩
    · rintro ⟨hok, rfl⟩
      obtain ⟨id', hid', hclient⟩ := hok.clientId
      obtain rfl : id = id' := Option.some.inj (hid.symm.trans hid')
      rw [(connectProps_ok_iff hc hlevel _).mpr ⟨hok.props, rfl⟩, Agree.ok_bind,
        (connectClientId_ok_iff id _).mpr ⟨hclient, rfl⟩, Agree.ok_bind,
        (connectLwt_ok_iff hc hlevel _).mpr ⟨hok.will, rfl⟩, Agree.ok_bind,
        (connectUsername_ok_iff _).mpr ⟨hok.username, rfl⟩, Agree.ok_bind,
        (connectPassword_ok_iff _).mpr ⟨hok.password, rfl⟩, Agree.ok_bind, hbody hok.will]

end Sections

/-! ### The packet of an accepted structure -/

theorem propsSent_own {props : List MqttProp} (htyped : ∀ p ∈ props, p.Typed) (hvalid : ValidProps .connect props) :
    PropsSent (props.map MqttProp.own) where
  typed := by
    intro p hp
    obtain ⟨q, hq, rfl⟩ := List.mem_map.mp hp
    exact (htyped q hq).own
  own := by
    intro p hp
    obtain ⟨q, -, rfl⟩ := List.mem_map.mp hp
    exact q.own_own
  valid := validProps_map_own hvalid

theorem levelProps_own {Ok : List MqttProp → Prop} {level : UInt8} {props : List MqttProp}
    (h : level = 5 → Ok (props.map MqttProp.own)) :
    LevelProps Ok level (if level = 5 then props.map MqttProp.own else []) := by
  unfold LevelProps
  by_cases hlevel : level = 5
  · simp only [if_pos hlevel]
    exact h hlevel
  · simp only [if_neg hlevel]

namespace MqttConnect

variable {c : MqttConnect}

/-- The will of an accepted structure. -/
theorem will_packet {w : WillPart} (h : w ∈ c.packet.will) :
    c.enableLwt ≠ 0 ∧ ∃ lwt, c.lwtMsg = some lwt ∧ lwt.part c.level = w := by
  unfold packet at h
  by_cases henabled : c.enableLwt ≠ 0
  · simp only [if_pos henabled, Option.mem_def] at h
    exact ⟨henabled, Option.map_eq_some_iff.mp h⟩
  · simp only [if_neg henabled] at h
    cases h

theorem Accepted.lwt (h : c.Accepted) {w : WillPart} (hw : w ∈ c.packet.will) :
    ∃ lwt, c.lwtMsg = some lwt ∧ lwt.Accepted c.level ∧ lwt.part c.level = w := by
  obtain ⟨henabled, lwt, hlwt, hpart⟩ := will_packet hw
  obtain ⟨lwt', hlwt', hacc⟩ := h.will henabled
  obtain rfl : lwt = lwt' := Option.some.inj (hlwt.symm.trans hlwt')
  exact ⟨lwt, hlwt, hacc, hpart⟩

theorem Accepted.sent (h : c.Accepted) (hc : c.Typed) : c.packet.Sent where
  keepAlive := c.keepAliveSec.toNat_lt
  props := levelProps_own fun hlevel => propsSent_own hc.props (h.props ((level5_iff h.level).mpr hlevel))
  clientId := by
    obtain ⟨id, hid, hok, -⟩ := h.clientId
    show DataOk (c.clientId.getD [])
    rw [hid]
    exact hok.1
  qos := by
    intro w hw
    obtain ⟨lwt, -, hacc, rfl⟩ := h.lwt hw
    exact hacc.qos
  willProps := by
    intro w hw
    obtain ⟨lwt, hlwt, hacc, rfl⟩ := h.lwt hw
    exact levelProps_own fun hlevel =>
      propsSent_own (hc.lwtMsg lwt hlwt).props (hacc.props ((level5_iff h.level).mpr hlevel)).1
  topic := by
    intro w hw
    obtain ⟨lwt, -, hacc, rfl⟩ := h.lwt hw
    obtain ⟨topic, htopic, hok, -⟩ := hacc.topic
    show DataOk (lwt.topicName.getD [])
    rw [htopic]
    exact hok.1
  payload := by
    intro w hw
    obtain ⟨lwt, -, hacc, rfl⟩ := h.lwt hw
    exact Nat.lt_of_le_of_lt (List.length_take_le _ _) hacc.totalLen
  username s hs := (h.username s hs).1
  password := by
    intro s hs
    obtain ⟨memory, hmemory, rfl⟩ := Option.map_eq_some_iff.mp hs
    exact h.password memory hmemory

/-- What the decoder asks for beyond what the encoder checks. -/
structure Decodable (c : MqttConnect) : Prop where
  auth : c.level = 5 → authPaired c.props
  topic : c.enableLwt ≠ 0 → ∀ lwt ∈ c.lwtMsg, lwt.topicName ≠ some []

theorem authPaired_will {props : List MqttProp} (h : ∀ p ∈ props, willPropsValidateType p.type) : authPaired props := by
  rintro ⟨p, hp, htype⟩
  have hwill := h p hp
  rw [htype] at hwill
  cases hwill

theorem Accepted.ok_iff (h : c.Accepted) (hc : c.Typed) : c.packet.Ok ↔ c.Decodable := by
  have hsent := h.sent hc
  constructor
  · intro hok
    constructor
    · intro hlevel
      have hprops : LevelProps PropsOk c.level (if c.level = 5 then c.props.map MqttProp.own else []) := hok.props
      unfold LevelProps at hprops
      simp only [if_pos hlevel] at hprops
      exact (authPaired_map_own _).mp hprops.auth
    · intro henabled lwt hlwt hnil
      have hw : lwt.part c.level ∈ c.packet.will := by
        show (if c.enableLwt ≠ 0 then c.lwtMsg.map (LwtMsg.part c.level) else none) = some _
        rw [if_pos henabled, hlwt, Option.map_some]
      refine (hok.will _ hw).filled ?_
      show lwt.topicName.getD [] = []
      rw [hnil]
      rfl
  · intro hdec
    refine ⟨hsent.keepAlive, ?_, ?_, ?_, h.username, hsent.password, ?_⟩
    · refine levelProps_own fun hlevel => ?_
      have hs := propsSent_own hc.props (h.props ((level5_iff h.level).mpr hlevel))
      exact ⟨hs.typed, hs.own, hs.valid, (authPaired_map_own _).mpr (hdec.auth hlevel)⟩
    · obtain ⟨id, hid, hok, -⟩ := h.clientId
      show StringOk (c.clientId.getD [])
      rw [hid]
      exact hok
    · intro w hw
      obtain ⟨henabled, -⟩ := will_packet hw
      obtain ⟨lwt, hlwt, hacc, rfl⟩ := h.lwt hw
      obtain ⟨topic, htopic, hok, hplain⟩ := hacc.topic
      have htopic' : (lwt.part c.level).topic = topic := by
        show lwt.topicName.getD [] = topic
        rw [htopic]
        rfl
      refine ⟨hacc.qos, ?_, ?_, ?_, ?_, hsent.payload _ hw⟩
      · refine levelProps_own fun hlevel => ?_
        obtain ⟨hvalid, htypes⟩ := hacc.props ((level5_iff h.level).mpr hlevel)
        have hs := propsSent_own (hc.lwtMsg lwt hlwt).props hvalid
        have htypes' : ∀ p ∈ lwt.props.map MqttProp.own, willPropsValidateType p.type := by simpa using htypes
        exact ⟨⟨hs.typed, hs.own, hs.valid, authPaired_will htypes'⟩, htypes'⟩
      · rwa [htopic']
      · rw [htopic']
        rintro rfl
        exact hdec.topic henabled lwt hlwt htopic
      · rwa [htopic']
    · intro hfour hpass
      refine h.paired hfour ?_
      rwa [packet, Option.isSome_map] at hpass

end MqttConnect

/-! ### The round trip -/

open Agree (Only only_ok only_error only_ite only_bind)

theorem connectString_negative (s : Bytes) : Only (· < 0) (connectString s) :=
  only_ite (only_error (by decide)) (only_ite (only_error (by decide)) (only_ok _))

theorem encodePropBlock_negative (packet : PacketType) (props : List MqttProp) :
    Only (· < 0) (encodePropBlock packet props) := by
  unfold encodePropBlock
  split
  · exact only_error (by decide)
  · unfold encodeVbi
    split
    next h =>
      split at h
      · cases h
        exact only_error (by decide)
      · cases h
    · exact only_ok _

theorem connectWill_negative (level : UInt8) (o : Option LwtMsg) : Only (· < 0) (connectWill level o) := by
  unfold connectWill
  split
  · exact only_error (by decide)
  · split
    · exact only_error (by decide)
    · refine only_ite (only_error (by decide)) (only_ite (only_error (by decide)) (only_ite (only_error (by decide)) ?_))
      refine only_ite (only_error (by decide)) (only_ite (only_error (by decide)) (only_ite (only_error (by decide)) ?_))
      refine only_bind ?_ fun _ => only_ok _
      exact only_ite (only_ite (only_error (by decide)) (encodePropBlock_negative _ _)) (only_ok _)

/-- The encoder's codes are negative. -/
theorem connectBody_negative (c : MqttConnect) : Only (· < 0) (connectBody c) := by
  unfold connectBody
  split
  · exact only_error (by decide)
  next id =>
    refine only_ite (only_error (by decide)) (only_ite (only_error (by decide)) ?_)
    refine only_bind (only_ite (encodePropBlock_negative _ _) (only_ok _)) fun _ => ?_
    refine only_bind ?_ fun _ => only_bind (only_ite (connectWill_negative _ _) (only_ok _)) fun _ => ?_
    · unfold connectClientId
      split
      next he => exact only_error (connectString_negative _ _ he)
      · exact only_ite (only_error (by decide)) (only_ok _)
    · refine only_bind ?_ fun _ => only_bind ?_ fun _ => only_ok _
      · unfold connectUsername
        split
        · exact only_ok _
        · exact connectString_negative _
      · unfold connectPassword
        split
        · exact only_ok _
        · exact only_ite (only_error (by decide)) (only_ok _)

/-- A body that is short enough is written into a buffer that is large enough, and no other. -/
theorem encodePacket_connect (txLen : Nat) {body : Bytes} (hbody : body.length ≤ maxRemainLen) :
    encodePacket txLen .connect .qos0 body =
      if txLen < 5 then .fail Code.outOfBuffer
      else if txLen < (0x10 :: (vbiBytes maxLenBytes body.length ++ body)).length then
        ⟨Code.outOfBuffer, 0x10 :: vbiBytes maxLenBytes body.length⟩
      else .done (0x10 :: (vbiBytes maxLenBytes body.length ++ body)) := by
  have hlen : ((body.length : Int) % 4294967296).toNat = body.length := by
    rw [maxRemainLen] at hbody
    omega
  have hheader : encodeFixedHeader txLen body.length .connect false .qos0 false =
      if txLen < 5 then .fail Code.outOfBuffer else .done (0x10 :: vbiBytes maxLenBytes body.length) := by
    unfold encodeFixedHeader
    rw [hlen, encodeVbi_eq hbody]
    rfl
  have hcode : (Encoded.fail Code.outOfBuffer).rc < 0 := by decide
  have hlength : ∀ out, ¬(Encoded.done out).rc < 0 := fun out => Int.not_lt.mpr (Int.natCast_nonneg out.length)
  unfold encodePacket
  rw [hheader]
  by_cases hsmall : txLen < 5
  · simp only [if_pos hsmall, if_pos hcode]
  · simp only [if_neg hsmall, if_neg (hlength _)]
    simp only [Encoded.done, List.length_cons, List.length_append, List.cons_append, Nat.add_right_comm]

/-- An accepted structure is written as the packet it asks for, and all of it is there. -/
theorem encodeConnect_wire {c : MqttConnect} (hc : c.Typed) {txLen : Nat} (h : 0 ≤ (encodeConnect txLen c).rc) :
    c.Accepted ∧ encodeConnect txLen c = .done c.packet.wire := by
  unfold encodeConnect at h ⊢
  split at h
  next e he =>
    have hneg : e < 0 := connectBody_negative c e he
    exact absurd h (by show ¬0 ≤ e; omega)
  next body hbody =>
    obtain ⟨hacc, rfl⟩ := (connectBody_ok_iff hc body).mp hbody
    rw [encodePacket_connect txLen (hacc.sent hc).body_length_le] at h ⊢
    have hcode : ¬0 ≤ Code.outOfBuffer := by decide
    split at h
    · exact absurd h hcode
    next hsmall =>
    split at h
    · exact absurd h hcode
    next hfits =>
    refine ⟨hacc, ?_⟩
    rw [if_neg hsmall, if_neg hfits]
    rfl

/-- An accepted structure is written into every buffer that is large enough. -/
theorem encodeConnect_of_accepted {c : MqttConnect} (hc : c.Typed) (hacc : c.Accepted) {txLen : Nat}
    (hroom : c.packet.wire.length ≤ txLen) : encodeConnect txLen c = .done c.packet.wire := by
  have hbody := (connectBody_ok_iff hc _).mpr ⟨hacc, rfl⟩
  have hfive : 5 ≤ c.packet.wire.length := by
    rw [ConnectPacket.wire, ConnectPacket.body, List.length_cons, List.length_append, List.length_append,
      connectFront_length]
    omega
  unfold encodeConnect
  rw [hbody]
  dsimp only
  rw [encodePacket_connect txLen (hacc.sent hc).body_length_le]
  have hfits : ¬txLen < (0x10 :: (vbiBytes maxLenBytes c.packet.body.length ++ c.packet.body)).length :=
    Nat.not_lt.mpr hroom
  rw [if_neg (by omega), if_neg hfits]
  rfl

theorem ConnectPacket.Sent.wire_length_lt {p : ConnectPacket} (hp : p.Sent) : p.wire.length < 2147483648 := by
  have hbody := hp.body_length_le
  have hvbi := vbiBytes_length_le maxLenBytes p.body.length
  rw [ConnectPacket.wire, List.length_cons, List.length_append]
  rw [maxLenBytes] at hvbi ⊢
  rw [maxRemainLen] at hbody
  omega

/-- An accepted CONNECT is taken by the decoder exactly if it is decodable and its properties find room. -/
theorem decodeConnect_encodeConnect_iff {c : MqttConnect} (hc : c.Typed) {txLen : Nat}
    (h : 0 ≤ (encodeConnect txLen c).rc) (room : Nat) :
    (∃ d, decodeConnect true room (encodeConnect txLen c).out = .ok ((encodeConnect txLen c).rc.toNat, d)) ↔
      c.Decodable ∧ c.packet.slots ≤ room := by
  obtain ⟨hacc, henc⟩ := encodeConnect_wire hc h
  have hsent := hacc.sent hc
  have hrx := hsent.wire_length_lt
  rw [henc]
  show (∃ d, decodeConnect true room c.packet.wire = .ok (c.packet.wire.length, d)) ↔ _
  constructor
  · rintro ⟨d, hd⟩
    obtain ⟨p, hok, hroom, hwire, -, -⟩ := decodeConnect_sound hrx hd
    obtain rfl := wire_unique hsent hok.sent (List.prefix_refl _) hwire
    exact ⟨(hacc.ok_iff hc).mp hok, hroom⟩
  · rintro ⟨hdec, hroom⟩
    obtain ⟨d, hd, -⟩ := decodeConnect_complete hrx ((hacc.ok_iff hc).mpr hdec) hroom (List.prefix_refl _)
    exact ⟨d, hd⟩

/-- What the decoder gives for an accepted CONNECT is what the structure asked for. -/
theorem decodeConnect_encodeConnect {c : MqttConnect} (hc : c.Typed) {txLen : Nat}
    (h : 0 ≤ (encodeConnect txLen c).rc) {room n : Nat} {d : ConnectView}
    (hd : decodeConnect true room (encodeConnect txLen c).out = .ok (n, d)) :
    n = (encodeConnect txLen c).out.length ∧ d.Shows (encodeConnect txLen c).out n c.packet := by
  obtain ⟨hacc, henc⟩ := encodeConnect_wire hc h
  have hsent := hacc.sent hc
  rw [henc] at hd ⊢
  have hd : decodeConnect true room c.packet.wire = .ok (n, d) := hd
  obtain ⟨p, hok, -, hwire, hn, hshows⟩ := decodeConnect_sound hsent.wire_length_lt hd
  obtain rfl := wire_unique hsent hok.sent (List.prefix_refl _) hwire
  exact ⟨hn, hshows⟩

/-- Enhanced authentication, a Will with properties, and credentials. -/
def fullConnect : MqttConnect :=
  { protocolLevel := 5
    cleanSession := 1
    keepAliveSec := 60
    props := eauthProps
    clientId := some [0x41]
    enableLwt := 1
    lwtMsg := some
      { topicName := some [0x74]
        buffer := some [0x77]
        totalLen := 1
        qos := 1
        retain := 1
        props := [{type := .willDelayInterval, dataInt := 5}, {type := .userProp, dataStr := [0x6B], dataStr2 := [0x76]}] }
    username := some [0x75]
    password := some [0x70]
    passwordLen := 1 }

theorem fullConnect_typed : fullConnect.Typed := by
  refine ⟨?_, fun lwt hlwt => ?_, ?_⟩
  · show ∀ p ∈ eauthProps, p.Typed
    decide
  · cases hlwt
    exact ⟨by decide, by simp⟩
  · intro memory hmemory
    cases hmemory
    decide

theorem decodeConnect_encodeConnect_iff_sample :
    (encodeConnect 128 fullConnect).out = fullConnectWire ∧ fullConnect.packet.slots = 6 ∧
      ∃ d, decodeConnect true 6 (encodeConnect 128 fullConnect).out = .ok (62, d) := by
  have hdec : fullConnect.Decodable := by
    refine ⟨fun _ => by simp [authPaired, fullConnect, eauthProps], fun _ lwt hlwt => ?_⟩
    cases hlwt
    simp
  have hout : (encodeConnect 128 fullConnect).out = fullConnectWire := by decide +kernel
  have hrc : (encodeConnect 128 fullConnect).rc = 62 := by decide +kernel
  have hslots : fullConnect.packet.slots = 6 := by decide +kernel
  obtain ⟨d, hd⟩ := (decodeConnect_encodeConnect_iff fullConnect_typed (by rw [hrc]; decide) 6).mpr
    ⟨hdec, Nat.le_of_eq hslots⟩
  rw [hrc] at hd
  exact ⟨hout, hslots, d, hd⟩

/-- An empty Will Topic is written at level 5, and refused when it is read. -/
theorem not_decodeConnect_encodeConnect :
    ¬∀ (c : MqttConnect) (txLen room : Nat), c.Typed → c.level = 4 ∨ c.level = 5 → 0 ≤ (encodeConnect txLen c).rc →
      c.packet.slots ≤ room →
      ∃ d, decodeConnect true room (encodeConnect txLen c).out = .ok ((encodeConnect txLen c).rc.toNat, d) := by
  intro h
  let c : MqttConnect :=
    { protocolLevel := 5
      clientId := some [0x41]
      enableLwt := 1
      lwtMsg := some {topicName := some [], buffer := none, totalLen := 0} }
  have hc : c.Typed := ⟨by simp [c], by simp [c]; constructor <;> simp, by simp [c]⟩
  have henc : 0 ≤ (encodeConnect 64 c).rc := by decide
  obtain ⟨hacc, hout⟩ := encodeConnect_wire hc henc
  obtain ⟨d, hd⟩ := h c 64 30 hc (.inr rfl) henc (by decide)
  rw [hout] at hd
  obtain ⟨p, hok, -, hwire, -, -⟩ := decodeConnect_sound (hacc.sent hc).wire_length_lt hd
  obtain rfl := wire_unique (hacc.sent hc) hok.sent (List.prefix_refl _) hwire
  exact (hok.will _ rfl).filled rfl

/-- A will and a password with a NUL in it, at level 5. -/
theorem decodeConnect_encodeConnect_sample :
    ∃ n d, decodeConnect true 30 (encodeConnect 64
        { protocolLevel := 0
          clientId := some [0x41]
          enableLwt := 2
          lwtMsg := some {topicName := some [0x42], buffer := some [7, 8], totalLen := 1, qos := 1, retain := 4}
          password := some [1, 0, 2, 3]
          passwordLen := 3 }).out = .ok (n, d) ∧
      n = 28 ∧ d.Shows (encodeConnect 64
        { protocolLevel := 0
          clientId := some [0x41]
          enableLwt := 2
          lwtMsg := some {topicName := some [0x42], buffer := some [7, 8], totalLen := 1, qos := 1, retain := 4}
          password := some [1, 0, 2, 3]
          passwordLen := 3 }).out n
        { level := 5
          clean := false
          keepAlive := 0
          props := []
          clientId := [0x41]
          will := some {qos := 1, retain := true, props := [], topic := [0x42], payload := [7]}
          username := none
          password := some [1, 0, 2] } := by
  let c : MqttConnect :=
    { protocolLevel := 0
      clientId := some [0x41]
      enableLwt := 2
      lwtMsg := some {topicName := some [0x42], buffer := some [7, 8], totalLen := 1, qos := 1, retain := 4}
      password := some [1, 0, 2, 3]
      passwordLen := 3 }
  have hc : c.Typed := ⟨by simp [c], by simp [c]; constructor <;> simp, by simp [c]⟩
  have henc : 0 ≤ (encodeConnect 64 c).rc := by decide
  obtain ⟨hacc, hout⟩ := encodeConnect_wire hc henc
  have hok := (hacc.ok_iff hc).mpr ⟨by simp [c, authPaired], by simp [c]⟩
  obtain ⟨d, hd, -⟩ := decodeConnect_complete (hacc.sent hc).wire_length_lt hok (by decide : c.packet.slots ≤ 30)
    (List.prefix_refl _)
  have hdec : decodeConnect true 30 (encodeConnect 64 c).out = .ok (c.packet.wire.length, d) := by rwa [hout]
  obtain ⟨-, hshows⟩ := decodeConnect_encodeConnect hc henc hdec
  exact ⟨_, d, hdec, by decide, hshows⟩

/-! ### Will Properties -/

/-- The structure with its Will Properties taken out. -/
def MqttConnect.withoutWillProps (c : MqttConnect) : MqttConnect :=
  {c with lwtMsg := c.lwtMsg.map fun w => {w with props := []}}

/-- The encoder takes the structure, and the decoder, with a pool of free properties, what it writes. -/
def MqttConnect.Carried (c : MqttConnect) (Shown : Bytes → ConnectView → Prop) : Prop :=
  ∃ size, ∀ txLen ≥ size, 0 ≤ (encodeConnect txLen c).rc ∧
    ∃ d, decodeConnect true maxProps (encodeConnect txLen c).out = .ok ((encodeConnect txLen c).rc.toNat, d) ∧
      Shown (encodeConnect txLen c).out d

/-- What is carried, and that it is shown as it was asked for. -/
theorem MqttConnect.carried_iff {c : MqttConnect} (hc : c.Typed) (Shown : Bytes → ConnectView → Prop)
    (hshown : ∀ d, d.Shows c.packet.wire c.packet.wire.length c.packet → Shown c.packet.wire d) :
    c.Carried Shown ↔ c.Accepted ∧ c.Decodable ∧ c.packet.slots ≤ maxProps := by
  constructor
  · rintro ⟨size, hsize⟩
    obtain ⟨henc, d, hd, -⟩ := hsize size (Nat.le_refl _)
    obtain ⟨hacc, hout⟩ := encodeConnect_wire hc henc
    rw [hout] at hd
    obtain ⟨p, hok, hroom, hwire, -, -⟩ := decodeConnect_sound (hacc.sent hc).wire_length_lt hd
    obtain rfl := wire_unique (hacc.sent hc) hok.sent (List.prefix_refl _) hwire
    exact ⟨hacc, (hacc.ok_iff hc).mp hok, hroom⟩
  · rintro ⟨hacc, hdec, hroom⟩
    refine ⟨c.packet.wire.length, fun txLen htx => ?_⟩
    rw [encodeConnect_of_accepted hc hacc htx]
    obtain ⟨d, hd, hshows⟩ := decodeConnect_complete (hacc.sent hc).wire_length_lt ((hacc.ok_iff hc).mpr hdec) hroom
      (List.prefix_refl _)
    exact ⟨Int.natCast_nonneg _, d, hd, hshown d hshows⟩

theorem MqttConnect.Typed.withoutWillProps {c : MqttConnect} (hc : c.Typed) : c.withoutWillProps.Typed where
  props := hc.props
  lwtMsg := by
    intro w hw
    obtain ⟨w', hw', rfl⟩ := Option.map_eq_some_iff.mp hw
    exact ⟨by simp, (hc.lwtMsg w' hw').payload⟩
  password := hc.password

/-- A structure without Will Properties is accepted with them exactly if the list of them is. -/
theorem MqttConnect.accepted_iff_withoutWillProps {c : MqttConnect} {w : LwtMsg} (hlevel : c.level = 5)
    (henabled : c.enableLwt ≠ 0) (hw : c.lwtMsg = some w) :
    c.Accepted ↔ c.withoutWillProps.Accepted ∧ ValidProps .connect w.props ∧
      ∀ p ∈ w.props, willPropsValidateType p.type := by
  have hw₀ : c.withoutWillProps.lwtMsg = some {w with props := []} := by
    show c.lwtMsg.map _ = _
    rw [hw]
    rfl
  have hfive : (5 : UInt8) ≤ c.level := by
    rw [hlevel]
    decide
  constructor
  · intro h
    obtain ⟨w', hw', hacc⟩ := h.will henabled
    obtain rfl : w = w' := Option.some.inj (hw.symm.trans hw')
    refine ⟨⟨h.clientId, h.level, h.paired, h.props, fun _ => ⟨_, hw₀, ?_⟩, h.username, h.password⟩, hacc.props hfive⟩
    exact ⟨hacc.topic, hacc.buffer, hacc.qos, hacc.totalLen, fun _ => ⟨propsOk_nil.valid, by simp⟩⟩
  · rintro ⟨h, hprops⟩
    obtain ⟨w', hw', hacc⟩ := h.will henabled
    obtain rfl : {w with props := []} = w' := Option.some.inj (hw₀.symm.trans hw')
    refine ⟨h.clientId, h.level, h.paired, h.props, fun _ => ⟨w, hw, ?_⟩, h.username, h.password⟩
    exact ⟨hacc.topic, hacc.buffer, hacc.qos, hacc.totalLen, fun _ => hprops⟩

/-- Legal Will Properties of the types a will may have are carried exactly if the CONNECT column of the matrix has
their types too, and if they find room. -/
theorem willProps_carried_iff {c : MqttConnect} {w : LwtMsg} (hc : c.Typed) (hlevel : c.level = 5)
    (henabled : c.enableLwt ≠ 0) (hw : c.lwtMsg = some w) (htypes : ∀ p ∈ w.props, willPropsValidateType p.type)
    (hsingle : w.props.Pairwise fun p q => q.type = p.type → q.type = .userProp) (hlegal : ∀ p ∈ w.props, p.Legal)
    (hrest : c.withoutWillProps.Carried fun _ _ => True) :
    (c.Carried fun rx d => ∃ v, d.lwtMsg = some v ∧ v.props.map (PropView.read rx) = w.props.map MqttProp.own) ↔
      (∀ p ∈ w.props, p.type.allowedIn .connect) ∧ c.props.length + w.props.length ≤ maxProps := by
  have hc₀ := hc.withoutWillProps
  obtain ⟨hacc₀, hdec₀, -⟩ := (MqttConnect.carried_iff hc₀ _ fun _ _ => trivial).mp hrest
  have hpacket : c.packet.will = some (w.part c.level) := by
    show (if c.enableLwt ≠ 0 then c.lwtMsg.map (LwtMsg.part c.level) else none) = _
    rw [if_pos henabled, hw, Option.map_some]
  have hwprops : (w.part c.level).props = w.props.map MqttProp.own := if_pos hlevel
  have hslots : c.packet.slots = c.props.length + w.props.length := by
    have hprops : c.packet.props = c.props.map MqttProp.own := if_pos hlevel
    rw [ConnectPacket.slots, hpacket, Option.map_some, Option.getD_some, hprops, hwprops, List.length_map,
      List.length_map]
  have hshown : ∀ d : ConnectView, d.Shows c.packet.wire c.packet.wire.length c.packet →
      ∃ v, d.lwtMsg = some v ∧ v.props.map (PropView.read c.packet.wire) = w.props.map MqttProp.own := by
    intro d hd
    have hlwt := hd.lwtMsg
    rw [hpacket] at hlwt
    cases hv : d.lwtMsg with
    | none =>
      rw [hv] at hlwt
      cases hlwt
    | some v =>
      rw [hv] at hlwt
      cases hlwt with
      | some hv => exact ⟨v, rfl, by rw [← hwprops]; exact hv.props.1⟩
  have hdec : c.Decodable := by
    refine ⟨hdec₀.auth, fun _ lwt hlwt hnil => ?_⟩
    obtain rfl : w = lwt := Option.some.inj (hw.symm.trans hlwt)
    refine hdec₀.topic henabled {w with props := []} ?_ hnil
    show c.lwtMsg.map _ = _
    rw [hw]
    rfl
  rw [MqttConnect.carried_iff hc _ hshown, MqttConnect.accepted_iff_withoutWillProps hlevel henabled hw, hslots]
  constructor
  · rintro ⟨⟨-, hvalid, -⟩, -, hroom⟩
    exact ⟨hvalid.allowed, hroom⟩
  · rintro ⟨hallowed, hroom⟩
    refine ⟨⟨hacc₀, ⟨by omega, hallowed, hlegal, ?_⟩, htypes⟩, hdec, hroom⟩
    refine hsingle.imp fun {p q} hpq hrep heq => ?_
    rw [propRepeats, hpq heq] at hrep
    simp at hrep

/-- A will with the given properties, and nothing else. -/
def willOnly (props : List MqttProp) : MqttConnect :=
  { protocolLevel := 5
    clientId := some []
    enableLwt := 1
    lwtMsg := some {topicName := some [0x42], buffer := none, totalLen := 0, props} }

theorem willOnly_typed {props : List MqttProp} (h : ∀ p ∈ props, p.Typed) : (willOnly props).Typed := by
  refine ⟨by simp [willOnly], ?_, by simp [willOnly]⟩
  intro w hw
  cases hw
  exact ⟨h, by simp⟩

theorem willOnly_rest {props : List MqttProp} (h : ∀ p ∈ props, p.Typed) :
    (willOnly props).withoutWillProps.Carried fun _ _ => True := by
  have hc : (willOnly []).Typed := willOnly_typed (by simp)
  obtain ⟨hacc, -⟩ := encodeConnect_wire hc (by decide : 0 ≤ (encodeConnect 64 (willOnly [])).rc)
  refine (MqttConnect.carried_iff (willOnly_typed h).withoutWillProps _ fun _ _ => trivial).mpr
    ⟨hacc, ?_, by show (willOnly []).packet.slots ≤ maxProps; decide⟩
  exact ⟨by simp [willOnly, MqttConnect.withoutWillProps, authPaired], by simp [willOnly, MqttConnect.withoutWillProps]⟩

theorem willProps_carried_iff_sample :
    (willOnly [{type := .willDelayInterval, dataInt := 7}]).Carried fun rx d =>
      ∃ v, d.lwtMsg = some v ∧ v.props.map (PropView.read rx) = [{type := .willDelayInterval, dataInt := 7}] :=
  have htyped : ∀ p ∈ [({type := .willDelayInterval, dataInt := 7} : MqttProp)], p.Typed := by
    simp only [List.mem_singleton, forall_eq]
    constructor <;> decide
  (willProps_carried_iff (willOnly_typed htyped) rfl (by decide) rfl (by decide) (by simp)
    (by simp [MqttProp.Legal, PropType.dataType]) (willOnly_rest htyped)).mpr ⟨by decide, by decide⟩

/-- A Payload Format Indicator may stand in a will, and is refused there. -/
theorem not_willProps_carried :
    ¬∀ (c : MqttConnect) (w : LwtMsg), c.Typed → c.level = 5 → c.enableLwt ≠ 0 → c.lwtMsg = some w → w.props ≠ [] →
      (∀ p ∈ w.props, willPropsValidateType p.type) →
      (w.props.Pairwise fun p q => q.type = p.type → q.type = .userProp) → (∀ p ∈ w.props, p.Legal) →
      (c.withoutWillProps.Carried fun _ _ => True) →
      c.Carried fun rx d => ∃ v, d.lwtMsg = some v ∧ v.props.map (PropView.read rx) = w.props.map MqttProp.own := by
  intro h
  have htyped : ∀ p ∈ [({type := .payloadFormatInd, dataByte := 1} : MqttProp)], p.Typed := by
    simp only [List.mem_singleton, forall_eq]
    constructor <;> decide
  have hcarried := h (willOnly [{type := .payloadFormatInd, dataByte := 1}]) _ (willOnly_typed htyped) rfl (by decide) rfl
    (by simp) (by decide) (by simp) (by simp [MqttProp.Legal, PropType.dataType]) (willOnly_rest htyped)
  obtain ⟨size, hsize⟩ := hcarried
  obtain ⟨henc, -⟩ := hsize size (Nat.le_refl _)
  obtain ⟨hacc, -⟩ := encodeConnect_wire (willOnly_typed htyped) henc
  obtain ⟨-, hvalid, -⟩ := (MqttConnect.accepted_iff_withoutWillProps rfl (by decide) rfl).mp hacc
  exact absurd (hvalid.allowed _ (List.mem_singleton.mpr rfl)) (by decide)

end WolfMqtt
