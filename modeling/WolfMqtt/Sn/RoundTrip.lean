import WolfMqtt.Sn.Message

/-! MQTT-SN PUBLISH and REGISTER, read back from the bytes they were encoded to. -/
namespace WolfMqtt.Sn

/-! ### Flags -/

/-- A byte that is asked only whether it is zero. -/
def asBit (b : UInt8) : UInt8 := if b ≠ 0 then 1 else 0

theorem flagIf_cases (member flag : UInt8) :
    flagIf member flag = 0 ∧ member = 0 ∨ flagIf member flag = flag ∧ member ≠ 0 := by
  unfold flagIf
  split
  next h => exact .inr ⟨rfl, h⟩
  next h => exact .inl ⟨rfl, not_not.mp h⟩

theorem qos_cases {qos : UInt8} (h : qos ≤ 3) : qos = 0 ∨ qos = 1 ∨ qos = 2 ∨ qos = 3 := by
  have hle : qos.toNat ≤ 3 := h
  have hval : ∀ m : UInt8, qos.toNat = m.toNat → qos = m := fun m hm => UInt8.toNat_inj.mp hm
  have hcases : qos.toNat = 0 ∨ qos.toNat = 1 ∨ qos.toNat = 2 ∨ qos.toNat = 3 := by omega
  rcases hcases with hq | hq | hq | hq
  · exact .inl (hval 0 hq)
  · exact .inr (.inl (hval 1 hq))
  · exact .inr (.inr (.inl (hval 2 hq)))
  · exact .inr (.inr (.inr (hval 3 hq)))

/-- The topic id types that are defined. -/
def TopicIdType.Defined (type : UInt8) : Prop := type = normal ∨ type = predef ∨ type = short

/-- Each flag is found again in the flags of a PUBLISH. -/
theorem flags_read (duplicate retain : UInt8) {qos topicType : UInt8} (hqos : qos ≤ 3)
    (htype : TopicIdType.Defined topicType) {flags : UInt8}
    (h : flags = flagIf duplicate Flag.duplicate ||| qosFlags qos ||| flagIf retain Flag.retain |||
      (Flag.topicIdTypeMask &&& topicType)) :
    asBit (flags &&& Flag.duplicate) = asBit duplicate ∧ (flags &&& Flag.qosMask) >>> Flag.qosShift = qos ∧
      asBit (flags &&& Flag.retain) = asBit retain ∧ flags &&& Flag.topicIdTypeMask = topicType := by
  have hset : ∀ {member : UInt8}, member ≠ 0 → asBit member = 1 := fun hne => if_pos hne
  have hdup : asBit duplicate = asBit (flagIf duplicate Flag.duplicate) := by
    rcases flagIf_cases duplicate Flag.duplicate with ⟨hflag, hzero⟩ | ⟨hflag, hne⟩
    · rw [hflag, hzero]
    · rw [hflag, hset hne]
      rfl
  have hretain : asBit retain = asBit (flagIf retain Flag.retain) := by
    rcases flagIf_cases retain Flag.retain with ⟨hflag, hzero⟩ | ⟨hflag, hne⟩
    · rw [hflag, hzero]
    · rw [hflag, hset hne]
      rfl
  rw [hdup, hretain, h]
  have hd : flagIf duplicate Flag.duplicate = 0 ∨ flagIf duplicate Flag.duplicate = Flag.duplicate :=
    (flagIf_cases duplicate Flag.duplicate).imp And.left And.left
  have hr : flagIf retain Flag.retain = 0 ∨ flagIf retain Flag.retain = Flag.retain :=
    (flagIf_cases retain Flag.retain).imp And.left And.left
  generalize flagIf duplicate Flag.duplicate = d at hd
  generalize flagIf retain Flag.retain = r at hr
  rcases hd with rfl | rfl <;> rcases hr with rfl | rfl <;> rcases qos_cases hqos with rfl | rfl | rfl | rfl <;>
    rcases htype with rfl | rfl | rfl <;> decide

/-! ### PUBLISH -/

/-- The bytes of a topic as the decoder hands them over: the two that stand in `topicName` for a short and a
predefined topic, the id in them, most significant byte first, for a normal one. -/
def topicBytes (host : ByteOrder) (topicType : UInt8) (topicName : Bytes) : Bytes :=
  if topicType = TopicIdType.normal then encodeNum (host.read (topicName.getD 0 0) (topicName.getD 1 0))
  else copied topicName 2

/-- What a decoded PUBLISH has in common with the one that was encoded. -/
structure Publish.ReadBack (host : ByteOrder) (p : Publish) (d : DecodedPublish) : Prop where
  duplicate : asBit d.duplicate = asBit p.duplicate
  retain : asBit d.retain = asBit p.retain
  qos : d.qos = p.qos
  topicType : d.topicType = p.topicType
  packetId : d.packetId = p.packetId.toNat
  payload : d.payload = copied (p.buffer.getD []) p.totalLen.toNat
  topic : ∃ topicName, p.topicName = some topicName ∧ d.topicName = topicBytes host p.topicType topicName

/-- A PUBLISH that can be answered when it asks for an answer. -/
structure Publish.Sound (p : Publish) : Prop where
  topicType : TopicIdType.Defined p.topicType
  qos : p.qos ≤ 3
  packetId : p.qos = 1 ∨ p.qos = 2 → p.packetId ≠ 0

theorem encodeTopic_eq (host : ByteOrder) {topicType : UInt8} (h : TopicIdType.Defined topicType) (topicName : Bytes) :
    encodeTopic host topicType topicName = topicBytes host topicType topicName := by
  unfold encodeTopic topicBytes
  rcases h with rfl | rfl | rfl
  · rw [if_neg (by decide), if_pos rfl]
  · rw [if_pos (by decide), if_neg (by decide)]
  · rw [if_pos (by decide), if_neg (by decide)]

/-- Two bytes are a list of two. -/
theorem exists_pair {bytes : Bytes} (h : bytes.length = 2) : ∃ b₀ b₁, bytes = [b₀, b₁] := by
  match bytes, h with
  | [b₀, b₁], _ => exact ⟨b₀, b₁, rfl⟩

/-- What stands behind the flags is read in both forms of the header. -/
theorem decodePublishFields_read {host : ByteOrder} {p : Publish} (h : p.Sound) {topicName : Bytes}
    (htopic : p.topicName = some topicName) {totalLen used : Nat} (hlen : totalLen = used + 4 + p.totalLen.toNat) :
    ∃ d, decodePublishFields p.flags totalLen used (encodeTopic host p.topicType topicName ++
        (encodeNum p.packetId.toNat ++ copied (p.buffer.getD []) p.totalLen.toNat)) = .ok d ∧
      d.totalLen = totalLen ∧ p.ReadBack host d := by
  obtain ⟨hdup, hqos, hretain, htype⟩ := flags_read p.duplicate p.retain h.qos h.topicType (show p.flags = _ from rfl)
  obtain ⟨b₀, b₁, hpair⟩ := exists_pair (encodeTopic_length host p.topicType topicName)
  have hid : ¬((p.qos = 1 ∨ p.qos = 2) ∧ p.packetId.toNat = 0) := by
    rintro ⟨hq, hzero⟩
    exact h.packetId hq (UInt16.toNat_inj.mp hzero)
  have hdefined : ¬p.topicType > TopicIdType.short := by
    rcases h.topicType with ht | ht | ht <;> rw [ht] <;> decide
  have hcovers : ¬totalLen < used + 4 := by omega
  have hpayload : ((encodeNum p.packetId.toNat ++ copied (p.buffer.getD []) p.totalLen.toNat).drop 2).take
      (totalLen - (used + 4)) = copied (p.buffer.getD []) p.totalLen.toNat := by
    rw [List.drop_left' (encodeNum_length _), hlen, Nat.add_sub_cancel_left]
    exact List.take_of_length_le (Nat.le_of_eq (copied_length _ _))
  rw [hpair, List.cons_append, List.singleton_append]
  simp only [decodePublishFields, decodeNum_encodeNum p.packetId.toNat_lt, hqos, htype, if_neg hid, if_neg hdefined,
    if_neg hcovers, hpayload]
  refine ⟨_, rfl, rfl, hdup, hretain, rfl, rfl, rfl, rfl, topicName, htopic, ?_⟩
  show [b₀, b₁] = _
  rw [← hpair, encodeTopic_eq host h.topicType]

theorem decodePublish_encode (host : ByteOrder) {p : Publish} (h : p.Sound) {txLen : Int}
    (haccepted : 0 ≤ (encodePublish host txLen (some p)).rc) :
    ∃ d, decodePublish (encodePublish host txLen (some p)).out = .ok d ∧
      (d.totalLen : Int) = (encodePublish host txLen (some p)).rc ∧ p.ReadBack host d := by
  obtain ⟨topicName, totalLen, htopic, hframed, -, hcode⟩ :=
    (encodePublish_cases host p).resolve_left (Int.not_lt.mpr haccepted)
  have hlen := hframed.length MsgType.publish
  have hcounts := hframed.counts
  rw [Publish.rest_length] at hcounts
  have hfield := lengthField_length totalLen
  have hsum : totalLen = (lengthField totalLen).length + 2 + 4 + p.totalLen.toNat := by omega
  obtain ⟨d, hdecoded, hd, hread⟩ := decodePublishFields_read h htopic hsum
  refine ⟨d, ?_, ?_, hread⟩
  · have hmin : ¬(packetBytes totalLen MsgType.publish (p.rest host topicName)).length < 2 := by omega
    have hover : ¬totalLen > (packetBytes totalLen MsgType.publish (p.rest host topicName)).length := by omega
    have hunder : ¬totalLen < 7 := by omega
    rw [hcode]
    simp only [decodePublish, if_neg hmin, hframed.decodeLength, if_neg hover, if_neg hunder, packetBytes_drop]
    simp only [Publish.rest, ne_eq, not_true, if_false]
    exact hdecoded
  · rw [hd, hcode]

/-! ### C strings -/

/-- The C string in memory. -/
def cString (mem : Bytes) : Bytes := mem.takeWhile (· ≠ 0)

theorem copied_strLen (mem : Bytes) : copied mem (strLen mem) = cString mem := by
  have hle : strLen mem ≤ mem.length := (List.takeWhile_prefix _).length_le
  rw [copied, List.take_append_of_le_length hle]
  exact (List.prefix_iff_eq_take.mp (List.takeWhile_prefix _)).symm

theorem cString_nonzero {mem : Bytes} {b : UInt8} (h : b ∈ cString mem) : b ≠ 0 := by
  have hall : (mem.takeWhile (· ≠ 0)).all (· ≠ 0) = true := List.all_takeWhile
  simpa using List.all_eq_true.mp hall b h

/-- A zero byte ends a string. -/
theorem cString_terminated {text : Bytes} (h : ∀ b ∈ text, b ≠ 0) (rest : Bytes) : cString (text ++ 0 :: rest) = text := by
  rw [cString, List.takeWhile_append_of_pos (by simpa using h)]
  simp

theorem strLen_le_of_zero {mem : Bytes} {i : Nat} (h : mem[i]? = some 0) : strLen mem ≤ i := by
  by_contra hlt
  have hmem : 0 ∈ cString mem := by
    rw [cString, List.mem_iff_getElem?]
    refine ⟨i, ?_⟩
    have hprefix := (List.takeWhile_prefix (l := mem) (fun b : UInt8 => decide (b ≠ 0)))
    obtain ⟨rest, hrest⟩ := hprefix
    rw [← hrest, List.getElem?_append_left (by simpa [strLen] using hlt)] at h
    exact h
  exact cString_nonzero hmem rfl

/-! ### REGISTER -/

structure Register.ReadBack (regist : Register) (d : DecodedRegister) : Prop where
  topicId : d.topicId = regist.topicId.toNat
  packetId : d.packetId = regist.packetId.toNat
  topicName : ∃ topicName, regist.topicName = some topicName ∧ d.name = cString topicName

theorem decodeLength_lt {rx : Bytes} {totalLen n : Nat} (h : decodeLength rx = .ok (totalLen, n)) : totalLen < 65536 := by
  unfold decodeLength at h
  split at h
  · cases h
  next b rest =>
  split at h
  · split at h
    · cases h
    next len hnum =>
      cases h
      exact (decodeNum_canonical hnum).1
  · cases h
    have := b.toNat_lt
    omega

/-- The name a decoder hands over ends inside the packet. -/
theorem decodeRegister_name {rx : Bytes} {d : DecodedRegister} (h : decodeRegister rx = .ok d) :
    d.name.length < 65536 := by
  unfold decodeRegister at h
  split at h
  · cases h
  next totalLen n hlength =>
  split at h
  · cases h
  next hroom =>
  split at h
  · cases h
  split at h
  · cases h
  split at h
  · cases h
  split at h
  · cases h
  split at h
  · cases h
  split at h
  · cases h
  next hcovers =>
  cases h
  have hlt := decodeLength_lt hlength
  have hzero : ((rx.set totalLen 0).drop (n + 5))[totalLen - (n + 5)]? = some 0 := by
    rw [List.getElem?_drop, show n + 5 + (totalLen - (n + 5)) = totalLen by omega, List.getElem?_set_self (by omega)]
  have hle := strLen_le_of_zero hzero
  rw [DecodedRegister.name, copied_length]
  show strLen ((rx.set totalLen 0).drop (n + 5)) < 65536
  omega

/-- A REGISTER with a name is read back, given a byte behind it for the end of the name. -/
theorem decodeRegister_read {topicId packetId : UInt16} {name spare : Bytes} {totalLen : Nat}
    (hframed : Framed totalLen (encodeNum topicId.toNat ++ encodeNum packetId.toNat ++ name))
    (hnonempty : name ≠ []) (hnonzero : ∀ b ∈ name, b ≠ 0) (hspare : spare ≠ []) :
    ∃ d, decodeRegister (packetBytes totalLen MsgType.register
        (encodeNum topicId.toNat ++ encodeNum packetId.toNat ++ name) ++ spare) = .ok d ∧
      d.totalLen = totalLen ∧ d.topicId = topicId.toNat ∧ d.packetId = packetId.toNat ∧ d.name = name := by
  obtain ⟨b, rest, rfl⟩ := List.exists_cons_of_ne_nil hspare
  have hlen := hframed.length MsgType.register
  have hcounts := hframed.counts
  have hname : 0 < name.length := List.length_pos_iff.mpr hnonempty
  rw [List.length_append, List.length_append, encodeNum_length, encodeNum_length] at hcounts
  have hfield := lengthField_length totalLen
  have hroom : ¬totalLen ≥ (packetBytes totalLen MsgType.register
      (encodeNum topicId.toNat ++ encodeNum packetId.toNat ++ name) ++ b :: rest).length := by
    rw [List.length_append, hlen, List.length_cons]
    omega
  have hmin : ¬totalLen < 7 := by omega
  have hcovers : ¬totalLen < (lengthField totalLen).length + 5 := by omega
  have hdrop : ∀ tail, (packetBytes totalLen MsgType.register
      (encodeNum topicId.toNat ++ encodeNum packetId.toNat ++ name) ++ tail).drop (lengthField totalLen).length =
      MsgType.register :: (encodeNum topicId.toNat ++ (encodeNum packetId.toNat ++ (name ++ tail))) := by
    intro tail
    rw [packetBytes, List.append_assoc, List.drop_left, List.cons_append, List.append_assoc, List.append_assoc]
  have hset : (packetBytes totalLen MsgType.register (encodeNum topicId.toNat ++ encodeNum packetId.toNat ++ name) ++
      b :: rest).set totalLen 0 = packetBytes totalLen MsgType.register
        (encodeNum topicId.toNat ++ encodeNum packetId.toNat ++ name) ++ 0 :: rest := by
    rw [List.set_append_right _ _ (Nat.le_of_eq hlen), hlen, Nat.sub_self]
    rfl
  have hpointer : (packetBytes totalLen MsgType.register (encodeNum topicId.toNat ++ encodeNum packetId.toNat ++ name) ++
      0 :: rest).drop ((lengthField totalLen).length + 5) = name ++ 0 :: rest := by
    rw [← List.drop_drop, hdrop]
    rfl
  simp only [decodeRegister, hframed.decodeLength_append, if_neg hroom, if_neg hmin, hdrop, ne_eq, not_true, if_false,
    decodeNum_encodeNum topicId.toNat_lt, List.drop_left' (encodeNum_length _), decodeNum_encodeNum packetId.toNat_lt,
    if_neg hcovers, hset]
  refine ⟨_, rfl, rfl, rfl, rfl, ?_⟩
  simp only [DecodedRegister.name, hpointer, copied_strLen]
  exact cString_terminated hnonzero rest

/-- A name whose length is an `int` is copied whole. -/
theorem encodeRegister_read {regist : Register} {topicName : Bytes} (hname : regist.topicName = some topicName)
    (hnonempty : 0 < strLen topicName) (hint : strLen topicName < 2147483648) {txLen : Int}
    (haccepted : 0 ≤ (encodeRegister txLen (some regist)).rc) {spare : Bytes} (hspare : spare ≠ []) :
    ∃ d, decodeRegister ((encodeRegister txLen (some regist)).out ++ spare) = .ok d ∧
      (d.totalLen : Int) = (encodeRegister txLen (some regist)).rc ∧ regist.ReadBack d := by
  have hcast : toInt32 (strLen topicName) = strLen topicName := by
    rw [toInt32, if_pos (by omega)]
    omega
  have htext : copied topicName (toInt32 (strLen topicName)).toNat = cString topicName := by
    rw [hcast, Int.toNat_natCast, copied_strLen]
  have hlen : (cString topicName).length = strLen topicName := rfl
  have hne : cString topicName ≠ [] := by
    rw [← List.length_pos_iff, hlen]
    exact hnonempty
  have hcode : encodeRegister txLen (some regist) = encodeSized txLen MsgType.register (strLen topicName + 6)
      (encodeNum regist.topicId.toNat ++ encodeNum regist.packetId.toNat ++ cString topicName) := by
    simp only [encodeRegister, hname, htext]
    rw [hcast]
  rw [hcode] at haccepted ⊢
  have hsmall : (strLen topicName : Int) + 6 =
      2 + (encodeNum regist.topicId.toNat ++ encodeNum regist.packetId.toNat ++ cString topicName).length := by
    rw [List.length_append, List.length_append, encodeNum_length, encodeNum_length, hlen]
    omega
  obtain ⟨totalLen, hframed, -, hsized⟩ := encodeSized_framed hsmall haccepted
  obtain ⟨d, hdecoded, htotal, htopicId, hpacketId, hd⟩ :=
    decodeRegister_read hframed hne (fun _ hb => cString_nonzero hb) hspare
  refine ⟨d, ?_, ?_, htopicId, hpacketId, topicName, hname, hd⟩
  · rw [hsized]
    exact hdecoded
  · rw [hsized, htotal]

/-- A name whose length is no `int` is not: what is read back ends inside a packet. -/
theorem encodeRegister_cut {regist : Register} {topicName : Bytes} (hname : regist.topicName = some topicName)
    (hint : ¬strLen topicName < 2147483648) {rx : Bytes} {d : DecodedRegister} (hdecoded : decodeRegister rx = .ok d) :
    ¬regist.ReadBack d := by
  intro h
  obtain ⟨name, hsame, hd⟩ := h.topicName
  rw [hname] at hsame
  cases hsame
  have hlt := decodeRegister_name hdecoded
  rw [hd, show (cString topicName).length = strLen topicName from rfl] at hlt
  omega

/-! ### Both -/

/-- A PUBLISH that is encoded is read back, and a REGISTER exactly when the length of its name is an `int`. -/
theorem encode_readBack_iff (host : ByteOrder) (txLen : Int) :
    (∀ p : Publish, p.Sound → 0 ≤ (encodePublish host txLen (some p)).rc →
      ∃ d, decodePublish (encodePublish host txLen (some p)).out = .ok d ∧
        (d.totalLen : Int) = (encodePublish host txLen (some p)).rc ∧ p.ReadBack host d) ∧
    ∀ (regist : Register) (topicName spare : Bytes), regist.topicName = some topicName →
      0 < strLen topicName → 0 ≤ (encodeRegister txLen (some regist)).rc → spare ≠ [] →
      ((∃ d, decodeRegister ((encodeRegister txLen (some regist)).out ++ spare) = .ok d ∧
        (d.totalLen : Int) = (encodeRegister txLen (some regist)).rc ∧ regist.ReadBack d) ↔
        strLen topicName < 2147483648) := by
  refine ⟨fun p h haccepted => decodePublish_encode host h haccepted, ?_⟩
  intro regist topicName spare hname hnonempty haccepted hspare
  constructor
  · rintro ⟨d, hdecoded, -, hread⟩
    by_contra hint
    exact encodeRegister_cut hname hint hdecoded hread
  · intro hint
    exact encodeRegister_read hname hnonempty hint haccepted hspare

/-- A PUBLISH of QoS 1 to topic 258, and a REGISTER of a name of one letter. -/
theorem encode_readBack_iff_sample :
    (∃ d, decodePublish (encodePublish .little 20 (some ⟨7, 1, 0, 1, 0, some [2, 1], 2, some [5, 6]⟩)).out = .ok d ∧
      d.payload = [5, 6] ∧ d.topicName = [1, 2]) ∧
    ∃ d, decodeRegister ((encodeRegister 20 (some ⟨1, 2, some [0x74]⟩)).out ++ [9]) = .ok d ∧ d.name = [0x74] := by
  constructor
  · have hsound : Publish.Sound ⟨7, 1, 0, 1, 0, some [2, 1], 2, some [5, 6]⟩ :=
      ⟨.inl rfl, by decide, fun _ => by decide⟩
    obtain ⟨d, hdecoded, -, hread⟩ := (encode_readBack_iff .little 20).1 _ hsound (by decide)
    obtain ⟨topicName, htopic, hd⟩ := hread.topic
    cases htopic
    exact ⟨d, hdecoded, hread.payload, hd⟩
  · obtain ⟨d, hdecoded, -, hread⟩ :=
      ((encode_readBack_iff .little 20).2 ⟨1, 2, some [0x74]⟩ [0x74] [9] rfl (by decide) (by decide) (by decide)).mpr
        (by decide)
    obtain ⟨topicName, htopic, hd⟩ := hread.topicName
    cases htopic
    exact ⟨d, hdecoded, hd⟩

/-- A name of `2 ^ 32 + 1` bytes goes out as its first one. -/
theorem not_register_readBack : ∃ (regist : Register) (topicName : Bytes), regist.topicName = some topicName ∧
    0 < strLen topicName ∧ 0 ≤ (encodeRegister 7 (some regist)).rc ∧
    ¬∃ d, decodeRegister ((encodeRegister 7 (some regist)).out ++ [0]) = .ok d ∧
      (d.totalLen : Int) = (encodeRegister 7 (some regist)).rc ∧ regist.ReadBack d := by
  obtain ⟨name, hlen⟩ : ∃ name, strLen name = 4294967297 := by
    refine ⟨List.replicate 4294967297 0x61, ?_⟩
    rw [strLen, List.takeWhile_replicate, if_pos (by decide), List.length_replicate]
  refine ⟨⟨1, 2, some name⟩, name, rfl, by omega, ?_, ?_⟩
  · have hcast : toInt32 (strLen name) = 1 := by
      rw [hlen]
      decide
    simp [encodeRegister, hcast, encodeSized, maxSmallSize, maxLen]
  · rintro ⟨d, hdecoded, -, hread⟩
    exact encodeRegister_cut rfl (by omega) hdecoded hread

end WolfMqtt.Sn
