import WolfMqtt.Sn.Header

/-! The messages a client can ask for, and the header each leaves on the wire. -/
namespace WolfMqtt.Sn

/-- A call of one of the encoders. -/
inductive Message
  | searchGw (hops : UInt8)
  | connect (c : Option Connect)
  | willTopic (will : Option Will)
  | willMsg (will : Option Will)
  | willTopicUpdate (will : Option Will)
  | willMsgUpdate (will : Option Will)
  | register (regist : Option Register)
  | regAck (regack : Option RegAck)
  | subscribe (request : Option Subscribe)
  | publish (message : Option Publish)
  | publishResp (type : UInt8) (resp : Option PublishResp)
  | unsubscribe (request : Option Subscribe)
  | disconnect (message : Option Disconnect)
  | ping (message : Option PingReq) (type : UInt8)

namespace Message

def encode (host : ByteOrder) (txLen : Int) : Message → Encoded
  | searchGw hops => encodeSearchGw txLen hops
  | connect c => encodeConnect txLen c
  | willTopic will => encodeWillTopic txLen will
  | willMsg will => encodeWillMsg txLen will
  | willTopicUpdate will => encodeWillTopicUpdate txLen will
  | willMsgUpdate will => encodeWillMsgUpdate txLen will
  | register regist => encodeRegister txLen regist
  | regAck regack => encodeRegAck txLen regack
  | subscribe request => encodeSubscribe txLen request
  | publish message => encodePublish host txLen message
  | publishResp type resp => encodePublishResp txLen type resp
  | unsubscribe request => encodeUnsubscribe txLen request
  | disconnect message => encodeDisconnect txLen message
  | ping message type => encodePing txLen message type

def type : Message → UInt8
  | searchGw _ => MsgType.searchGw
  | connect _ => MsgType.connect
  | willTopic _ => MsgType.willTopic
  | willMsg _ => MsgType.willMsg
  | willTopicUpdate _ => MsgType.willTopicUpd
  | willMsgUpdate _ => MsgType.willMsgUpd
  | register _ => MsgType.register
  | regAck _ => MsgType.regAck
  | subscribe _ => MsgType.subscribe
  | publish _ => MsgType.publish
  | publishResp type _ => type
  | unsubscribe _ => MsgType.unsubscribe
  | disconnect _ => MsgType.disconnect
  | ping _ type => type

/-- The message id that the header is to say: of a REGACK, a PUBACK, a PUBREC, a PUBREL and a PUBCOMP. -/
def msgId : Message → Option Nat
  | regAck (some regack) => some regack.packetId.toNat
  | publishResp type (some resp) =>
    if type = MsgType.pubAck ∨ type = MsgType.pubRec ∨ type = MsgType.pubRel ∨ type = MsgType.pubComp then
      some resp.packetId.toNat
    else none
  | _ => none

/-- The strings and the payload of a message. -/
def texts : Message → List Bytes
  | connect (some c) => c.clientId.toList
  | willTopic (some will) | willTopicUpdate (some will) => will.willTopic.toList
  | willMsg (some will) | willMsgUpdate (some will) => will.willMsg.toList
  | register (some regist) => regist.topicName.toList
  | subscribe (some request) | unsubscribe (some request) => request.topicNameId.toList
  | publish (some message) => message.topicName.toList ++ message.buffer.toList
  | ping (some message) _ => message.clientId.toList
  | _ => []

/-- Every string is below `2 ^ 30` bytes. -/
def Sized (m : Message) : Prop := ∀ text ∈ m.texts, strLen text < 1073741824

end Message

/-! ### One encoder after the other -/

theorem toInt32_of_lt {n : Nat} (h : n < 1073741824) : toInt32 n = n := by
  have hmod : n % 4294967296 = n := Nat.mod_eq_of_lt (by omega)
  have hlow : n % 4294967296 < 2147483648 := by omega
  rw [toInt32, if_pos hlow]
  omega

/-- A type that carries no message id leaves the header's at 0. -/
theorem decodeId_none {type : UInt8} (h : idOffset type = none) (rest : Bytes) (avail : Nat) :
    decodeId type rest avail = .ok 0 := by
  rw [decodeId, h]

theorem decodeId_some {type : UInt8} {offset : Nat} (h : idOffset type = some offset) {front : Bytes}
    (hfront : front.length = offset) (id : UInt16) (back : Bytes) :
    decodeId type (front ++ encodeNum id.toNat ++ back) (front ++ encodeNum id.toNat ++ back).length = .ok id.toNat := by
  have hlen : ((front ++ encodeNum id.toNat ++ back).length : Int) - offset = ((2 + back.length : Nat) : Int) := by
    rw [List.length_append, List.length_append, encodeNum_length, hfront]
    omega
  have hroom : ¬((2 + back.length : Nat) : Int) < 2 := by omega
  have hdrop : (front ++ encodeNum id.toNat ++ back).drop offset = encodeNum id.toNat ++ back := by
    rw [List.append_assoc, List.drop_left' hfront]
  have htake : (encodeNum id.toNat ++ back).take (2 + back.length) = encodeNum id.toNat ++ back := by
    refine List.take_of_length_le ?_
    rw [List.length_append, encodeNum_length]
  simp only [decodeId, h, hlen, if_neg hroom, hdrop, Int.toNat_natCast, htake]
  exact decodeNum_encodeNum id.toNat_lt _

section
variable {txLen : Int}

/-- A message without an id, of whatever length. -/
theorem encodeSized_plain {type : UInt8} (htype : idOffset type = none) {small : Int} {rest : Bytes}
    (hlen : small = 2 + rest.length) : Sent txLen type none (encodeSized txLen type small rest) := by
  refine encodeSized_sent hlen (decodeId_none htype _ _) ?_
  intro j hj
  cases hj

/-- A short message without an id. -/
theorem encodeFixed_plain {type : UInt8} (htype : idOffset type = none) {totalLen : Int} {rest : Bytes}
    (hlen : totalLen = 2 + rest.length) (hshort : rest.length ≤ 253) :
    Sent txLen type none (encodeFixed txLen type totalLen rest) := by
  refine encodeFixed_sent hlen hshort (decodeId_none htype _ _) ?_
  intro j hj
  cases hj

theorem encodeSearchGw_sent (hops : UInt8) : Sent txLen MsgType.searchGw none (encodeSearchGw txLen hops) := by
  have hfixed : Sent txLen MsgType.searchGw none (encodeFixed txLen MsgType.searchGw 3 [hops]) :=
    encodeFixed_plain (by decide) rfl (by simp)
  unfold encodeSearchGw
  split
  · exact Sent.fail (by decide)
  next h =>
  rw [encodeFixed, if_neg (by omega)] at hfixed
  exact hfixed

theorem encodeConnect_sent (c : Option Connect) : Sent txLen MsgType.connect none (encodeConnect txLen c) := by
  unfold encodeConnect
  split
  · exact Sent.fail (by decide)
  split
  · exact Sent.fail (by decide)
  split
  · exact Sent.fail (by decide)
  next clientId _ _ =>
  have hid : (if strLen clientId ≤ clientIdMaxLen then strLen clientId else clientIdMaxLen) ≤ 23 := by
    split
    · assumption
    · exact Nat.le_refl _
  refine encodeFixed_plain (by decide) ?_ ?_
  · rw [List.length_append, List.length_cons, List.length_cons, encodeNum_length, copied_length]
    omega
  · rw [List.length_append, List.length_cons, List.length_cons, encodeNum_length, copied_length]
    omega

theorem encodeWillTopicAs_sent {type : UInt8} (htype : idOffset type = none) (will : Option Will)
    (h : ∀ w, will = some w → ∀ topic, w.willTopic = some topic → strLen topic < 1073741824) :
    Sent txLen type none (encodeWillTopicAs type txLen will) := by
  unfold encodeWillTopicAs
  split
  · exact encodeSized_plain htype rfl
  next will =>
  split
  · exact Sent.fail (by decide)
  next topic htopic =>
  refine encodeSized_plain htype ?_
  rw [List.length_cons, copied_length, toInt32_of_lt (h will rfl topic htopic)]
  omega

theorem encodeWillMsgAs_sent {type : UInt8} (htype : idOffset type = none) (will : Option Will) :
    Sent txLen type none (encodeWillMsgAs type txLen will) := by
  unfold encodeWillMsgAs
  split
  · exact Sent.fail (by decide)
  split
  · exact Sent.fail (by decide)
  refine encodeSized_plain htype ?_
  rw [copied_length]

theorem encodeRegister_sent (regist : Option Register)
    (h : ∀ r, regist = some r → ∀ name, r.topicName = some name → strLen name < 1073741824) :
    Sent txLen MsgType.register none (encodeRegister txLen regist) := by
  unfold encodeRegister
  split
  · exact Sent.fail (by decide)
  next regist =>
  split
  · exact Sent.fail (by decide)
  next name hname =>
  refine encodeSized_plain (by decide) ?_
  rw [List.length_append, List.length_append, encodeNum_length, encodeNum_length, copied_length,
    toInt32_of_lt (h regist rfl name hname)]
  omega

theorem encodeRegAck_sent (regack : Option RegAck) :
    Sent txLen MsgType.regAck (Message.regAck regack).msgId (encodeRegAck txLen regack) := by
  unfold encodeRegAck
  cases regack with
  | none => exact Sent.fail (by decide)
  | some regack =>
    refine encodeFixed_sent rfl (by simp) (decodeId_some (by decide) (encodeNum_length _) _ _) ?_
    intro j hj
    exact Option.some.inj hj

theorem encodeSubscribeAs_sent {type : UInt8} (htype : idOffset type = none) (subscribe : Option Subscribe)
    (h : ∀ s, subscribe = some s → ∀ name, s.topicNameId = some name → strLen name < 1073741824) :
    Sent txLen type none (encodeSubscribeAs type txLen subscribe) := by
  unfold encodeSubscribeAs
  split
  · exact Sent.fail (by decide)
  next subscribe =>
  split
  · exact Sent.fail (by decide)
  next name hname =>
  refine encodeSized_plain htype ?_
  rw [List.length_append, List.length_cons, encodeNum_length, copied_length, toInt32_of_lt (h subscribe rfl name hname)]
  split <;> omega

theorem encodePublishResp_sent {type : UInt8} (hack : type ≠ MsgType.regAck) (hsub : type ≠ MsgType.subAck)
    (resp : Option PublishResp) :
    Sent txLen type (Message.publishResp type resp).msgId (encodePublishResp txLen type resp) := by
  unfold encodePublishResp
  cases resp with
  | none => exact Sent.fail (by decide)
  | some resp =>
    by_cases hpuback : type = MsgType.pubAck
    · simp only [if_pos hpuback]
      refine encodeFixed_sent rfl (by simp) (decodeId_some (by rw [hpuback]; decide) (encodeNum_length _) _ _) ?_
      intro j hj
      simpa [Message.msgId, hpuback] using hj
    · simp only [if_neg hpuback]
      by_cases hoff : idOffset type = some 0
      · refine encodeFixed_sent rfl (by simp) (decodeId_some hoff (by rfl) _ _) ?_
        intro j hj
        simp only [Message.msgId] at hj
        split at hj
        · exact Option.some.inj hj
        · cases hj
      · have hnone : idOffset type = none := by
          unfold idOffset at hoff ⊢
          simp only [hack, hpuback, hsub, or_self, if_false] at hoff ⊢
          split at hoff
          · exact absurd rfl hoff
          next h => rw [if_neg h]
        refine encodeFixed_sent rfl (by simp) (decodeId_none hnone _ _) ?_
        intro j hj
        simp only [Message.msgId] at hj
        split at hj
        next hcarries =>
          rcases hcarries with rfl | rfl | rfl | rfl <;> exact absurd hnone (by decide)
        · cases hj

theorem encodeDisconnect_sent (disconnect : Option Disconnect) :
    Sent txLen MsgType.disconnect none (encodeDisconnect txLen disconnect) := by
  unfold encodeDisconnect
  split
  · exact encodeFixed_plain (by decide) rfl (by decide)
  split
  · exact encodeFixed_plain (by decide) rfl (by simp)
  · exact encodeFixed_plain (by decide) rfl (by decide)

theorem encodePing_sent (ping : Option PingReq) (type : UInt8)
    (h : ∀ p, ping = some p → ∀ clientId, p.clientId = some clientId → strLen clientId < 1073741824) :
    Sent txLen type none (encodePing txLen ping type) := by
  unfold encodePing
  split
  · exact Sent.fail (by decide)
  next htype =>
  have hnone : idOffset type = none := by
    rw [not_and_or, not_not, not_not] at htype
    rcases htype with rfl | rfl <;> decide
  split
  · exact encodeFixed_plain hnone rfl (by decide)
  next clientId hclient =>
  have hlt : strLen clientId < 1073741824 := by
    cases ping with
    | none => cases hclient
    | some p => exact h p rfl clientId hclient
  have hmax : clientIdMaxLen = 23 := rfl
  have hlen : 0 ≤ pingIdLen type clientId ∧ pingIdLen type clientId ≤ 23 := by
    rw [pingIdLen, toInt32_of_lt hlt]
    split
    · split <;> omega
    · omega
  refine encodeFixed_plain hnone ?_ ?_
  · rw [copied_length]
    omega
  · rw [copied_length]
    omega

/-- What follows the message type of a PUBLISH. -/
def Publish.rest (host : ByteOrder) (p : Publish) (topicName : Bytes) : Bytes :=
  p.flags :: (encodeTopic host p.topicType topicName ++ (encodeNum p.packetId.toNat ++
    copied (p.buffer.getD []) p.totalLen.toNat))

theorem encodeTopic_length (host : ByteOrder) (topicType : UInt8) (topicName : Bytes) :
    (encodeTopic host topicType topicName).length = 2 := by
  unfold encodeTopic
  split
  · exact copied_length _ _
  · exact encodeNum_length _

theorem Publish.rest_length (host : ByteOrder) (p : Publish) (topicName : Bytes) :
    (p.rest host topicName).length = 5 + p.totalLen.toNat := by
  rw [Publish.rest, List.length_cons, List.length_append, List.length_append, encodeTopic_length, encodeNum_length,
    copied_length]
  omega

/-- A PUBLISH that is encoded has a topic, and a length that fits the buffer. -/
theorem encodePublish_cases (host : ByteOrder) (p : Publish) :
    (encodePublish host txLen (some p)).rc < 0 ∨
    ∃ topicName totalLen, p.topicName = some topicName ∧ Framed totalLen (p.rest host topicName) ∧
      (totalLen : Int) ≤ txLen ∧
      encodePublish host txLen (some p) = ⟨totalLen, packetBytes totalLen MsgType.publish (p.rest host topicName)⟩ := by
  have hfits : maxLen = 65535 := rfl
  have hmax : maxSmallSize = 255 := rfl
  unfold encodePublish
  by_cases hneg : txLen < 0
  · exact .inl (by simp only [if_pos hneg]; decide)
  by_cases hlong : (p.totalLen.toNat : Int) > maxLen - 9
  · exact .inl (by simp only [if_neg hneg, if_pos hlong]; decide)
  obtain ⟨totalLen, htotal, hframed⟩ : ∃ totalLen : Nat,
      (if (p.totalLen.toNat : Int) + 7 > maxSmallSize then (p.totalLen.toNat : Int) + 7 + 2
        else p.totalLen.toNat + 7) = totalLen ∧ ∀ topicName, Framed totalLen (p.rest host topicName) := by
    have hlen := Publish.rest_length host p
    by_cases hlarge : (p.totalLen.toNat : Int) + 7 > maxSmallSize
    · refine ⟨p.totalLen.toNat + 9, by rw [if_pos hlarge]; omega, fun topicName => ?_⟩
      have := @Framed.long (p.rest host topicName) (by rw [hlen]; omega) (by rw [hlen]; omega)
      rwa [hlen, show 4 + (5 + p.totalLen.toNat) = p.totalLen.toNat + 9 by omega] at this
    · refine ⟨p.totalLen.toNat + 7, by rw [if_neg hlarge]; omega, fun topicName => ?_⟩
      have := @Framed.short (p.rest host topicName) (by rw [hlen]; omega)
      rwa [hlen, show 2 + (5 + p.totalLen.toNat) = p.totalLen.toNat + 7 by omega] at this
  simp only [if_neg hneg, if_neg hlong, htotal]
  by_cases hroom : (totalLen : Int) > maxLen ∨ (totalLen : Int) > txLen
  · exact .inl (by simp only [if_pos hroom]; decide)
  rw [not_or] at hroom
  rw [if_neg (by rw [not_or]; exact hroom)]
  cases htopic : p.topicName with
  | none => exact .inl (show Code.badArg < 0 by decide)
  | some topicName =>
    dsimp only
    split
    · exact .inl (show Code.badArg < 0 by decide)
    · refine .inr ⟨topicName, totalLen, rfl, hframed topicName, by omega, ?_⟩
      simp only [packetBytes, Publish.rest, List.append_assoc, List.cons_append, List.nil_append]

theorem encodePublish_sent (host : ByteOrder) (message : Option Publish) :
    Sent txLen MsgType.publish none (encodePublish host txLen message) := by
  cases message with
  | none => exact Sent.fail (by decide)
  | some p =>
    rcases encodePublish_cases host p with hneg | ⟨topicName, totalLen, -, hframed, htx, hcode⟩
    · exact Sent.of_neg hneg
    · rw [hcode]
      refine Sent.of_framed hframed htx (decodeId_none (by decide) _ _) ?_
      intro j hj
      cases hj

/-! ### All of them -/

/-- The codes of PUBLISH responses: any type but two, whose message id would stand behind their four bytes. -/
def Message.Answers : Message → Prop
  | publishResp type _ => type ≠ MsgType.regAck ∧ type ≠ MsgType.subAck
  | _ => True

/-- Whatever is encoded can be told by its header: its length, its type and the id it answers. -/
theorem Message.encode_sent (host : ByteOrder) (m : Message) (hsized : m.Sized) (hanswers : m.Answers) :
    Sent txLen m.type m.msgId (m.encode host txLen) := by
  have hwill : ∀ will : Option Will, (∀ text ∈ (Message.willTopic will).texts, strLen text < 1073741824) →
      ∀ w, will = some w → ∀ topic, w.willTopic = some topic → strLen topic < 1073741824 := by
    intro will h w hw topic htopic
    subst hw
    exact h topic (by simp [texts, htopic])
  have hsub : ∀ request : Option Subscribe, (∀ text ∈ (Message.subscribe request).texts, strLen text < 1073741824) →
      ∀ r, request = some r → ∀ name, r.topicNameId = some name → strLen name < 1073741824 := by
    intro request h r hr name hname
    subst hr
    exact h name (by simp [texts, hname])
  have htopic : idOffset MsgType.willTopic = none := by decide
  have htopicUpd : idOffset MsgType.willTopicUpd = none := by decide
  have hsubscribe : idOffset MsgType.subscribe = none := by decide
  have hunsubscribe : idOffset MsgType.unsubscribe = none := by decide
  cases m with
  | searchGw hops => exact encodeSearchGw_sent hops
  | connect c => exact encodeConnect_sent c
  | willTopic will => exact encodeWillTopicAs_sent htopic will (hwill will hsized)
  | willMsg will => exact encodeWillMsgAs_sent (show idOffset MsgType.willMsg = none by decide) will
  | willTopicUpdate will => exact encodeWillTopicAs_sent htopicUpd will (hwill will (by cases will <;> exact hsized))
  | willMsgUpdate will => exact encodeWillMsgAs_sent (show idOffset MsgType.willMsgUpd = none by decide) will
  | register regist =>
    refine encodeRegister_sent regist ?_
    intro r hr name hname
    subst hr
    exact hsized name (by simp [texts, hname])
  | regAck regack => exact encodeRegAck_sent regack
  | subscribe request => exact encodeSubscribeAs_sent hsubscribe request (hsub request hsized)
  | publish message => exact encodePublish_sent host message
  | publishResp type resp => exact encodePublishResp_sent hanswers.1 hanswers.2 resp
  | unsubscribe request =>
    exact encodeSubscribeAs_sent hunsubscribe request (hsub request (by cases request <;> exact hsized))
  | disconnect message => exact encodeDisconnect_sent message
  | ping message type =>
    refine encodePing_sent message type ?_
    intro p hp clientId hclient
    subst hp
    exact hsized clientId (by simp [texts, hclient])

/-- A REGISTER whose name takes it past 255 bytes. -/
theorem Message.encode_sent_longName :
    ∃ h, decodeHeader ((register (some ⟨1, 2, some (List.replicate 250 0x61)⟩)).encode .little 300).out = .ok h ∧
      (h.totalLen : Int) = ((register (some ⟨1, 2, some (List.replicate 250 0x61)⟩)).encode .little 300).rc ∧
      h.type = MsgType.register := by
  have hsized : (register (some ⟨1, 2, some (List.replicate 250 0x61)⟩)).Sized := by
    intro text htext
    obtain rfl := List.mem_singleton.mp htext
    decide +kernel
  have hsent : Sent 300 _ _ _ := encode_sent .little _ hsized trivial
  obtain ⟨-, -, h, hdecoded, hlen, htype, -⟩ := hsent (by decide +kernel)
  exact ⟨h, hdecoded, hlen, htype⟩

/-- A REGACK made by the encoder of PUBLISH responses stops short of its message id. -/
theorem Message.not_encode_sent : ∃ m : Message, m.Sized ∧ 0 ≤ (m.encode .little 7).rc ∧
    ¬Sent 7 m.type m.msgId (m.encode .little 7) := by
  refine ⟨publishResp MsgType.regAck (some ⟨1, 2, 0⟩), ?_, by decide, ?_⟩
  · intro text htext
    cases htext
  · intro h
    obtain ⟨-, -, header, hdecoded, -⟩ := h (by decide)
    have hrefused : decodeHeader ((publishResp MsgType.regAck (some ⟨1, 2, 0⟩)).encode .little 7).out =
        .error Code.badArg := by rfl
    rw [hrefused] at hdecoded
    cases hdecoded

end

end WolfMqtt.Sn
