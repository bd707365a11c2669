import WolfMqtt.Packet.Subscribe

/-! How much `MqttEncode_Subscribe` and `MqttEncode_Unsubscribe` write, for topic lists of any length.

The packet is measured in an `int`, one topic after the other, and the sum is held against the limit of a
Remaining Length and against the buffer only when it is complete. A list whose sum has wrapped by then is written
whole all the same. -/
namespace WolfMqtt

/-! ### What is written -/

theorem toInt32_of_le_max {n : Nat} (h : n % 4294967296 ≤ maxRemainLen) : toInt32 n = (n % 4294967296 : Nat) := by
  rw [maxRemainLen] at h
  rw [toInt32, if_pos (by omega)]
  rfl

namespace MqttSubscribe

/-- A request that the encoder has nothing against but its length. -/
structure InOrder (type : PacketType) (check : Nat → MqttTopic → Except Int Unit)
    (options : Nat → MqttTopic → Except Int Bytes) (s : MqttSubscribe) (block : Bytes) : Prop where
  packetId : s.packetId ≠ 0
  topics : s.topics ≠ []
  checked : checkTopics (check s.protocolLevel) s.topics = .ok ()
  block : (if s.protocolLevel ≥ level5 then encodePropBlock type s.props else .ok []) = .ok block
  written : ∀ t ∈ s.topics, ∃ b, options s.protocolLevel t = .ok b

end MqttSubscribe

/-- There is room for a packet of which `n` bytes lie behind the fixed header. -/
def Room (txLen n : Nat) : Prop := HeadersFit txLen n n

theorem writeTopics_of_ok {options : MqttTopic → Except Int Bytes} {ts : List MqttTopic}
    (h : ∀ t ∈ ts, ∃ b, options t = .ok b) : (writeTopics options ts).1 = none := by
  induction ts with
  | nil => rfl
  | cons t ts ih =>
    obtain ⟨⟨b, hb⟩, hts⟩ := List.forall_mem_cons.mp h
    rw [writeTopics, hb]
    exact ih hts

section encoders
variable {type : PacketType} {check : Nat → MqttTopic → Except Int Unit} {options : Nat → MqttTopic → Except Int Bytes}
  {extra txLen : Nat} {s : MqttSubscribe} {block : Bytes}

/-- A request in order whose length, in 32 bits, fits: the return value is that length and the header's, and what is
written is as long as the request. -/
theorem MqttSubscribe.InOrder.encodes (h : s.InOrder type check options block) (hrules : TopicRules check options extra)
    (hfits : Room txLen (s.remainLen extra block % 4294967296)) :
    (encodeTopics type check options extra txLen s).rc =
        (fixedLen (s.remainLen extra block % 4294967296) + s.remainLen extra block % 4294967296 : Nat) ∧
      (encodeTopics type check options extra txLen s).out.length =
        fixedLen (s.remainLen extra block % 4294967296) + s.remainLen extra block := by
  obtain ⟨hmax, hheader, hroom⟩ := hfits
  unfold fixedLen at hroom ⊢
  have htopics : ¬s.topics.isEmpty = true := by simpa using h.topics
  obtain ⟨-, hbytes⟩ := writeTopics_eq (writeTopics_of_ok h.written)
  have hwritten : writeTopics (options s.protocolLevel) s.topics =
      (none, s.topics.flatMap (topicWire (options s.protocolLevel))) := Prod.ext (writeTopics_of_ok h.written) hbytes
  have hdone : encodeFixedHeader txLen (toInt32 (s.remainLen extra block)) type false .qos1 false =
      .done (firstByte type false .qos1 false :: vbiBytes maxLenBytes (s.remainLen extra block % 4294967296)) := by
    rw [toInt32_of_le_max hmax, encodeFixedHeader_of_le hmax, if_neg (not_lt.mpr hheader)]
  rw [encodeTopics, if_neg h.packetId, if_neg htopics, h.checked]
  dsimp only
  rw [h.block]
  dsimp only
  rw [hdone, if_neg (not_done_neg _), toInt32_of_le_max hmax, hwritten,
    if_neg (by rw [Encoded.done, List.length_cons]; omega)]
  dsimp only [Encoded.done]
  constructor
  · rw [List.length_cons]
    omega
  · rw [List.length_append, List.length_append, List.length_append, List.length_cons, encodeNum_length,
      topicsWire_length (hrules.extra s.protocolLevel) h.written, MqttSubscribe.remainLen]
    omega

/-- A request that is written is in order, and its length, in 32 bits, fits. -/
theorem encodeTopics_accepts (hrules : TopicRules check options extra)
    (h : 0 ≤ (encodeTopics type check options extra txLen s).rc) :
    ∃ block, s.InOrder type check options block ∧ Room txLen (s.remainLen extra block % 4294967296) := by
  unfold encodeTopics at h
  split at h
  · exact absurd h (by decide)
  next hid =>
  split at h
  · exact absurd h (by decide)
  next hsome =>
  split at h
  next e he =>
    have hneg : e < 0 := checkTopics_negative (hrules.checkNegative _) s.topics e he
    exact absurd h (by show ¬0 ≤ e; omega)
  next hcheck =>
  split at h
  next e he =>
    have hneg : e < 0 := Agree.only_ite (encodePropBlock_negative type s.props) (Agree.only_ok _) e he
    exact absurd h (by show ¬0 ≤ e; omega)
  next block hblock =>
  dsimp only at h
  split at h
  next hneg => exact absurd h (by omega)
  next hheader =>
  obtain ⟨hmax, hlong, hdone⟩ := (encodeFixedHeader_word _ _ _ _ _).resolve_left hheader
  rw [toInt32_word] at hmax hdone
  rw [hdone, toInt32_of_le_max hmax] at h
  have hcode : ¬0 ≤ Code.outOfBuffer := by decide
  split at h
  · exact absurd h hcode
  next hroom =>
  rw [Encoded.done, List.length_cons] at hroom
  split at h
  next e bytes hwrite =>
    have hneg := writeTopics_negative (hrules.optionsNegative s.protocolLevel) s.topics e (by rw [hwrite]; rfl)
    exact absurd h (by show ¬0 ≤ e; omega)
  next bytes hwrite =>
  obtain ⟨hall, -⟩ := writeTopics_eq (show (writeTopics (options s.protocolLevel) s.topics).1 = none by rw [hwrite])
  exact ⟨block, ⟨hid, by simpa using hsome, hcheck, hblock, hall⟩, hmax, hlong, by rw [fixedLen]; omega⟩

/-- What is to hold of an encoder's result: what it says is what it has written, and that lies in the buffer. -/
def WrittenInside (txLen : Nat) (e : Encoded) : Prop := 0 ≤ e.rc → (e.out.length : Int) = e.rc ∧ e.rc ≤ txLen

/-- A request in order that does not fit 32 bits, what is left of its length there being small enough. -/
def Wraps (type : PacketType) (check : Nat → MqttTopic → Except Int Unit) (options : Nat → MqttTopic → Except Int Bytes)
    (extra txLen : Nat) (s : MqttSubscribe) : Prop :=
  ∃ block, s.InOrder type check options block ∧ 4294967296 ≤ s.remainLen extra block ∧
    Room txLen (s.remainLen extra block % 4294967296)

theorem encodeTopics_writtenInside_iff (hrules : TopicRules check options extra) :
    WrittenInside txLen (encodeTopics type check options extra txLen s) ↔ ¬Wraps type check options extra txLen s := by
  constructor
  · rintro h ⟨block, hs, hlong, hfits⟩
    obtain ⟨hrc, hout⟩ := hs.encodes hrules hfits
    have hsame := (h (by rw [hrc]; omega)).1
    rw [hrc, hout] at hsame
    have hlt : s.remainLen extra block % 4294967296 < 4294967296 := Nat.mod_lt _ (by decide)
    omega
  · intro hwraps h
    obtain ⟨block, hs, hfits⟩ := encodeTopics_accepts hrules h
    obtain ⟨hrc, hout⟩ := hs.encodes hrules hfits
    have hshort : s.remainLen extra block < 4294967296 := not_le.mp fun hlong => hwraps ⟨block, hs, hlong, hfits⟩
    have hroom := hfits.2.2
    rw [Nat.mod_eq_of_lt hshort] at hrc hout hroom
    rw [hrc, hout]
    omega

end encoders

/-- An encoded SUBSCRIBE or UNSUBSCRIBE is as long as the encoder says and lies in the buffer, just when the length
of the request has not wrapped. -/
theorem topics_writtenInside_iff (txLen : Nat) (s : MqttSubscribe) :
    (WrittenInside txLen (encodeSubscribe txLen s) ↔ ¬Wraps .subscribe subscribeCheck subscribeOptions 1 txLen s) ∧
    (WrittenInside txLen (encodeUnsubscribe txLen s) ↔ ¬Wraps .unsubscribe unsubscribeCheck (fun _ => noOptions) 0 txLen s) :=
  ⟨encodeTopics_writtenInside_iff subscribeRules, encodeTopics_writtenInside_iff unsubscribeRules⟩

/-! ### A list that wraps -/

/-- 2^16 times one filter, the measure of each being 2^16. -/
def longTopics (extra : Nat) : MqttSubscribe :=
  { packetId := 1
    topics := List.replicate 65536 {topicFilter := some (List.replicate (65533 - extra + 1) 0x61)}
    protocolLevel := 4 }

theorem topicFilterLoop_replicate (n : Nat) (prev : Option UInt8) : topicFilterLoop prev (List.replicate n 0x61) = true := by
  induction n generalizing prev with
  | zero => rfl
  | succ n ih =>
    rw [List.replicate_succ, topicFilterLoop, if_neg (by decide), if_neg (by decide)]
    exact ih _

theorem utf8WellFormed_replicate (n : Nat) : utf8WellFormed (List.replicate n 0x61) = true := by
  induction n with
  | zero => rfl
  | succ n ih =>
    rw [List.replicate_succ]
    unfold utf8WellFormed
    rw [if_neg (by decide), if_pos (by decide)]
    exact ih

theorem filterCheck_replicate (n : Nat) : filterCheck 4 (List.replicate (n + 1) 0x61) = .ok () := by
  have hlevel : (decide ((4 : Nat) ≥ level5) && topicFilterIsShared (List.replicate (n + 1) 0x61)) = false := rfl
  have hempty : (List.replicate (n + 1) (0x61 : UInt8)).isEmpty = false := rfl
  have hvalid : topicFilterValid (List.replicate (n + 1) 0x61) 4 = true := by
    rw [topicFilterValid, hempty, hlevel]
    exact topicFilterLoop_replicate _ _
  rw [filterCheck, hvalid, utf8WellFormed_replicate]
  rfl

theorem checkTopics_replicate {check : MqttTopic → Except Int Unit} {t : MqttTopic} (h : check t = .ok ()) (n : Nat) :
    checkTopics check (List.replicate n t) = .ok () := by
  induction n with
  | zero => rfl
  | succ n ih =>
    rw [List.replicate_succ, checkTopics, h]
    exact ih

theorem longTopics_inOrder {type : PacketType} {check : Nat → MqttTopic → Except Int Unit}
    {options : Nat → MqttTopic → Except Int Bytes} {extra : Nat} {b : Bytes}
    (hcheck : ∀ t ∈ (longTopics extra).topics, check 4 t = .ok ()) (hoptions : ∀ t ∈ (longTopics extra).topics, options 4 t = .ok b) :
    (longTopics extra).InOrder type check options [] where
  packetId := Nat.one_ne_zero
  topics := by
    show List.replicate (65535 + 1) _ ≠ []
    rw [List.replicate_succ]
    exact List.cons_ne_nil _ _
  checked := checkTopics_replicate (hcheck _ (List.mem_replicate.mpr ⟨by decide, rfl⟩)) _
  block := rfl
  written t ht := ⟨b, hoptions t ht⟩

theorem longTopics_remainLen {extra : Nat} (h : extra ≤ 1) : (longTopics extra).remainLen extra [] = 4294967296 + 2 := by
  rw [MqttSubscribe.remainLen, longTopics]
  dsimp only
  rw [List.map_replicate, List.sum_replicate, MqttTopic.filter, Option.getD_some, List.length_replicate, List.length_nil,
    smul_eq_mul]
  omega

/-- Both encoders say that they have written four bytes, and have written 2^32 more. -/
theorem not_topics_writtenInside :
    ((encodeSubscribe 5 (longTopics 1)).rc = 4 ∧ (encodeSubscribe 5 (longTopics 1)).out.length = 4294967300) ∧
    (encodeUnsubscribe 5 (longTopics 0)).rc = 4 ∧ (encodeUnsubscribe 5 (longTopics 0)).out.length = 4294967300 := by
  have hfits (extra : Nat) (h : extra ≤ 1) : Room 5 ((longTopics extra).remainLen extra [] % 4294967296) := by
    rw [longTopics_remainLen h]
    exact ⟨by decide, by decide, by decide⟩
  have hsubscribe : (longTopics 1).InOrder .subscribe subscribeCheck subscribeOptions [] :=
    longTopics_inOrder (b := [0]) (fun t ht => by
        rw [List.eq_of_mem_replicate ht, subscribeCheck]
        dsimp only
        rw [List.length_replicate, if_neg (by decide), if_neg (by decide)]
        exact filterCheck_replicate _)
      fun t ht => by
        rw [List.eq_of_mem_replicate ht]
        rfl
  have hunsubscribe : (longTopics 0).InOrder .unsubscribe unsubscribeCheck (fun _ => noOptions) [] :=
    longTopics_inOrder (b := []) (fun t ht => by
        rw [List.eq_of_mem_replicate ht, unsubscribeCheck]
        dsimp only
        rw [List.length_replicate, if_neg (by decide)]
        exact filterCheck_replicate _)
      fun t ht => rfl
  have hs := hsubscribe.encodes subscribeRules (hfits 1 (by decide))
  have hu := hunsubscribe.encodes unsubscribeRules (hfits 0 (by decide))
  rw [longTopics_remainLen (by decide)] at hs hu
  exact ⟨hs, hu⟩

end WolfMqtt
