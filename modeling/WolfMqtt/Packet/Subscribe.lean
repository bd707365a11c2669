import WolfMqtt.Packet.RespRoundTrip

/-! SUBSCRIBE and UNSUBSCRIBE, and that they are read as they were written.

The encoders measure and check the topics in one loop and write them in another; the options of a
subscription are checked only in the second. The decoders do all of it topic by topic. -/
namespace WolfMqtt

open Agree (Only only_error only_ite only_ok)
open Layout (At at_append)

/-! ### The encoders -/

structure MqttTopic where
  /-- None for NULL. -/
  topicFilter : Option Bytes
  qos : Nat := 0
  subOptions : UInt8 := 0
deriving Repr, DecidableEq

/-- `MqttSubscribe` and `MqttUnsubscribe` -/
structure MqttSubscribe where
  packetId : Nat
  topics : List MqttTopic
  protocolLevel : Nat
  props : List MqttProp := []
deriving Repr, DecidableEq

namespace MqttTopic

def filter (t : MqttTopic) : Bytes := t.topicFilter.getD []

end MqttTopic

/-- What both encoders ask of a filter. -/
def filterCheck (level : Nat) (filter : Bytes) : Except Int Unit :=
  if !topicFilterValid filter level then .error Code.malformedData
  else if !utf8WellFormed filter then .error Code.malformedData
  else .ok ()

/-- One turn of the first loop of `MqttEncode_Subscribe`. -/
def subscribeCheck (level : Nat) (t : MqttTopic) : Except Int Unit :=
  match t.topicFilter with
  | some filter =>
    if filter.length > 0xFFFF then .error Code.badArg
    else if t.qos > 2 then .error Code.badArg
    else filterCheck level filter
  | none => .error Code.badArg

/-- One turn of the first loop of `MqttEncode_Unsubscribe`. -/
def unsubscribeCheck (level : Nat) (t : MqttTopic) : Except Int Unit :=
  match t.topicFilter with
  | some filter => if filter.length > 0xFFFF then .error Code.badArg else filterCheck level filter
  | none => .error Code.badArg

/-- The first loop. -/
def checkTopics (check : MqttTopic → Except Int Unit) : List MqttTopic → Except Int Unit
  | [] => .ok ()
  | t :: ts =>
    match check t with
    | .error e => .error e
    | .ok () => checkTopics check ts

/-- The options that `MqttEncode_Subscribe` writes behind a filter. -/
def subscribeOptions (level : Nat) (t : MqttTopic) : Except Int Bytes :=
  if level ≥ level5 then
    if t.subOptions &&& 0xC3 ≠ 0 || t.subOptions >>> 4 &&& 0x03 = 0x03 then .error Code.malformedData
    else if t.subOptions &&& 0x04 ≠ 0 && topicFilterIsShared t.filter then .error Code.malformedData
    else .ok [UInt8.ofNat t.qos ||| (t.subOptions &&& 0x3C)]
  else .ok [UInt8.ofNat t.qos]

/-- `MqttEncode_Unsubscribe` writes nothing behind a filter. -/
def noOptions (_ : MqttTopic) : Except Int Bytes := .ok []

/-- The second loop: the error it ends with, if any, and what it has written. -/
def writeTopics (options : MqttTopic → Except Int Bytes) : List MqttTopic → Option Int × Bytes
  | [] => (none, [])
  | t :: ts =>
    match options t with
    | .error e => (some e, encodeData t.filter)
    | .ok b =>
      let rest := writeTopics options ts
      (rest.1, encodeData t.filter ++ b ++ rest.2)

/-- What `remain_len` is to hold: the bytes behind the fixed header, `extra` of them behind each filter. -/
def MqttSubscribe.remainLen (extra : Nat) (s : MqttSubscribe) (block : Bytes) : Nat :=
  2 + (s.topics.map fun t => 2 + t.filter.length + extra).sum + block.length

/-- What the two encoders share: all but how a topic is checked and written. -/
def encodeTopics (type : PacketType) (check : Nat → MqttTopic → Except Int Unit)
    (options : Nat → MqttTopic → Except Int Bytes) (extra txLen : Nat) (s : MqttSubscribe) : Encoded :=
  if s.packetId = 0 then .fail Code.packetId
  else if s.topics.isEmpty then .fail Code.badArg
  else
    match checkTopics (check s.protocolLevel) s.topics with
    | .error e => .fail e
    | .ok () =>
      match if s.protocolLevel ≥ level5 then encodePropBlock type s.props else .ok [] with
      | .error e => .fail e
      | .ok block =>
        -- the sum is kept in an `int`, and nothing is asked of it before it is complete
        let remainLen := toInt32 (s.remainLen extra block)
        let header := encodeFixedHeader txLen remainLen type false .qos1 false
        if header.rc < 0 then header
        else if (txLen : Int) < header.out.length + remainLen then ⟨Code.outOfBuffer, header.out⟩
        else
          let front := header.out ++ (encodeNum s.packetId ++ block)
          match writeTopics (options s.protocolLevel) s.topics with
          | (some e, bytes) => ⟨e, front ++ bytes⟩
          | (none, bytes) => ⟨header.out.length + remainLen, front ++ bytes⟩

/-- `MqttEncode_Subscribe` -/
def encodeSubscribe (txLen : Nat) (s : MqttSubscribe) : Encoded :=
  encodeTopics .subscribe subscribeCheck subscribeOptions 1 txLen s

/-- `MqttEncode_Unsubscribe` -/
def encodeUnsubscribe (txLen : Nat) (s : MqttSubscribe) : Encoded :=
  encodeTopics .unsubscribe unsubscribeCheck (fun _ => noOptions) 0 txLen s

/-! ### What they write -/

/-- The values the members' C types can hold. -/
structure MqttSubscribe.Typed (s : MqttSubscribe) : Prop where
  packetId : s.packetId < 65536
  props : ∀ p ∈ s.props, p.Typed

def topicWire (options : MqttTopic → Except Int Bytes) (t : MqttTopic) : Bytes :=
  encodeData t.filter ++ (options t).toOption.getD []

namespace MqttSubscribe

def propsPart (s : MqttSubscribe) : Bytes := if s.protocolLevel ≥ level5 then propSection s.props else []

def body (options : Nat → MqttTopic → Except Int Bytes) (s : MqttSubscribe) : Bytes :=
  encodeNum s.packetId ++ (s.propsPart ++ s.topics.flatMap (topicWire (options s.protocolLevel)))

end MqttSubscribe

theorem filterCheck_ok {level : Nat} {filter : Bytes} (h : filterCheck level filter = .ok ()) :
    topicFilterValid filter level = true ∧ utf8WellFormed filter = true := by
  unfold filterCheck at h
  split at h
  · cases h
  next hvalid =>
  split at h
  · cases h
  next hutf => exact ⟨by simpa using hvalid, by simpa using hutf⟩

theorem unsubscribeCheck_ok {level : Nat} {t : MqttTopic} (h : unsubscribeCheck level t = .ok ()) :
    StringOk t.filter ∧ topicFilterValid t.filter level = true := by
  unfold unsubscribeCheck at h
  split at h
  next filter hfilter =>
    split at h
    · cases h
    next hlen =>
    obtain ⟨hvalid, hutf⟩ := filterCheck_ok h
    rw [MqttTopic.filter, hfilter]
    dsimp only [Option.getD_some]
    exact ⟨⟨by omega, hutf⟩, hvalid⟩
  next => cases h

theorem subscribeCheck_ok {level : Nat} {t : MqttTopic} (h : subscribeCheck level t = .ok ()) :
    StringOk t.filter ∧ topicFilterValid t.filter level = true ∧ t.qos ≤ 2 := by
  unfold subscribeCheck at h
  split at h
  next filter hfilter =>
    split at h
    · cases h
    next hlen =>
    split at h
    · cases h
    next hqos =>
    obtain ⟨hvalid, hutf⟩ := filterCheck_ok h
    rw [MqttTopic.filter, hfilter]
    dsimp only [Option.getD_some]
    exact ⟨⟨by omega, hutf⟩, hvalid, by omega⟩
  next => cases h

theorem checkTopics_ok {check : MqttTopic → Except Int Unit} {ts : List MqttTopic} (h : checkTopics check ts = .ok ()) :
    ∀ t ∈ ts, check t = .ok () := by
  induction ts with
  | nil => simp
  | cons t ts ih =>
    unfold checkTopics at h
    split at h
    · cases h
    next ht => exact List.forall_mem_cons.mpr ⟨ht, ih h⟩

theorem checkTopics_negative {check : MqttTopic → Except Int Unit} (hcheck : ∀ t, Only (· < 0) (check t))
    (ts : List MqttTopic) : Only (· < 0) (checkTopics check ts) := by
  induction ts with
  | nil => exact only_ok _
  | cons t ts ih =>
    intro e he
    unfold checkTopics at he
    split at he
    next e' he' =>
      cases he
      exact hcheck t _ he'
    · exact ih e he

theorem writeTopics_eq {options : MqttTopic → Except Int Bytes} {ts : List MqttTopic}
    (h : (writeTopics options ts).1 = none) :
    (∀ t ∈ ts, ∃ b, options t = .ok b) ∧ (writeTopics options ts).2 = ts.flatMap (topicWire options) := by
  induction ts with
  | nil => exact ⟨by simp, rfl⟩
  | cons t ts ih =>
    unfold writeTopics at h ⊢
    split at h
    · cases h
    next b hb =>
    obtain ⟨hall, hbytes⟩ := ih h
    refine ⟨List.forall_mem_cons.mpr ⟨⟨b, hb⟩, hall⟩, ?_⟩
    rw [List.flatMap_cons, ← hbytes, topicWire, hb]
    rfl

theorem writeTopics_negative {options : MqttTopic → Except Int Bytes} (hoptions : ∀ t, Only (· < 0) (options t))
    (ts : List MqttTopic) : ∀ e ∈ (writeTopics options ts).1, e < 0 := by
  induction ts with
  | nil => simp [writeTopics]
  | cons t ts ih =>
    intro e he
    unfold writeTopics at he
    split at he
    next e' he' =>
      cases he
      exact hoptions t _ he'
    · exact ih e he

/-- Topics whose options take `extra` bytes each are as long as was measured. -/
theorem topicsWire_length {options : MqttTopic → Except Int Bytes} {extra : Nat} {ts : List MqttTopic}
    (hextra : ∀ t b, options t = .ok b → b.length = extra) (h : ∀ t ∈ ts, ∃ b, options t = .ok b) :
    (ts.flatMap (topicWire options)).length = (ts.map fun t => 2 + t.filter.length + extra).sum := by
  rw [List.length_flatMap]
  refine congrArg List.sum (List.map_congr_left fun t ht => ?_)
  obtain ⟨b, hb⟩ := h t ht
  have hlen := hextra t b hb
  rw [topicWire, hb, List.length_append, encodeData_length]
  exact congrArg _ hlen

/-- What the encoders have to do with, and what they may return. -/
structure TopicRules (check : Nat → MqttTopic → Except Int Unit) (options : Nat → MqttTopic → Except Int Bytes)
    (extra : Nat) : Prop where
  checkNegative : ∀ level t, Only (· < 0) (check level t)
  optionsNegative : ∀ level t, Only (· < 0) (options level t)
  short : ∀ level t, check level t = .ok () → 2 + t.filter.length + extra ≤ 65538
  extra : ∀ level t b, options level t = .ok b → b.length = extra

/-- As many topics as the decoders take do not make `remain_len` wrap. -/
theorem remainLen_lt {check : MqttTopic → Except Int Unit} {extra : Nat} {s : MqttSubscribe} {block : Bytes}
    (hshort : ∀ t, check t = .ok () → 2 + t.filter.length + extra ≤ 65538) (hcheck : ∀ t ∈ s.topics, check t = .ok ())
    (hcount : s.topics.length ≤ maxTopics) (hblock : block.length ≤ 3932254) :
    s.remainLen extra block < 2147483648 := by
  have hsum : (s.topics.map fun t => 2 + t.filter.length + extra).sum ≤ s.topics.length • 65538 := by
    have h := List.sum_le_card_nsmul (s.topics.map fun t => 2 + t.filter.length + extra) 65538 fun n hn => by
      obtain ⟨t, ht, rfl⟩ := List.mem_map.mp hn
      exact hshort t (hcheck t ht)
    rwa [List.length_map] at h
  rw [maxTopics] at hcount
  rw [smul_eq_mul] at hsum
  rw [MqttSubscribe.remainLen]
  omega

/-- Topics that are written go out whole. -/
theorem encodeTopics_done {type : PacketType} {check : Nat → MqttTopic → Except Int Unit}
    {options : Nat → MqttTopic → Except Int Bytes} {extra txLen : Nat} {s : MqttSubscribe}
    (hrules : TopicRules check options extra) (hs : s.Typed) (hcount : s.topics.length ≤ maxTopics)
    (h : 0 ≤ (encodeTopics type check options extra txLen s).rc) :
    (s.packetId ≠ 0 ∧ s.topics ≠ [] ∧ (∀ t ∈ s.topics, check s.protocolLevel t = .ok ()) ∧
      (∀ t ∈ s.topics, ∃ b, options s.protocolLevel t = .ok b) ∧ (s.protocolLevel ≥ level5 → ValidProps type s.props)) ∧
    (s.body options).length ≤ maxRemainLen ∧
      (packetWire (firstByte type false .qos1 false) (s.body options)).length ≤ txLen ∧
      encodeTopics type check options extra txLen s = .done (packetWire (firstByte type false .qos1 false) (s.body options)) := by
  unfold encodeTopics at h ⊢
  split at h
  · exact absurd h (by decide)
  next hid =>
  split at h
  · exact absurd h (by decide)
  next hsome =>
  rw [if_neg hid, if_neg hsome]
  split at h
  next e he =>
    have hneg : e < 0 := checkTopics_negative (hrules.checkNegative _) s.topics e he
    exact absurd h (by show ¬0 ≤ e; omega)
  next hcheck =>
  have hblock (block : Bytes) (hb : (if s.protocolLevel ≥ level5 then encodePropBlock type s.props else .ok []) = .ok block) :
      block = s.propsPart ∧ (s.protocolLevel ≥ level5 → ValidProps type s.props) := by
    unfold MqttSubscribe.propsPart
    by_cases hlevel : s.protocolLevel ≥ level5
    · rw [if_pos hlevel] at hb ⊢
      obtain ⟨hvalid, rfl⟩ := (encodePropBlock_ok_iff hs.props block).mp hb
      exact ⟨rfl, fun _ => hvalid⟩
    · rw [if_neg hlevel] at hb ⊢
      cases hb
      exact ⟨rfl, fun hlevel' => absurd hlevel' hlevel⟩
  split at h
  next e he =>
    have hneg : e < 0 := only_ite (encodePropBlock_negative type s.props) (only_ok _) e he
    exact absurd h (by show ¬0 ≤ e; omega)
  next block hb =>
  obtain ⟨rfl, hvalid⟩ := hblock block hb
  dsimp only at h ⊢
  have hshort : s.propsPart.length ≤ 3932254 := by
    unfold MqttSubscribe.propsPart
    split
    next hlevel =>
      have hlen := propsWire_short hs.props (hvalid hlevel)
      have hvbi := vbiBytes_length_le maxLenBytes (propsWire s.props).length
      rw [propSection, List.length_append]
      rw [maxLenBytes] at hvbi ⊢
      omega
    next => exact Nat.zero_le _
  have hlt := remainLen_lt (hrules.short s.protocolLevel) (checkTopics_ok hcheck) hcount hshort
  rw [toInt32_of_lt hlt] at h ⊢
  split at h
  next hneg => exact absurd h (by omega)
  next hheader =>
  have hcode : ¬0 ≤ Code.outOfBuffer := by decide
  split at h
  · exact absurd h hcode
  next hroom =>
  split at h
  next e bytes hwrite =>
    have hneg := writeTopics_negative (hrules.optionsNegative s.protocolLevel) s.topics e (by rw [hwrite]; rfl)
    exact absurd h (by show ¬0 ≤ e; omega)
  next bytes hwrite =>
  obtain ⟨hall, hbytes⟩ := writeTopics_eq (show (writeTopics (options s.protocolLevel) s.topics).1 = none by rw [hwrite])
  rw [hwrite] at hbytes
  dsimp only at hbytes
  have hlen : (s.body options).length = s.remainLen extra s.propsPart := by
    rw [MqttSubscribe.body, List.length_append, List.length_append, encodeNum_length,
      topicsWire_length (hrules.extra s.protocolLevel) hall, MqttSubscribe.remainLen]
    omega
  rw [← hlen] at hroom hheader ⊢
  obtain ⟨hmax, hdone⟩ := encodeFixedHeader_done (by omega) (not_lt.mp hheader)
  rw [hdone] at hroom ⊢
  have hwire : (packetWire (firstByte type false .qos1 false) (s.body options)).length =
      (firstByte type false .qos1 false :: vbiBytes maxLenBytes (s.body options).length).length + (s.body options).length := by
    rw [packetWire_length, headerLength, List.length_cons]
  have hbytes' : (firstByte type false .qos1 false :: vbiBytes maxLenBytes (s.body options).length) ++
      (encodeNum s.packetId ++ s.propsPart) ++ bytes = packetWire (firstByte type false .qos1 false) (s.body options) := by
    rw [hbytes, packetWire, MqttSubscribe.body]
    simp only [List.cons_append, List.append_assoc]
  rw [if_neg (not_done_neg _), if_neg hroom]
  dsimp only [Encoded.done] at hroom ⊢
  refine ⟨⟨hid, by simpa using hsome, checkTopics_ok hcheck, hall, hvalid⟩, hmax, by omega, ?_⟩
  rw [hbytes', hwire]
  rfl

/-! ### Reading them -/

section Read
variable {rx : Bytes}

/-- The loop reads as many topics as there are, if it may. -/
theorem scanTopicsLoop_wire {scan : Nat → Except Fault (TopicView × Nat)} {limit : Nat} {wire : MqttTopic → Bytes}
    {Shows : TopicView → MqttTopic → Prop} {ts : List MqttTopic} (hfull : ∀ t, wire t ≠ [])
    (hscan : ∀ t ∈ ts, ∀ pos, pos + (wire t).length ≤ limit → At rx pos (wire t) →
      ∃ v, scan pos = .ok (v, pos + (wire t).length) ∧ Shows v t)
    {left pos : Nat} (hleft : ts.length ≤ left) (hat : At rx pos (ts.flatMap wire))
    (hend : pos + (ts.flatMap wire).length = limit) :
    ∃ vs, scanTopicsLoop scan limit left pos = .ok vs ∧ List.Forall₂ Shows vs ts := by
  induction ts generalizing left pos with
  | nil =>
    have hdone : ¬pos < limit := by
      rw [← hend]
      exact Nat.lt_irrefl pos
    refine ⟨[], ?_, .nil⟩
    cases left with
    | zero => rw [scanTopicsLoop, if_neg hdone]
    | succ left => rw [scanTopicsLoop, if_neg hdone]
  | cons t ts ih =>
    rw [List.flatMap_cons, at_append] at hat
    rw [List.flatMap_cons, List.length_append] at hend
    have hpos : 0 < (wire t).length := List.length_pos_iff.mpr (hfull t)
    cases left with
    | zero => cases hleft
    | succ left =>
      obtain ⟨v, hv, hshows⟩ := hscan t List.mem_cons_self pos (by omega) hat.1
      obtain ⟨vs, hvs, hall⟩ := ih (fun u hu => hscan u (List.mem_cons_of_mem t hu)) (Nat.le_of_succ_le_succ hleft) hat.2
        (by omega)
      refine ⟨v :: vs, ?_, .cons hshows hall⟩
      rw [scanTopicsLoop, if_pos (by omega), hv, Agree.ok_bind]
      dsimp only
      rw [hvs, Agree.ok_bind]

theorem scanFilter_wire {level pos : Nat} {filter : Bytes} (hrx : rx.length < 2147483648) (hok : StringOk filter)
    (hvalid : topicFilterValid filter level = true) (hat : At rx pos (encodeData filter))
    (hend : pos + (encodeData filter).length ≤ rx.length) :
    scanFilter level rx rx.length pos = .ok (⟨pos + 2, filter.length⟩, pos + (encodeData filter).length) ∧
      (⟨pos + 2, filter.length⟩ : Slice).get rx = filter := by
  have hget := (shows_of_at hat).get
  have hstring := (scanString_ok_iff hrx (by omega) ⟨pos + 2, filter.length⟩).mpr ⟨filter, hok, hat, rfl⟩
  rw [encodeData_length] at hend ⊢
  refine ⟨?_, hget⟩
  unfold scanFilter
  rw [hstring, Agree.ok_bind]
  dsimp only
  rw [if_neg (by omega), hget, hvalid]
  rfl

/-- The options as they are written say the QoS and the options again. -/
theorem subscribeOptions_read {level : Nat} {t : MqttTopic} {b : Bytes} (hqos : t.qos ≤ 2)
    (h : subscribeOptions level t = .ok b) :
    ∃ o, b = [o] ∧ (o &&& 0x03).toNat = t.qos ∧ (o &&& 0x3C) = (if level ≥ level5 then t.subOptions else 0) ∧
      subOptionsValid level t.filter o = true := by
  have hlow : ∀ q : Fin 3, (UInt8.ofNat q &&& 0x03).toNat = q ∧ UInt8.ofNat q &&& 0x3C = 0 ∧
      (UInt8.ofNat q &&& 0xFC ≠ 0 || UInt8.ofNat q &&& 0x03 > 2) = false := by decide +kernel
  have hall : ∀ (q : Fin 3) (n : Fin 256),
      (UInt8.ofFin n &&& 0xC3 ≠ 0 || UInt8.ofFin n >>> 4 &&& 0x03 = 0x03) = false →
      ((UInt8.ofNat q ||| (UInt8.ofFin n &&& 0x3C)) &&& 0x03).toNat = q ∧
      (UInt8.ofNat q ||| (UInt8.ofFin n &&& 0x3C)) &&& 0x3C = UInt8.ofFin n ∧
      (UInt8.ofNat q ||| (UInt8.ofFin n &&& 0x3C)) &&& 0x04 = UInt8.ofFin n &&& 0x04 ∧
      ((UInt8.ofNat q ||| (UInt8.ofFin n &&& 0x3C)) &&& 0xC0 ≠ 0 || (UInt8.ofNat q ||| (UInt8.ofFin n &&& 0x3C)) &&& 0x03 > 2 ||
        (UInt8.ofNat q ||| (UInt8.ofFin n &&& 0x3C)) >>> 4 &&& 0x03 = 0x03) = false := by decide +kernel
  unfold subscribeOptions at h
  unfold subOptionsValid
  by_cases hlevel : level ≥ level5
  · rw [if_pos hlevel] at h
    split at h
    · cases h
    next hbits =>
    split at h
    · cases h
    next hshared =>
    cases h
    obtain ⟨hq, hopts, hlocal, hvalid⟩ := hall ⟨t.qos, by omega⟩ t.subOptions.toFin (by simpa using hbits)
    refine ⟨_, rfl, hq, by rw [if_pos hlevel]; exact hopts, ?_⟩
    have hlocal' : (UInt8.ofNat t.qos ||| (t.subOptions &&& 0x3C)) &&& 0x04 = t.subOptions &&& 0x04 := hlocal
    have hvalid' : ¬((UInt8.ofNat t.qos ||| (t.subOptions &&& 0x3C)) &&& 0xC0 ≠ 0 ||
        (UInt8.ofNat t.qos ||| (t.subOptions &&& 0x3C)) &&& 0x03 > 2 ||
        (UInt8.ofNat t.qos ||| (t.subOptions &&& 0x3C)) >>> 4 &&& 0x03 = 0x03) = true := ne_true_of_eq_false hvalid
    rw [if_pos hlevel, if_neg hvalid', hlocal']
    exact congrArg not (Bool.not_eq_true _ ▸ hshared)
  · rw [if_neg hlevel] at h
    cases h
    obtain ⟨hq, hopts, hvalid⟩ := hlow ⟨t.qos, by omega⟩
    refine ⟨_, rfl, hq, by rw [if_neg hlevel]; exact hopts, ?_⟩
    rw [if_neg hlevel]
    exact congrArg not hvalid

/-- Below level 5 a subscription has no options but its QoS. -/
structure TopicView.Subscribes (rx : Bytes) (level : Nat) (v : TopicView) (t : MqttTopic) : Prop where
  filter : v.filter.get rx = t.filter
  qos : v.qos = t.qos
  subOptions : v.subOptions = if level ≥ level5 then t.subOptions else 0

theorem scanSubscription_wire {level pos : Nat} {t : MqttTopic} (hrx : rx.length < 2147483648)
    (hcheck : subscribeCheck level t = .ok ()) (hoptions : ∃ b, subscribeOptions level t = .ok b)
    (hend : pos + (topicWire (subscribeOptions level) t).length ≤ rx.length)
    (hat : At rx pos (topicWire (subscribeOptions level) t)) :
    ∃ v, scanSubscription level rx rx.length pos = .ok (v, pos + (topicWire (subscribeOptions level) t).length) ∧
      v.Subscribes rx level t := by
  obtain ⟨b, hb⟩ := hoptions
  obtain ⟨hok, hvalid, hqos⟩ := subscribeCheck_ok hcheck
  obtain ⟨o, rfl, hq, hopts, hread⟩ := subscribeOptions_read hqos hb
  have hwire : topicWire (subscribeOptions level) t = encodeData t.filter ++ [o] := by
    rw [topicWire, hb]
    rfl
  rw [hwire, List.length_append, List.length_singleton, ← Nat.add_assoc] at hend ⊢
  rw [hwire, at_append] at hat
  obtain ⟨hfilter, hget⟩ := scanFilter_wire hrx hok hvalid hat.1 (by omega)
  refine ⟨⟨⟨pos + 2, t.filter.length⟩, (o &&& 0x03).toNat, o &&& 0x3C⟩, ?_, hget, hq, hopts⟩
  unfold scanSubscription
  rw [hfilter, Agree.ok_bind]
  dsimp only
  rw [if_neg (by omega), readByte_at hat.2, Agree.ok_bind, hget, hread]
  rfl

theorem scanUnsubscription_wire {level pos : Nat} {t : MqttTopic} (hrx : rx.length < 2147483648)
    (hcheck : unsubscribeCheck level t = .ok ()) (hend : pos + (topicWire noOptions t).length ≤ rx.length)
    (hat : At rx pos (topicWire noOptions t)) :
    ∃ v, scanUnsubscription level rx rx.length pos = .ok (v, pos + (topicWire noOptions t).length) ∧
      v.filter.get rx = t.filter := by
  obtain ⟨hok, hvalid⟩ := unsubscribeCheck_ok hcheck
  have hwire : topicWire noOptions t = encodeData t.filter := List.append_nil _
  rw [hwire] at hend hat ⊢
  obtain ⟨hfilter, hget⟩ := scanFilter_wire hrx hok hvalid hat hend
  refine ⟨{filter := ⟨pos + 2, t.filter.length⟩}, ?_, hget⟩
  unfold scanUnsubscription
  rw [hfilter, Agree.ok_bind]

/-- What a decoder makes of the topics of a packet, each `shown` in its way. -/
structure SubscribeView.Shows (shown : TopicView → MqttTopic → Prop) (rx : Bytes) (v : SubscribeView) (s : MqttSubscribe) :
    Prop where
  len : v.len = rx.length
  packetId : v.packetId = s.packetId
  topics : List.Forall₂ shown v.topics s.topics
  props : v.props.map (PropView.read rx) = if s.protocolLevel ≥ level5 then s.props.map MqttProp.own else []

end Read

section Decode
variable {type : PacketType} {scan : Bytes → Nat → Nat → Except Fault (TopicView × Nat)}
  {options : Nat → MqttTopic → Except Int Bytes} {shown : Bytes → TopicView → MqttTopic → Prop} {s : MqttSubscribe}
  {σ : PropState}

/-- The bytes of a packet with topics. -/
def MqttSubscribe.wire (type : PacketType) (options : Nat → MqttTopic → Except Int Bytes) (s : MqttSubscribe) : Bytes :=
  packetWire (firstByte type false .qos1 false) (s.body options)

/-- A packet that stands in the buffer is read, if each of its topics is. -/
theorem decodeTopics_wire (htype : (firstByte type false .qos1 false).toNat / 16 = type.toNat)
    (hflags : fixedHeaderFlagsValid (firstByte type false .qos1 false) = true)
    (hauth : PropType.authData.allowedIn type = false) (hs : s.Typed) (hid : s.packetId ≠ 0) (hsome : s.topics ≠ [])
    (hvalid : s.protocolLevel ≥ level5 → ValidProps type s.props) (hbody : (s.body options).length ≤ maxRemainLen)
    (hrx : (s.wire type options).length < 2147483648) (hcount : s.topics.length ≤ maxTopics)
    (hroom : s.props.length ≤ σ.room)
    (hscan : ∀ t ∈ s.topics, ∀ pos, pos + (topicWire (options s.protocolLevel) t).length ≤ (s.wire type options).length →
      At (s.wire type options) pos (topicWire (options s.protocolLevel) t) →
      ∃ v, scan (s.wire type options) (s.wire type options).length pos =
          .ok (v, pos + (topicWire (options s.protocolLevel) t).length) ∧ shown (s.wire type options) v t) :
    ∃ v σ', decodeTopics type scan s.protocolLevel (s.wire type options) σ = (.ok v, σ') ∧
      v.Shows (shown (s.wire type options)) (s.wire type options) s := by
  have hlen : (s.wire type options).length = headerLength (s.body options) + (s.body options).length :=
    packetWire_length _ (s.body options)
  have hsize : (s.body options).length =
      2 + s.propsPart.length + (s.topics.flatMap (topicWire (options s.protocolLevel))).length := by
    rw [MqttSubscribe.body, List.length_append, List.length_append, encodeNum_length]
    omega
  have hat : At (s.wire type options) (headerLength (s.body options)) (s.body options) := at_body _ (s.body options)
  rw [MqttSubscribe.body, at_append, at_append, ← MqttSubscribe.body, encodeNum_length] at hat
  obtain ⟨hnum, hprops, htopics⟩ := hat
  have hpacketId := (scanNum_ok_iff hrx (by omega) _).mpr ⟨hs.packetId, hnum⟩
  have hheader : scanHeader (s.wire type options) type =
      .ok (headerLength (s.body options), (s.body options).length, _) := scanHeader_packetWire hbody htype hflags
  have hnull : (σ.setHead .own none).head .own = none := PropState.head_setHead_self .own none σ
  have hfull (t : MqttTopic) : topicWire (options s.protocolLevel) t ≠ [] := by
    refine List.ne_nil_of_length_pos ?_
    rw [topicWire, List.length_append, encodeData_length]
    omega
  obtain ⟨vs, hvs, hall⟩ := scanTopicsLoop_wire hfull hscan hcount htopics (by omega)
  have hread' : scanTopics (scan (s.wire type options) (s.wire type options).length) (s.wire type options).length
      (headerLength (s.body options) + 2 + s.propsPart.length) = .ok vs := by
    have hvs' : vs ≠ [] := by
      rintro rfl
      exact hsome (List.forall₂_nil_left_iff.mp hall)
    unfold scanTopics
    rw [hvs, Agree.ok_bind, if_neg (by simpa using hvs')]
  unfold decodeTopics
  rw [if_neg (by omega), Attempt.run_lift_bind hheader]
  dsimp only
  rw [← hlen, if_neg (Nat.lt_irrefl _), Attempt.run_lift_bind hpacketId, if_neg hid, run_nullProps_bind]
  unfold MqttSubscribe.propsPart at hprops hsize hread'
  by_cases hlevel : s.protocolLevel ≥ level5
  · rw [if_pos hlevel] at hprops hsize hread'
    obtain ⟨σ', hrun, hread⟩ := @propSectionM_reads _ _ .own type s.props (σ.setHead .own none) (fun _ _ => none) hrx
      (by omega) hnull hs.props (hvalid hlevel) (authPaired_of_valid (hvalid hlevel) hauth)
      (by rwa [PropState.room, PropState.pool_setHead]) hprops rfl
    rw [if_pos hlevel, if_neg (by omega), Attempt.run_bind_ok hrun]
    dsimp only
    rw [Attempt.run_pure_bind, Attempt.run_onError_lift_bind hread', run_viewProps_bind]
    exact ⟨_, σ', rfl, rfl, rfl, hall, by rw [if_pos hlevel]; exact hread⟩
  · rw [if_neg hlevel, List.length_nil, Nat.add_zero] at hread'
    rw [if_neg hlevel, Attempt.run_pure_bind, Attempt.run_onError_lift_bind hread', run_viewProps_bind]
    refine ⟨_, _, rfl, rfl, rfl, hall, ?_⟩
    rw [if_neg hlevel, views_nil hnull]
    rfl

end Decode

theorem subscribeCheck_negative (level : Nat) (t : MqttTopic) : Only (· < 0) (subscribeCheck level t) := by
  unfold subscribeCheck filterCheck
  split
  · exact only_ite (only_error (by decide)) (only_ite (only_error (by decide)) (only_ite (only_error (by decide))
      (only_ite (only_error (by decide)) (only_ok _))))
  · exact only_error (by decide)

theorem unsubscribeCheck_negative (level : Nat) (t : MqttTopic) : Only (· < 0) (unsubscribeCheck level t) := by
  unfold unsubscribeCheck filterCheck
  split
  · exact only_ite (only_error (by decide)) (only_ite (only_error (by decide)) (only_ite (only_error (by decide))
      (only_ok _)))
  · exact only_error (by decide)

theorem subscribeRules : TopicRules subscribeCheck subscribeOptions 1 where
  checkNegative := subscribeCheck_negative
  optionsNegative level t := by
    unfold subscribeOptions
    exact only_ite (only_ite (only_error (by decide)) (only_ite (only_error (by decide)) (only_ok _))) (only_ok _)
  extra level t b h := by
    unfold subscribeOptions at h
    split at h
    · split at h
      · cases h
      split at h
      · cases h
      cases h
      rfl
    · cases h
      rfl
  short level t h := by
    have hlen := (subscribeCheck_ok h).1.1
    omega

theorem unsubscribeRules : TopicRules unsubscribeCheck (fun _ => noOptions) 0 where
  checkNegative := unsubscribeCheck_negative
  optionsNegative _ _ := only_ok _
  extra _ _ _ h := by
    cases h
    rfl
  short level t h := by
    have hlen := (unsubscribeCheck_ok h).1.1
    omega

/-- Topics that have been written are read as they were. Below level 5 there are neither properties nor options in the
packet. -/
theorem subscribe_roundTrip (txLen : Nat) (htx : txLen < 2147483648) (s : MqttSubscribe) (hs : s.Typed)
    (hcount : s.topics.length ≤ maxTopics) (σ : PropState) (hroom : s.props.length ≤ σ.room) :
    (0 ≤ (encodeSubscribe txLen s).rc → ∃ v σ',
      decodeSubscribe s.protocolLevel (encodeSubscribe txLen s).out σ = (.ok v, σ') ∧
      (v.len : Int) = (encodeSubscribe txLen s).rc ∧
      v.Shows (TopicView.Subscribes (encodeSubscribe txLen s).out s.protocolLevel) (encodeSubscribe txLen s).out s) ∧
    (0 ≤ (encodeUnsubscribe txLen s).rc → ∃ v σ',
      decodeUnsubscribe s.protocolLevel (encodeUnsubscribe txLen s).out σ = (.ok v, σ') ∧
      (v.len : Int) = (encodeUnsubscribe txLen s).rc ∧
      v.Shows (fun v t => v.filter.get (encodeUnsubscribe txLen s).out = t.filter) (encodeUnsubscribe txLen s).out s) := by
  constructor <;> intro h
  · obtain ⟨⟨hid, hsome, hcheck, hall, hvalid⟩, hbody, hfits, hdone⟩ := encodeTopics_done subscribeRules hs hcount h
    obtain ⟨v, σ', hrun, hshows⟩ := @decodeTopics_wire .subscribe (scanSubscription s.protocolLevel) subscribeOptions
      (fun rx => TopicView.Subscribes rx s.protocolLevel) s σ (by decide) (by decide) (by decide) hs hid hsome hvalid hbody
      (Nat.lt_of_le_of_lt hfits htx) hcount hroom fun t ht pos hend hat =>
        scanSubscription_wire (Nat.lt_of_le_of_lt hfits htx) (hcheck t ht) (hall t ht) hend hat
    rw [encodeSubscribe, hdone]
    exact ⟨v, σ', hrun, by rw [hshows.len]; rfl, hshows⟩
  · obtain ⟨⟨hid, hsome, hcheck, hall, hvalid⟩, hbody, hfits, hdone⟩ := encodeTopics_done unsubscribeRules hs hcount h
    obtain ⟨v, σ', hrun, hshows⟩ := @decodeTopics_wire .unsubscribe (scanUnsubscription s.protocolLevel)
      (fun _ => noOptions) (fun rx v t => v.filter.get rx = t.filter) s σ (by decide) (by decide) (by decide) hs hid hsome
      hvalid hbody (Nat.lt_of_le_of_lt hfits htx) hcount hroom fun t ht pos hend hat =>
        scanUnsubscription_wire (Nat.lt_of_le_of_lt hfits htx) (hcheck t ht) hend hat
    rw [encodeUnsubscribe, hdone]
    exact ⟨v, σ', hrun, by rw [hshows.len]; rfl, hshows⟩

/-- Two filters, one of them shared, and a subscription identifier. -/
def sampleSubscribe (level : Nat) : MqttSubscribe :=
  { packetId := 9
    topics := [{topicFilter := some [0x61], qos := 1, subOptions := 0x24}, {topicFilter := some [0x2B]}]
    protocolLevel := level
    props := [{type := .subscriptionId, dataInt := 5}] }

/-- The same topics to be left, with no properties. -/
def sampleUnsubscribe : MqttSubscribe := {sampleSubscribe 5 with props := []}

theorem subscribe_roundTrip_sample :
    (∃ v σ', decodeSubscribe 5 (encodeSubscribe 64 (sampleSubscribe 5)).out {pool := [{item := {}}]} = (.ok v, σ') ∧
      (v.len : Int) = (encodeSubscribe 64 (sampleSubscribe 5)).rc ∧
      v.Shows (TopicView.Subscribes (encodeSubscribe 64 (sampleSubscribe 5)).out 5)
        (encodeSubscribe 64 (sampleSubscribe 5)).out (sampleSubscribe 5)) ∧
    ∃ v σ', decodeUnsubscribe 5 (encodeUnsubscribe 64 sampleUnsubscribe).out {pool := []} = (.ok v, σ') ∧
      (v.len : Int) = (encodeUnsubscribe 64 sampleUnsubscribe).rc ∧
      v.Shows (fun v t => v.filter.get (encodeUnsubscribe 64 sampleUnsubscribe).out = t.filter)
        (encodeUnsubscribe 64 sampleUnsubscribe).out sampleUnsubscribe :=
  ⟨(subscribe_roundTrip 64 (by decide) (sampleSubscribe 5)
      ⟨by decide, by rintro q hq; cases List.mem_singleton.mp hq; constructor <;> decide⟩ (by decide)
      {pool := [{item := {}}]} (by decide +kernel)).1 (by decide +kernel),
    (subscribe_roundTrip 64 (by decide) sampleUnsubscribe ⟨by decide, by rintro q hq; cases hq⟩ (by decide)
      {pool := []} (by decide)).2 (by decide +kernel)⟩

/-- At level 4 a property list is not written, and none is read. -/
theorem not_subscribe_roundTrip :
    (encodeSubscribe 64 (sampleSubscribe 4)).rc = 12 ∧ (sampleSubscribe 4).props ≠ [] ∧
    decodeSubscribe 4 (encodeSubscribe 64 (sampleSubscribe 4)).out {pool := [{item := {}}]} =
      (.ok { len := 12, packetId := 9, topics := [{filter := ⟨6, 1⟩, qos := 1}, {filter := ⟨10, 1⟩}], props := [] },
        {pool := [{item := {}}], props := some none}) := by
  decide +kernel

end WolfMqtt
