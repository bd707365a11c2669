import WolfMqtt.Packet.PublishFront

/-! A buffer that ends behind what a scan has gone through.

A scan that succeeds has looked at the bytes it has gone through, and at the end of its buffer only to see that it is
not there yet. So it comes to the same in a buffer that ends where it stopped, or anywhere behind that. -/
namespace WolfMqtt

open Agree (bind_eq_ok ok_bind)

section
variable {rx : Bytes} {n pos bufLen bufLen' : Nat}

/-! ### Numbers and strings -/

theorem readByte_cut {i : Nat} {b : UInt8} (h : readByte rx i = .ok b) (hi : i < n) : readByte (rx.take n) i = .ok b := by
  rwa [readByte, List.getElem?_take_of_lt hi]

theorem readBytes_cut {len : Nat} {s : Bytes} (h : readBytes rx pos len = .ok s) (hend : pos + len ≤ n) :
    readBytes (rx.take n) pos len = .ok s := by
  rw [readBytes] at h ⊢
  split at h
  next hle =>
    cases h
    rw [if_pos (by rw [List.length_take]; omega), List.drop_take, List.take_take, Nat.min_eq_left (by omega)]
  next => cases h

/-- A number takes at least a byte, and no more than there are turns. -/
theorem scanVbiLoop_took {rc value multiplier turns v k : Nat}
    (h : scanVbiLoop rx pos bufLen rc value multiplier turns = .ok (v, k)) : rc < k ∧ k ≤ rc + turns := by
  induction turns generalizing rc value multiplier with
  | zero =>
    rw [scanVbiLoop] at h
    split at h <;> cases h
  | succ turns ih =>
    rw [scanVbiLoop] at h
    split at h
    · cases h
    obtain ⟨b, -, h⟩ := bind_eq_ok.mp h
    split at h
    · have htook := ih h
      omega
    split at h
    · cases h
    · cases h
      omega

theorem scanVbi_cut {v k : Nat} (h : scanVbi rx pos bufLen = .ok (v, k)) (hend : pos + k ≤ n) (hbuf : k ≤ bufLen') :
    scanVbi (rx.take n) pos bufLen' = .ok (v, k) := by
  have hloop : ∀ turns rc value multiplier, scanVbiLoop rx pos bufLen rc value multiplier turns = .ok (v, k) →
      scanVbiLoop (rx.take n) pos bufLen' rc value multiplier turns = .ok (v, k) := by
    intro turns
    induction turns with
    | zero =>
      intro rc value multiplier h
      rw [scanVbiLoop] at h
      split at h <;> cases h
    | succ turns ih =>
      intro rc value multiplier h
      have hrc := scanVbiLoop_took h
      rw [scanVbiLoop] at h ⊢
      split at h
      · cases h
      obtain ⟨b, hb, h⟩ := bind_eq_ok.mp h
      rw [if_neg (by omega), readByte_cut hb (by omega), ok_bind]
      split at h
      next hmore =>
        rw [if_pos hmore]
        exact ih _ _ _ h
      next hlast =>
        rw [if_neg hlast]
        exact h
  exact hloop _ _ _ _ h

theorem scanNum_cut {v : Nat} (h : scanNum rx pos bufLen = .ok v) (hend : pos + 2 ≤ n) (hbuf : 2 ≤ bufLen') :
    scanNum (rx.take n) pos bufLen' = .ok v := by
  rw [scanNum] at h ⊢
  split at h
  · cases h
  obtain ⟨hi, hhi, h⟩ := bind_eq_ok.mp h
  obtain ⟨lo, hlo, h⟩ := bind_eq_ok.mp h
  rw [if_neg (by omega), readByte_cut hhi (by omega), ok_bind, readByte_cut hlo (by omega), ok_bind]
  exact h

theorem scanInt_cut {v : Nat} (h : scanInt rx pos bufLen = .ok v) (hend : pos + 4 ≤ n) (hbuf : 4 ≤ bufLen') :
    scanInt (rx.take n) pos bufLen' = .ok v := by
  rw [scanInt] at h ⊢
  split at h
  · cases h
  obtain ⟨a, ha, h⟩ := bind_eq_ok.mp h
  obtain ⟨b, hb, h⟩ := bind_eq_ok.mp h
  obtain ⟨c, hc, h⟩ := bind_eq_ok.mp h
  obtain ⟨d, hd, h⟩ := bind_eq_ok.mp h
  rw [if_neg (by omega), readByte_cut ha (by omega), ok_bind, readByte_cut hb (by omega), ok_bind,
    readByte_cut hc (by omega), ok_bind, readByte_cut hd (by omega), ok_bind]
  exact h

theorem scanString_cut {s : Slice} (h : scanString rx pos bufLen = .ok s) (hend : pos + (2 + s.len) ≤ n)
    (hbuf : 2 + s.len ≤ bufLen') (hword : bufLen' < 4294967296) : scanString (rx.take n) pos bufLen' = .ok s := by
  rw [scanString] at h ⊢
  obtain ⟨len, hlen, h⟩ := bind_eq_ok.mp h
  split at h
  · cases h
  obtain ⟨str, hstr, h⟩ := bind_eq_ok.mp h
  split at h
  · cases h
  next hutf =>
    cases h
    dsimp only at hend hbuf
    have hle : ¬len > wordDiff bufLen' 2 := by
      rw [wordDiff_of_le (by omega) hword]
      omega
    rw [scanNum_cut hlen (by omega) (by omega), ok_bind, if_neg hle, readBytes_cut hstr (by omega), ok_bind, if_neg hutf]

theorem Slice.get_take {s : Slice} (hs : s.off + s.len ≤ n) : s.get (rx.take n) = s.get rx := by
  rw [Slice.get, Slice.get, List.drop_take, List.take_take, Nat.min_eq_left (by omega)]

theorem scanString_off {s : Slice} (h : scanString rx pos bufLen = .ok s) : s.off = pos + 2 := by
  obtain ⟨len, -, h⟩ := bind_eq_ok.mp h
  split at h
  · cases h
  obtain ⟨str, -, h⟩ := bind_eq_ok.mp h
  split at h <;> cases h
  rfl

/-! ### Properties -/

theorem scanPropValue_cut {pbuf at_ propLen : Nat} {type : PropType} {v : PropView} {k : Nat}
    (h : scanPropValue rx pbuf bufLen type at_ propLen = .ok (v, k)) (hend : at_ + propLen ≤ bufLen')
    (hword : bufLen' < 2147483648) (hcut : pbuf + bufLen' ≤ n) :
    scanPropValue (rx.take n) pbuf bufLen' type at_ propLen = .ok (v, k) := by
  have hint : toInt32 bufLen' = bufLen' := toInt32_of_lt hword
  have hdiff {m : Nat} (hm : m ≤ bufLen') : wordDiff bufLen' m = bufLen' - m := wordDiff_of_le hm (by omega)
  have hword' {m : Nat} (hm : m ≤ propLen) : wordDiff propLen m = propLen - m := wordDiff_of_le hm (by omega)
  unfold scanPropValue at h ⊢
  cases htype : type.dataType with
  | byte =>
    simp only [htype] at h ⊢
    split at h
    · cases h
    next hroom =>
    simp only [Bool.or_eq_true, decide_eq_true_eq, not_or] at hroom
    obtain ⟨b, hb, h⟩ := bind_eq_ok.mp h
    rw [if_neg (by simp only [Bool.or_eq_true, decide_eq_true_eq, hint]; omega), readByte_cut hb (by omega), ok_bind]
    exact h
  | short =>
    simp only [htype] at h ⊢
    split at h
    · cases h
    obtain ⟨value, hvalue, h⟩ := bind_eq_ok.mp h
    split at h
    · cases h
    next htwo =>
    rw [if_neg (by rw [hint]; omega), hdiff (by omega), scanNum_cut hvalue (by omega) (by omega), ok_bind, if_neg htwo]
    exact h
  | int =>
    simp only [htype] at h ⊢
    split at h
    · cases h
    next hroom =>
    simp only [Bool.or_eq_true, decide_eq_true_eq, not_or] at hroom
    obtain ⟨value, hvalue, h⟩ := bind_eq_ok.mp h
    rw [if_neg (by simp only [Bool.or_eq_true, decide_eq_true_eq, hint]; omega), hdiff (by omega),
      scanInt_cut hvalue (by omega) (by omega), ok_bind]
    exact h
  | string =>
    simp only [htype] at h ⊢
    split at h
    · cases h
    obtain ⟨s, hs, h⟩ := bind_eq_ok.mp h
    split at h
    · cases h
    split at h
    · cases h
    next hleft =>
    have hoff := scanString_off hs
    rw [if_neg (by rw [hint]; omega), hdiff (by omega), scanString_cut hs (by omega) (by omega) (by omega), ok_bind,
      if_neg (by omega), if_neg hleft, Slice.get_take (by omega)]
    exact h
  | varInt =>
    simp only [htype] at h ⊢
    split at h
    · cases h
    obtain ⟨⟨value, m⟩, hvbi, h⟩ := bind_eq_ok.mp h
    dsimp only at h
    split at h
    · cases h
    next hleft =>
    rw [if_neg (by omega), hdiff (by omega), scanVbi_cut hvbi (by omega) (by omega), ok_bind]
    dsimp only
    rw [if_neg hleft]
    exact h
  | binary =>
    simp only [htype] at h ⊢
    obtain ⟨len, hlen, h⟩ := bind_eq_ok.mp h
    split at h
    · cases h
    next htwo =>
    split at h
    · cases h
    split at h
    · cases h
    next hleft =>
    rw [hword' (by omega)] at hleft
    rw [hdiff (by omega), scanNum_cut hlen (by omega) (by omega), ok_bind, if_neg htwo, hdiff (by omega),
      if_neg (by omega), hword' (by omega), if_neg hleft]
    exact h
  | stringPair =>
    simp only [htype] at h ⊢
    obtain ⟨s, hs, h⟩ := bind_eq_ok.mp h
    split at h
    · cases h
    split at h
    · cases h
    next hfirst =>
    split at h
    · cases h
    obtain ⟨s₂, hs₂, h⟩ := bind_eq_ok.mp h
    split at h
    · cases h
    split at h
    · cases h
    next hsecond =>
    rw [hword' (by omega)] at hsecond
    rw [hdiff (by omega), scanString_cut hs (by omega) (by omega) (by omega), ok_bind, if_neg (by omega), if_neg hfirst,
      hdiff (by omega), if_neg (by omega), scanString_cut hs₂ (by omega) (by omega) (by omega), ok_bind,
      if_neg (by omega), hword' (by omega), if_neg hsecond]
    exact h

theorem scanOne_cut {packet : PacketType} {pbuf at_ propLen : Nat} {seen : SeenBits} {r : PropView × SeenBits × Nat × Nat}
    (h : scanOne packet rx pbuf bufLen seen at_ propLen = .ok r) (hpos : 0 < propLen) (hend : at_ + propLen ≤ bufLen')
    (hword : bufLen' < 2147483648) (hcut : pbuf + bufLen' ≤ n) :
    scanOne packet (rx.take n) pbuf bufLen' seen at_ propLen = .ok r := by
  unfold scanOne at h ⊢
  split at h
  · cases h
  obtain ⟨⟨id, k⟩, hvbi, h⟩ := bind_eq_ok.mp h
  dsimp only at h
  split at h
  · cases h
  next hid =>
  have hone : k = 1 := scanVbi_one hvbi (by rw [propMatrixSize] at hid; omega)
  subst hone
  have hleft : wordDiff propLen 1 = propLen - 1 := wordDiff_of_le hpos (by omega)
  have hat : ¬(at_ : Int) > toInt32 bufLen' := by
    rw [toInt32_of_lt hword]
    omega
  rw [if_neg hat, wordDiff_of_le (by omega) (by omega), scanVbi_cut hvbi (by omega) (by omega), ok_bind]
  dsimp only
  rw [if_neg hid]
  rw [hleft] at h ⊢
  split at h
  · cases h
  next type htype =>
  split at h
  · cases h
  next hallowed =>
  rw [if_neg hallowed]
  split at h
  · cases h
  next honce =>
  rw [if_neg honce]
  obtain ⟨⟨p, k⟩, hvalue, h⟩ := bind_eq_ok.mp h
  rw [scanPropValue_cut hvalue (by omega) hword hcut, ok_bind]
  exact h

theorem scanPropsLoop_cut {packet : PacketType} {pbuf at_ propLen room left : Nat} {seen : SeenBits}
    {r : List PropView × Nat} (h : scanPropsLoop packet rx pbuf bufLen seen room at_ propLen left = .ok r)
    (hend : at_ + propLen ≤ bufLen') (hword : bufLen' < 2147483648) (hcut : pbuf + bufLen' ≤ n) :
    scanPropsLoop packet (rx.take n) pbuf bufLen' seen room at_ propLen left = .ok r := by
  induction left generalizing seen room at_ propLen r with
  | zero => exact h
  | succ left ih =>
    rw [scanPropsLoop_succ] at h ⊢
    split at h
    next hdone =>
      rw [if_pos hdone]
      exact h
    next hmore =>
    rw [if_neg hmore]
    split at h
    · cases h
    next hroom =>
    rw [if_neg hroom]
    obtain ⟨one, hone, h⟩ := bind_eq_ok.mp h
    obtain ⟨rest, hrest, h⟩ := bind_eq_ok.mp h
    have hpos : 0 < propLen := Nat.pos_of_ne_zero fun hzero => hmore ((toInt32_done (by omega)).mpr hzero)
    obtain ⟨hends, hleft⟩ := scanOne_ends hone hpos (by omega)
    rw [scanOne_cut hone hpos hend hword hcut, ok_bind, ih hrest (by omega), ok_bind]
    exact h

theorem scanProps_cut {packet : PacketType} {pbuf propLen room : Nat} {r : List PropView × Nat}
    (h : scanProps packet room rx pbuf bufLen propLen = .ok r) (hend : propLen ≤ bufLen') (hword : bufLen' < 2147483648)
    (hcut : pbuf + bufLen' ≤ n) : scanProps packet room (rx.take n) pbuf bufLen' propLen = .ok r := by
  obtain ⟨got, hloop, h⟩ := bind_eq_ok.mp h
  rw [scanProps, scanPropsLoop_cut hloop (by omega) hword hcut, ok_bind]
  exact h

/-- A section may be cut behind its last property. -/
theorem scanSection_cut {packet : PacketType} {room limit limit' declared stop : Nat}
    {refuse refuse' : Nat → Nat → Option Int} {views : List PropView}
    (h : scanSection packet room rx limit pos refuse = .ok (views, declared, stop))
    (hend : declared ≤ limit') (hword : limit' < 2147483648) (hcut : limit' ≤ n)
    (hrefuse : ∀ len k, pos + (k + len) ≤ limit' → refuse' len k = none) :
    scanSection packet room (rx.take n) limit' pos refuse' = .ok (views, declared, stop) := by
  obtain ⟨len, k, hvbi, hnone, hdeclared, -⟩ := scanSection_ends h
  have hlimit {m : Nat} (hm : m ≤ limit') : wordDiff limit' m = limit' - m := wordDiff_of_le hm (by omega)
  rw [scanSection, hvbi, ok_bind] at h
  dsimp only at h
  rw [hnone] at h
  rw [scanSection, hlimit (by omega), scanVbi_cut hvbi (by omega) (by omega), ok_bind]
  dsimp only
  rw [hrefuse len k (by omega)]
  dsimp only at h
  split at h
  next hsome =>
    obtain ⟨r, hprops, h⟩ := bind_eq_ok.mp h
    rw [if_pos hsome, hlimit (by omega), scanProps_cut hprops (by omega) (by omega) (by omega), ok_bind]
    exact h
  next hempty =>
    rw [if_neg hempty]
    exact h

/-! ### A PUBLISH -/

theorem scanHeader_cut {type : PacketType} {headerLen remainLen : Nat} {first : UInt8}
    (h : scanHeader rx type = .ok (headerLen, remainLen, first)) (hend : headerLen ≤ n) (hlong : headerLen ≤ rx.length) :
    scanHeader (rx.take n) type = .ok (headerLen, remainLen, first) := by
  have hcut : (rx.take n).length = min n rx.length := List.length_take
  obtain ⟨k, hvbi, rfl⟩ := scanHeader_ok h
  have hk := scanVbiLoop_took hvbi
  rw [scanHeader] at h ⊢
  split at h
  · cases h
  rw [hvbi, ok_bind] at h
  rw [if_neg (by omega), scanVbi_cut hvbi (by omega) (by omega), ok_bind]
  dsimp only at h ⊢
  split at h
  · cases h
  next hmaximum =>
  obtain ⟨b, hb, h⟩ := bind_eq_ok.mp h
  rw [if_neg hmaximum, readByte_cut hb (by omega), ok_bind]
  exact h

theorem scanPublishId_cut {qos stop : Nat} {packetId : Option Nat} (h : scanPublishId rx qos pos = .ok (packetId, stop))
    (hend : stop ≤ n) (hlong : stop ≤ rx.length) (hword : rx.length < 4294967296) :
    scanPublishId (rx.take n) qos pos = .ok (packetId, stop) := by
  have hcut : (rx.take n).length = min n rx.length := List.length_take
  rw [scanPublishId] at h ⊢
  split at h
  next hqos =>
    split at h
    · cases h
    obtain ⟨id, hid, h⟩ := bind_eq_ok.mp h
    split at h
    · cases h
    next hzero =>
    split at h
    · cases h
      rw [if_pos hqos, if_neg (by omega), wordDiff_of_le (by omega) (by omega), scanNum_cut hid (by omega) (by omega),
        ok_bind, if_neg hzero, if_pos (by omega)]
    · cases h
  next hqos =>
    rw [if_neg hqos]
    exact h

theorem publishPropsM_cut {level topicLen varEnd stop : Nat} {s s' : PropState} (hnull : s.head .own = none)
    (h : publishPropsM level rx topicLen pos s = (.ok (varEnd, stop), s')) (hpos : pos ≤ n) (hend : varEnd ≤ n)
    (hlong : varEnd ≤ rx.length) (hword : rx.length < 2147483648) :
    ∃ t', publishPropsM level (rx.take n) topicLen pos s = (.ok (varEnd, stop), t') ∧ t'.views .own = s'.views .own := by
  have hcut : (rx.take n).length = min n rx.length := List.length_take
  refine publishPropsM_same hnull hnull (fun hinside => by omega) ?_ h
  rintro ⟨views, declared, stop'⟩ hscan rfl
  exact scanSection_cut hscan (by rw [hcut]; exact Nat.le_min.mpr ⟨hend, hlong⟩) (by omega) (by omega)
    fun len k hle => if_pos hle

/-- **A buffer that holds a PUBLISH up to its payload** decodes to the same, with as much of the payload as there is. -/
theorem decodePublish_cut {level : Nat} {s s' : PropState} {v : PublishView} (h : decodePublish level rx s = (.ok v, s'))
    (hend : v.buffer.off ≤ n) (hword : rx.length < 2147483648) :
    ∃ len t', decodePublish level (rx.take n) s = (.ok {v with buffer := ⟨v.buffer.off, len⟩}, t') := by
  obtain ⟨f, varEnd, stop, hprops, hdeclared, rfl⟩ := decodePublish_ok h
  have hnull := PropState.head_setHead_self .own none s
  obtain ⟨rfl, hpos, hlong⟩ := publishPropsM_ends hnull f.pos_le hprops
  replace hend : stop ≤ n := hend
  have hfront := f.le_pos
  have hcut : (rx.take n).length = min n rx.length := List.length_take
  have hoff := scanString_off f.string
  have hword' {m : Nat} (hm : m ≤ (rx.take n).length) : wordDiff (rx.take n).length m = (rx.take n).length - m :=
    wordDiff_of_le hm (by omega)
  have hstring : scanString (rx.take n) f.headerLen (wordDiff (rx.take n).length f.headerLen) = .ok f.topic := by
    rw [hword' (by omega)]
    exact scanString_cut f.string (by omega) (by omega) (by omega)
  have hvalid : topicNameValid (f.topic.get (rx.take n)) level = true := by
    rw [Slice.get_take (by omega)]
    exact f.valid
  obtain ⟨t', hprops', hviews⟩ := publishPropsM_cut hnull hprops (by omega) hend hlong hword
  let front : PublishFront level (rx.take n) :=
    ⟨f.headerLen, f.remainLen, f.first, f.topic, f.packetId, f.pos, by omega,
      scanHeader_cut f.header (by omega) (by omega), hstring, by omega, hvalid, scanPublishId_cut f.id (by omega) (by omega) (by omega)⟩
  have hdecode := front.decode (s := s) hprops' hdeclared
  rw [hviews] at hdecode
  exact ⟨_, t', hdecode⟩

end
end WolfMqtt
