import WolfMqtt.Packet.PropScan
import WolfMqtt.Packet.Topic

/-! `MqttPacket_TopicFilterValid_ex` over a buffer, and the grammar of the filters that it takes.

The source goes over the characters with `word16` indices and looks at the neighbours of a wildcard. The grammar is
said level by level, and by the name and the filter of a shared subscription. -/
namespace WolfMqtt

/-! ### The scan -/

theorem sub_succ_lt {i len : UInt16} (h : i < len) : len.toNat - (i + 1).toNat < len.toNat - i.toNat := by
  rw [UInt16.lt_iff_toNat_lt] at h
  have hto : (i + 1).toNat = i.toNat + 1 := by
    have := len.toNat_lt
    rw [UInt16.toNat_add, UInt16.toNat_one]
    omega
  omega

/-- The character in front of index `i` is there and no separator. -/
def joinedBefore (f : Bytes) (i : UInt16) : Except Fault Bool :=
  if i = 0 then .ok false
  else do
    let c ← readByte f (i.toNat - 1)
    .ok (c ≠ 0x2F)

/-- The character behind index `i` is there and no separator. -/
def joinedBehind (f : Bytes) (len i : UInt16) : Except Fault Bool :=
  if i = len - 1 then .ok false
  else do
    let c ← readByte f (i.toNat + 1)
    .ok (c ≠ 0x2F)

/-- The loop of `MqttPacket_TopicFilterValid_ex` over the characters, from index `i` on. -/
def scanFilterLoop (f : Bytes) (len i : UInt16) : Except Fault Bool :=
  if h : i < len then do
    let c ← readByte f i.toNat
    if c = 0x23 then do
      let before ← joinedBefore f i
      if before then .ok false
      else if i != len - 1 then .ok false
      else scanFilterLoop f len (i + 1)
    else if c = 0x2B then do
      let before ← joinedBefore f i
      if before then .ok false
      else do
        let behind ← joinedBehind f len i
        if behind then .ok false else scanFilterLoop f len (i + 1)
    else scanFilterLoop f len (i + 1)
  else .ok true
termination_by len.toNat - i.toNat
decreasing_by all_goals exact sub_succ_lt h

/-- The loop over the name of a shared subscription: where it ends, or none at a wildcard. -/
def scanShareName (f : Bytes) (len nameEnd : UInt16) : Except Fault (Option UInt16) :=
  if h : nameEnd < len then do
    let c ← readByte f nameEnd.toNat
    if c = 0x2F then .ok (some nameEnd)
    else if c = 0x2B || c = 0x23 then .ok none
    else scanShareName f len (nameEnd + 1)
  else .ok (some nameEnd)
termination_by len.toNat - nameEnd.toNat
decreasing_by exact sub_succ_lt h

/-- Does the filter carry `$share/`, where the level knows shared subscriptions? -/
def scanShared (f : Bytes) (len : UInt16) (level : Nat) : Except Fault Bool :=
  if level ≥ level5 && len ≥ 7 then do
    let head ← readBytes f 0 7
    .ok (head == sharePrefix)
  else .ok false

/-- The filter behind the name of a shared subscription, with where the name ends. -/
def scanBehindName (f : Bytes) (len : UInt16) : Option UInt16 → Except Fault Bool
  | none => .ok false
  | some nameEnd =>
    if nameEnd = 7 || nameEnd ≥ len - 1 then .ok false else scanFilterLoop f len (nameEnd + 1)

/-- `MqttPacket_TopicFilterValid_ex` of a filter in memory of its own. -/
def scanTopicFilter (f : Bytes) (len : UInt16) (level : Nat) : Except Fault Bool :=
  if len = 0 then .ok false
  else do
    let shared ← scanShared f len level
    if shared then do
      let nameEnd ← scanShareName f len 7
      scanBehindName f len nameEnd
    else scanFilterLoop f len 0

/-! ### The scan and the list -/

section Scan
variable {f : Bytes} {i : UInt16} {level : Nat}

/-- The index `i` stands behind `front`, in front of `rest`. -/
structure Stands (f : Bytes) (i : UInt16) (front rest : Bytes) : Prop where
  split : f = front ++ rest
  index : i.toNat = front.length
  len : f.length < 65536

namespace Stands
variable {front rest : Bytes} {c : UInt8}

theorem total (h : Stands f i front rest) : (UInt16.ofNat f.length).toNat = front.length + rest.length := by
  rw [UInt16.toNat_ofNat', Nat.mod_eq_of_lt h.len, h.split, List.length_append]

theorem read (h : Stands f i front (c :: rest)) : readByte f i.toNat = .ok c := by
  rw [readByte, h.index, h.split, List.getElem?_append_right (Nat.le_refl _), Nat.sub_self]
  rfl

theorem more_iff (h : Stands f i front rest) : i < UInt16.ofNat f.length ↔ rest ≠ [] := by
  rw [UInt16.lt_iff_toNat_lt, h.total, h.index, ← List.length_pos_iff]
  omega

theorem next (h : Stands f i front (c :: rest)) : Stands f (i + 1) (front ++ [c]) rest where
  split := by rw [h.split, List.append_assoc]; rfl
  index := by
    have hlen := h.len
    rw [h.split, List.length_append, List.length_cons, ← h.index] at hlen
    rw [UInt16.toNat_add, UInt16.toNat_one, List.length_append, List.length_singleton, ← h.index]
    omega
  len := h.len

theorem last_iff (h : Stands f i front (c :: rest)) : i = UInt16.ofNat f.length - 1 ↔ rest = [] := by
  have htotal := h.total
  rw [List.length_cons] at htotal
  have hle : (1 : UInt16) ≤ UInt16.ofNat f.length := by
    rw [UInt16.le_iff_toNat_le, htotal, UInt16.toNat_one]
    omega
  rw [← UInt16.toNat_inj, UInt16.toNat_sub_of_le _ _ hle, UInt16.toNat_one, htotal, h.index, ← List.length_eq_zero_iff]
  omega

/-- The character in front, as the loop over the list is handed it. -/
theorem before (h : Stands f i front rest) :
    joinedBefore f i = .ok (decide (front.getLast? ≠ none ∧ front.getLast? ≠ some 0x2F)) := by
  have hindex := h.index
  rw [joinedBefore]
  rcases List.eq_nil_or_concat front with rfl | ⟨front, p, rfl⟩
  · rw [if_pos (UInt16.toNat_inj.mp hindex)]
    rfl
  · rw [List.concat_eq_append, List.length_append, List.length_singleton] at hindex
    have hread : readByte f (i.toNat - 1) = .ok p := by
      rw [readByte, hindex, h.split, Nat.add_sub_cancel, List.concat_eq_append, List.append_assoc,
        List.getElem?_append_right (Nat.le_refl _), Nat.sub_self]
      rfl
    rw [if_neg (fun h => by rw [h] at hindex; exact absurd hindex (by simp)), hread, Agree.ok_bind]
    simp

/-- The character behind. -/
theorem behind (h : Stands f i front (c :: rest)) :
    joinedBehind f (UInt16.ofNat f.length) i = .ok (decide (rest ≠ [] ∧ rest.head? ≠ some 0x2F)) := by
  rw [joinedBehind]
  cases rest with
  | nil =>
    rw [if_pos (h.last_iff.mpr rfl)]
    rfl
  | cons d rest =>
    have hread : readByte f (i.toNat + 1) = .ok d := by
      have hnext := h.next
      have := hnext.read
      rwa [hnext.index, List.length_append, ← h.index] at this
    rw [if_neg (fun heq => List.cons_ne_nil d rest (h.last_iff.mp heq)), hread, Agree.ok_bind]
    simp

/-- The loop over the buffer is the loop over the list. -/
theorem loop (h : Stands f i front rest) :
    scanFilterLoop f (UInt16.ofNat f.length) i = .ok (topicFilterLoop front.getLast? rest) := by
  induction rest generalizing i front with
  | nil => rw [scanFilterLoop, dif_neg (fun hlt => h.more_iff.mp hlt rfl), topicFilterLoop]
  | cons c rest ih =>
    have hrest := ih h.next
    rw [List.getLast?_concat] at hrest
    rw [scanFilterLoop, dif_pos (h.more_iff.mpr (List.cons_ne_nil c rest)), h.read, Agree.ok_bind, topicFilterLoop]
    by_cases hhash : c = 0x23
    · rw [if_pos hhash, if_pos hhash, h.before, Agree.ok_bind, hrest]
      simp only [decide_eq_true_eq, bne_iff_ne, ne_eq, h.last_iff]
      split
      · rfl
      split <;> rfl
    rw [if_neg hhash, if_neg hhash]
    by_cases hplus : c = 0x2B
    · rw [if_pos hplus, if_pos hplus, h.before, Agree.ok_bind, h.behind, Agree.ok_bind, hrest]
      simp only [decide_eq_true_eq]
      split
      · rfl
      split <;> rfl
    · rw [if_neg hplus, if_neg hplus, hrest]

/-- The index as a number. -/
theorem eq_ofNat (h : Stands f i front rest) : i = UInt16.ofNat front.length := by rw [← h.index, UInt16.ofNat_toNat]

/-- The index after some characters. -/
theorem skip {mid : Bytes} (h : Stands f i front (mid ++ rest)) :
    Stands f (UInt16.ofNat (front.length + mid.length)) (front ++ mid) rest where
  split := by rw [h.split, List.append_assoc]
  index := by
    have hlen := h.len
    rw [h.split, List.length_append, List.length_append] at hlen
    rw [UInt16.toNat_ofNat', List.length_append, Nat.mod_eq_of_lt (by omega)]
  len := h.len

/-- The loop over the name ends at the first separator. -/
theorem name (h : Stands f i front rest) :
    scanShareName f (UInt16.ofNat f.length) i =
      .ok (if (rest.takeWhile (· ≠ 0x2F)).any isWildcard then none
        else some (UInt16.ofNat (front.length + (rest.takeWhile (· ≠ 0x2F)).length))) := by
  induction rest generalizing i front with
  | nil =>
    rw [scanShareName, dif_neg (fun hlt => h.more_iff.mp hlt rfl), h.eq_ofNat]
    rfl
  | cons c rest ih =>
    have hrest := ih h.next
    rw [scanShareName, dif_pos (h.more_iff.mpr (List.cons_ne_nil c rest)), h.read, Agree.ok_bind]
    by_cases hslash : c = 0x2F
    · rw [if_pos hslash, List.takeWhile_cons_of_neg (by simpa using hslash), h.eq_ofNat]
      rfl
    rw [if_neg hslash, List.takeWhile_cons_of_pos (by simpa using hslash), List.any_cons]
    by_cases hwild : isWildcard c = true
    · rw [hwild, Bool.true_or, if_pos rfl, if_pos (by rw [Bool.or_comm]; exact hwild)]
    · have hplain : isWildcard c = false := by simpa using hwild
      rw [if_neg (by rw [Bool.or_comm]; exact hwild), hrest, hplain, Bool.false_or, List.length_append,
        List.length_singleton, List.length_cons, Nat.add_assoc, Nat.add_comm 1]

end Stands

theorem scanShared_eq (hlen : f.length < 65536) :
    scanShared f (UInt16.ofNat f.length) level = .ok (level ≥ level5 && topicFilterIsShared f) := by
  have hto : (UInt16.ofNat f.length).toNat = f.length := UInt16.toNat_ofNat_of_lt hlen
  have hroom : UInt16.ofNat f.length ≥ 7 ↔ 7 ≤ f.length := by
    rw [ge_iff_le, UInt16.le_iff_toNat_le, hto]
    rfl
  have hhead : topicFilterIsShared f = true ↔ f.take 7 = sharePrefix := by
    rw [topicFilterIsShared, List.isPrefixOf_iff_prefix, List.prefix_iff_eq_take]
    exact eq_comm
  rw [scanShared]
  by_cases hlevel : level ≥ level5
  · by_cases hseven : 7 ≤ f.length
    · rw [if_pos (by simp [hlevel, hroom, hseven]), readBytes_of_le (by omega), Agree.ok_bind, List.drop_zero]
      rw [decide_eq_true hlevel, Bool.true_and, Except.ok.injEq, Bool.eq_iff_iff, hhead, beq_iff_eq]
    · rw [if_neg (by simp [hlevel, hroom, hseven])]
      have hshort : ¬topicFilterIsShared f = true := by
        rw [hhead]
        intro h
        have := congrArg List.length h
        rw [List.length_take] at this
        exact hseven (by simp only [sharePrefix, List.length_cons, List.length_nil] at this; omega)
      simp [hshort]
  · rw [if_neg (by simp [hlevel])]
    simp [hlevel]

/-- A name that does not go to the end has a separator behind it. -/
theorem separator_behind (tail : Bytes) (hlong : (tail.takeWhile (· ≠ 0x2F)).length < tail.length) :
    ∃ rest, tail = tail.takeWhile (· ≠ 0x2F) ++ 0x2F :: rest := by
  have hsplit := List.takeWhile_append_dropWhile (p := (· ≠ 0x2F)) (l := tail)
  have hlengths := congrArg List.length hsplit
  rw [List.length_append] at hlengths
  obtain ⟨c, rest, hrest⟩ := List.exists_cons_of_ne_nil (l := tail.dropWhile (· ≠ 0x2F))
    (fun h => by rw [h, List.length_nil] at hlengths; omega)
  have hhead := List.head?_dropWhile_not (fun b : UInt8 => decide (b ≠ 0x2F)) tail
  rw [hrest] at hhead
  have hslash : c = 0x2F := by simpa using hhead
  subst hslash
  exact ⟨rest, by rw [← hrest, hsplit]⟩

/-- The scan decides what the test over the list decides. -/
theorem scanTopicFilter_eq (hlen : f.length < 65536) :
    scanTopicFilter f (UInt16.ofNat f.length) level = .ok (topicFilterValid f level) := by
  have hto : (UInt16.ofNat f.length).toNat = f.length := UInt16.toNat_ofNat_of_lt hlen
  rw [scanTopicFilter, topicFilterValid]
  by_cases hnil : f = []
  · subst hnil
    rfl
  have hzero : ¬UInt16.ofNat f.length = 0 := by
    rw [← UInt16.toNat_inj, hto]
    exact fun h => hnil (List.length_eq_zero_iff.mp h)
  rw [if_neg hzero, if_neg (by simpa using hnil), scanShared_eq hlen, Agree.ok_bind]
  by_cases hshared : (level ≥ level5 && topicFilterIsShared f) = true
  · rw [if_pos hshared, if_pos hshared]
    rw [Bool.and_eq_true, topicFilterIsShared, List.isPrefixOf_iff_prefix] at hshared
    obtain ⟨-, tail, rfl⟩ := hshared
    have hstart : Stands (sharePrefix ++ tail) 7 sharePrefix tail := ⟨rfl, rfl, hlen⟩
    have hdrop : (sharePrefix ++ tail).drop 7 = tail := List.drop_left' rfl
    rw [hstart.name, Agree.ok_bind, hdrop]
    obtain ⟨name, hname⟩ : ∃ name, name = tail.takeWhile (· ≠ 0x2F) := ⟨_, rfl⟩
    rw [← hname]
    have htotal : (sharePrefix ++ tail).length = 7 + tail.length := by rw [List.length_append]; rfl
    have htail : name.length ≤ tail.length := hname ▸ (List.takeWhile_sublist _).length_le
    have hend : (UInt16.ofNat (7 + name.length)).toNat = 7 + name.length := UInt16.toNat_ofNat_of_lt (show _ < 65536 by omega)
    have hempty : UInt16.ofNat (7 + name.length) = 7 ↔ name = [] := by
      rw [← UInt16.toNat_inj, hend, ← List.length_eq_zero_iff]
      show 7 + name.length = 7 ↔ _
      omega
    have hshort : UInt16.ofNat (7 + name.length) ≥ UInt16.ofNat (sharePrefix ++ tail).length - 1 ↔
        7 + name.length ≥ (sharePrefix ++ tail).length - 1 := by
      have hone : (1 : UInt16) ≤ UInt16.ofNat (sharePrefix ++ tail).length := by
        rw [UInt16.le_iff_toNat_le, hto, htotal, UInt16.toNat_one]
        omega
      rw [ge_iff_le, UInt16.le_iff_toNat_le, UInt16.toNat_sub_of_le _ _ hone, hto, hend, UInt16.toNat_one]
    show scanBehindName _ _ (if name.any isWildcard = true then none else some (UInt16.ofNat (7 + name.length))) =
      Except.ok (if name.any isWildcard = true then false else if _ then _ else _)
    by_cases hwild : name.any isWildcard = true
    · rw [if_pos hwild, if_pos hwild]
      rfl
    rw [if_neg hwild, if_neg hwild, scanBehindName]
    by_cases hbad : name = [] ∨ 7 + name.length ≥ (sharePrefix ++ tail).length - 1
    · rw [if_pos (by simpa only [Bool.or_eq_true, decide_eq_true_eq, hempty, hshort] using hbad),
        if_pos (by simpa only [Bool.or_eq_true, decide_eq_true_eq, List.isEmpty_iff] using hbad)]
    rw [if_neg (by simpa only [Bool.or_eq_true, decide_eq_true_eq, hempty, hshort] using hbad),
      if_neg (by simpa only [Bool.or_eq_true, decide_eq_true_eq, List.isEmpty_iff] using hbad)]
    rw [not_or, Nat.not_le, htotal] at hbad
    obtain ⟨rest, hsplit⟩ := separator_behind tail (by rw [← hname]; omega)
    rw [← hname] at hsplit
    have hbehind := (hsplit ▸ hstart : Stands (sharePrefix ++ tail) 7 sharePrefix (name ++ 0x2F :: rest)).skip.next
    have hdropped : (sharePrefix ++ tail).drop (7 + name.length + 1) = rest := by
      rw [hbehind.split]
      exact List.drop_left' (by simp [sharePrefix]; omega)
    have hlast : (sharePrefix ++ name ++ [0x2F]).getLast? = some 0x2F := List.getLast?_concat
    have hloop := hbehind.loop
    rw [hlast] at hloop
    rw [hdropped]
    exact hloop
  · rw [if_neg hshared, if_neg hshared]
    exact (⟨rfl, rfl, hlen⟩ : Stands f 0 [] f).loop

end Scan

/-! ### The grammar -/

/-- A separator, or the end, behind a level. -/
theorem topicFilterLoop_pathTail {prev : Option UInt8} {ls : List Bytes} (h : topicFilterLoop (some 0x2F) (path ls) = true) :
    topicFilterLoop prev (pathTail ls) = true := by
  cases ls with
  | nil => rfl
  | cons l ls =>
    rw [pathTail, topicFilterLoop, if_neg (by decide), if_neg (by decide)]
    exact h

theorem topicFilterLoop_plain {prev : Option UInt8} {l : Bytes} {ls : List Bytes} (hl : Plain l)
    (h : topicFilterLoop (some 0x2F) (path ls) = true) : topicFilterLoop prev (l ++ pathTail ls) = true := by
  induction l generalizing prev with
  | nil => exact topicFilterLoop_pathTail h
  | cons c l ih =>
    have hc : isWildcard c = false := hl c List.mem_cons_self
    rw [isWildcard, Bool.or_eq_false_iff, decide_eq_false_iff_not, decide_eq_false_iff_not] at hc
    rw [List.cons_append, topicFilterLoop, if_neg hc.1, if_neg hc.2]
    exact ih fun d hd => hl d (List.mem_cons_of_mem c hd)

/-- Levels that are valid pass the loop. -/
theorem topicFilterLoop_of_levels {prev : Option UInt8} {ls : List Bytes} (hprev : prev = none ∨ prev = some 0x2F)
    (h : ValidLevels ls) : topicFilterLoop prev (path ls) = true := by
  induction ls generalizing prev with
  | nil => rfl
  | cons l ls ih =>
    obtain ⟨hl, hls⟩ := h
    have hrest := ih (.inr rfl) hls
    have hfree : ¬(prev ≠ none ∧ prev ≠ some 0x2F) := by
      rw [not_and_or, not_not, not_not]
      exact hprev
    rw [path_cons]
    obtain ⟨rfl, rfl⟩ | rfl | hplain := hl
    · rw [pathTail_nil, List.append_nil, topicFilterLoop, if_pos rfl, if_neg hfree, if_neg (not_not.mpr rfl)]
      rfl
    · have hbehind : ¬(pathTail ls ≠ [] ∧ (pathTail ls).head? ≠ some 0x2F) := by
        cases ls with
        | nil => exact fun h => h.1 rfl
        | cons m ms => exact fun h => h.2 rfl
      rw [List.singleton_append, topicFilterLoop, if_neg (by decide), if_pos rfl, if_neg hfree, if_neg hbehind]
      exact topicFilterLoop_pathTail hrest
    · exact topicFilterLoop_plain hplain hrest

theorem topicFilterLoop_iff {prev : Option UInt8} {s : Bytes} (hprev : prev = none ∨ prev = some 0x2F) :
    topicFilterLoop prev s = true ↔ ValidLevels (levels s) := by
  have hpath := path_levels s
  constructor
  · intro h
    exact topicFilterLoop_levels (fun l hl => slash_notMem_of_mem_levels hl) (hpath.symm ▸ h)
  · intro h
    exact hpath ▸ topicFilterLoop_of_levels hprev h

/-- The filters of a level: where shared subscriptions are known, one that carries `$share/` goes on with a name,
which is not empty and has neither separators nor wildcards, and with a filter that is not empty. -/
def FilterGrammar (s : Bytes) (level : Nat) : Prop :=
  if level ≥ level5 ∧ sharePrefix <+: s then
    ∃ name rest, s = sharePrefix ++ name ++ 0x2F :: rest ∧ name ≠ [] ∧ (∀ c ∈ name, c ≠ 0x2F ∧ c ≠ 0x2B ∧ c ≠ 0x23) ∧
      rest ≠ [] ∧ ValidLevels (levels rest)
  else s ≠ [] ∧ ValidLevels (levels s)

/-- The test over the list takes the grammar. -/
theorem topicFilterValid_iff {s : Bytes} {level : Nat} : topicFilterValid s level = true ↔ FilterGrammar s level := by
  have hprefix : topicFilterIsShared s = true ↔ sharePrefix <+: s := List.isPrefixOf_iff_prefix
  rw [topicFilterValid, FilterGrammar]
  by_cases hnil : s = []
  · subst hnil
    simp [sharePrefix]
  rw [if_neg (by simpa using hnil)]
  by_cases hshared : level ≥ level5 ∧ sharePrefix <+: s
  · rw [if_pos hshared, if_pos (by simpa [ hprefix] using hshared)]
    obtain ⟨-, tail, rfl⟩ := hshared
    have hdrop : (sharePrefix ++ tail).drop 7 = tail := List.drop_left' rfl
    have htotal : (sharePrefix ++ tail).length = 7 + tail.length := by rw [List.length_append]; rfl
    have hbehind (name rest : Bytes) (h : tail = name ++ 0x2F :: rest) :
        (sharePrefix ++ tail).drop (7 + name.length + 1) = rest := by
      rw [Nat.add_assoc, ← List.drop_drop, hdrop, h, ← List.singleton_append, ← List.append_assoc]
      exact List.drop_left' (by rw [List.length_append, List.length_singleton])
    rw [hdrop, htotal]
    show (if _ then _ else _) = true ↔ _
    constructor
    · intro h
      split at h
      · cases h
      next hwild =>
      split at h
      · cases h
      next hlong =>
      rw [Bool.or_eq_true, List.isEmpty_iff, decide_eq_true_eq, not_or, Nat.not_le] at hlong
      obtain ⟨rest, hrest⟩ := separator_behind tail (by omega)
      rw [hbehind _ rest hrest, topicFilterLoop_iff (.inr rfl)] at h
      refine ⟨_, rest, by rw [List.append_assoc, ← hrest], hlong.1, fun c hc => ?_, ?_, h⟩
      · have hslash : c ≠ 0x2F := by
          have hall := List.all_takeWhile (p := fun b : UInt8 => decide (b ≠ 0x2F)) (l := tail)
          simpa using List.all_eq_true.mp hall c hc
        have hc : isWildcard c = false := by
          rw [List.any_eq_true, not_exists] at hwild
          exact Bool.not_eq_true _ ▸ fun h => hwild c ⟨hc, h⟩
        rw [isWildcard, Bool.or_eq_false_iff, decide_eq_false_iff_not, decide_eq_false_iff_not] at hc
        exact ⟨hslash, hc.2, hc.1⟩
      · rintro rfl
        have := congrArg List.length hrest
        rw [List.length_append, List.length_singleton] at this
        omega
    · rintro ⟨name, rest, hsplit, hne, hname, hrest, hlevels⟩
      rw [List.append_assoc, List.append_cancel_left_eq] at hsplit
      have htake : tail.takeWhile (· ≠ 0x2F) = name := by
        rw [hsplit, List.takeWhile_append_of_pos (fun c hc => by simpa using (hname c hc).1),
          List.takeWhile_cons_of_neg (by simp), List.append_nil]
      have hwild : ¬name.any isWildcard = true := by
        rw [List.any_eq_true]
        rintro ⟨c, hc, hwild⟩
        rw [isWildcard, Bool.or_eq_true, decide_eq_true_eq, decide_eq_true_eq] at hwild
        exact hwild.elim (hname c hc).2.2 (hname c hc).2.1
      have hlong : ¬(name.isEmpty || decide (7 + name.length ≥ 7 + tail.length - 1)) = true := by
        have hpos := List.length_pos_iff.mpr hrest
        rw [Bool.or_eq_true, List.isEmpty_iff, decide_eq_true_eq, not_or, hsplit, List.length_append, List.length_cons]
        exact ⟨hne, by omega⟩
      rw [htake, if_neg hwild, if_neg hlong, hbehind name rest hsplit, topicFilterLoop_iff (.inr rfl)]
      exact hlevels
  · rw [if_neg hshared, if_neg (by simpa [ hprefix] using hshared), topicFilterLoop_iff (.inl rfl)]
    exact ⟨fun h => ⟨hnil, h⟩, fun h => h.2⟩

/-- `MqttPacket_TopicFilterValid_ex` takes exactly the filters of the level, and reads nothing outside them. -/
theorem scanTopicFilter_exact {s : Bytes} (hlen : s.length ≤ 65535) (level : Nat) :
    ∃ b, scanTopicFilter s (UInt16.ofNat s.length) level = .ok b ∧ (b = true ↔ FilterGrammar s level) :=
  ⟨_, scanTopicFilter_eq (by omega), topicFilterValid_iff⟩

/-- A shared subscription to everything. -/
theorem scanTopicFilter_exact_shared :
    ∃ b, scanTopicFilter [0x24, 0x73, 0x68, 0x61, 0x72, 0x65, 0x2F, 0x67, 0x2F, 0x23] 10 5 = .ok b ∧
      (b = true ↔ FilterGrammar [0x24, 0x73, 0x68, 0x61, 0x72, 0x65, 0x2F, 0x67, 0x2F, 0x23] 5) :=
  scanTopicFilter_exact (s := [0x24, 0x73, 0x68, 0x61, 0x72, 0x65, 0x2F, 0x67, 0x2F, 0x23]) (by decide) 5

end WolfMqtt
