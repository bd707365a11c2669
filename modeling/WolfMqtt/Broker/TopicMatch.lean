import WolfMqtt.Packet.Topic
import WolfMqtt.Broker.Subs

/-! `BrokerTopicMatch` against topic matching.

Matching is said level by level (`TopicMatches`). The broker walks along characters: at the end of a
level it steps over both separators, and where a level is empty it takes the separator for a
character of the level and steps on from there. So it does what it should until the topic has an
empty level at one of a few places (`Stumbles`), and `topicMatchLoop_iff` says which. -/
namespace WolfMqtt.Broker

/-! ### Matching -/

def LevelMatches (f t : Bytes) : Prop := f = [0x2B] ∨ f = t

/-- All levels match, or those in front of a last `#` match the first levels of the topic. -/
def LevelsMatch (fs ts : List Bytes) : Prop :=
  List.Forall₂ LevelMatches fs ts ∨
    ∃ parents front, fs = parents ++ [[0x23]] ∧ front <+: ts ∧ List.Forall₂ LevelMatches parents front

/-- Matching, with topics that start with `$` out of the reach of a leading wildcard. -/
def TopicMatches (filter topic : Bytes) : Prop :=
  LevelsMatch (levels filter) (levels topic) ∧
    ¬(topic.head? = some 0x24 ∧ (filter.head? = some 0x2B ∨ filter.head? = some 0x23))

theorem levelsMatch_nil_left {ts : List Bytes} : LevelsMatch [] ts ↔ ts = [] := by
  constructor
  · rintro (h | ⟨parents, front, h, -⟩)
    · exact List.forall₂_nil_left_iff.mp h
    · simp at h
  · rintro rfl
    exact .inl .nil

theorem levelsMatch_nil_right {fs : List Bytes} : LevelsMatch fs [] ↔ fs = [] ∨ fs = [[0x23]] := by
  constructor
  · rintro (h | ⟨parents, front, rfl, hfront, h⟩)
    · exact .inl (List.forall₂_nil_right_iff.mp h)
    · rw [List.prefix_nil.mp hfront, List.forall₂_nil_right_iff] at h
      exact .inr (by rw [h, List.nil_append])
  · rintro (rfl | rfl)
    · exact .inl .nil
    · exact .inr ⟨[], [], rfl, List.nil_prefix, .nil⟩

theorem levelsMatch_cons {f t : Bytes} {fs ts : List Bytes} :
    LevelsMatch (f :: fs) (t :: ts) ↔ f = [0x23] ∧ fs = [] ∨ LevelMatches f t ∧ LevelsMatch fs ts := by
  constructor
  · rintro (h | ⟨parents, front, hfs, hfront, h⟩)
    · obtain ⟨hf, hfs⟩ := List.forall₂_cons.mp h
      exact .inr ⟨hf, .inl hfs⟩
    · cases parents with
      | nil =>
        cases hfs
        exact .inl ⟨rfl, rfl⟩
      | cons p parents =>
        cases hfs
        cases h with
        | @cons _ x _ front hx h =>
          rw [List.cons_prefix_cons] at hfront
          rw [hfront.1] at hx
          exact .inr ⟨hx, .inr ⟨parents, front, rfl, hfront.2, h⟩⟩
  · rintro (⟨rfl, rfl⟩ | ⟨hf, h | ⟨parents, front, rfl, hfront, h⟩⟩)
    · exact .inr ⟨[], [], rfl, List.nil_prefix, .nil⟩
    · exact .inl (.cons hf h)
    · exact .inr ⟨f :: parents, t :: front, rfl, List.cons_prefix_cons.mpr ⟨rfl, hfront⟩, .cons hf h⟩

/-! ### Where the broker stumbles -/

/-- The levels from some place on, `odd` if an odd number of empty filter levels stand right in front of
it: at some empty level of the topic the walk goes wrong. -/
def Stumbles : Bool → List Bytes → List Bytes → Prop
  | odd, f :: fs, t :: ts =>
    -- the topic ends here, and `#` is to take its parent
    (t = [] ∧ ts = [] ∧ fs = [[0x23]] ∧ (f = [0x2B] ∨ f = [] ∧ odd = false)) ∨
    -- a wildcard right behind a separator that was taken for a character
    (t = [] ∧ ts ≠ [] ∧ (f = [0x2B] ∨ f = [0x23]) ∧ odd = true) ∨
    Stumbles (decide (f = []) && !odd) fs ts
  | _, _, _ => False

theorem not_stumbles_nil_left {odd : Bool} {ts : List Bytes} : ¬Stumbles odd [] ts := by
  simp [Stumbles]

theorem not_stumbles_nil_right {odd : Bool} {fs : List Bytes} : ¬Stumbles odd fs [] := by
  simp [Stumbles]

/-! ### The walk -/

/-- What the loop does behind a character of the filter. -/
def separatorStep (rest topic : Bytes) : Bool :=
  match rest with
  | [] => topic.isEmpty
  | g :: gs =>
    if g = 0x2F then
      match topic with
      | 0x2F :: tail => topicMatchLoop gs tail
      | _ => gs = [0x23] && topic.isEmpty
    else if topic.head? = some 0x2F then false
    else topicMatchLoop (g :: gs) topic

theorem topicMatchLoop_cons (f t : UInt8) (rest ts : Bytes) : topicMatchLoop (f :: rest) (t :: ts) =
    if f = 0x23 then rest.isEmpty
    else if f ≠ 0x2B ∧ f ≠ t then false
    else separatorStep rest (if f = 0x2B then (t :: ts).dropWhile (· ≠ 0x2F) else ts) := by
  rw [topicMatchLoop]
  rfl

theorem separatorStep_char {g : UInt8} (hg : g ≠ 0x2F) (gs topic : Bytes) :
    separatorStep (g :: gs) topic = if topic.head? = some 0x2F then false else topicMatchLoop (g :: gs) topic := by
  unfold separatorStep
  exact if_neg hg

theorem separatorStep_slashes (gs tail : Bytes) :
    separatorStep (0x2F :: gs) (0x2F :: tail) = topicMatchLoop gs tail := rfl

section levels
variable {f t : Bytes} {fs ts : List Bytes}

theorem pathTail_eq_nil : pathTail fs = [] ↔ fs = [] := by
  cases fs <;> simp [pathTail]

theorem head_pathTail (hfs : fs ≠ []) : pathTail fs = 0x2F :: path fs := by
  cases fs with
  | nil => exact absurd rfl hfs
  | cons g gs => rfl

/-- A level, taken from its first character on behind another character. -/
theorem separatorStep_plain (hf : Plain f) (hfs : (0x2F : UInt8) ∉ f) (ht : (0x2F : UInt8) ∉ t) :
    separatorStep (f ++ pathTail fs) (t ++ pathTail ts) = (decide (f = t) && separatorStep (pathTail fs) (pathTail ts)) := by
  induction f generalizing t with
  | nil =>
    cases t with
    | nil => simp
    | cons e t =>
      rw [List.mem_cons, not_or] at ht
      cases fs with
      | nil => simp [pathTail, separatorStep]
      | cons g gs => simp [pathTail, separatorStep, Ne.symm ht.1]
  | cons d f ih =>
    rw [List.mem_cons, not_or] at hfs
    have hd : isWildcard d = false := hf d List.mem_cons_self
    simp only [isWildcard, Bool.or_eq_false_iff, decide_eq_false_iff_not] at hd
    rw [List.cons_append, separatorStep_char (Ne.symm hfs.1)]
    cases t with
    | nil =>
      cases ts with
      | nil => simp [pathTail, topicMatchLoop, hd.1, hd.2]
      | cons u us => simp [pathTail]
    | cons e t =>
      rw [List.mem_cons, not_or] at ht
      rw [List.cons_append, List.head?_cons, if_neg (by simpa using Ne.symm ht.1), topicMatchLoop_cons, if_neg hd.1,
        if_neg hd.2]
      by_cases hde : d = e
      · have hplain : Plain f := fun c hc => hf c (List.mem_cons_of_mem d hc)
        rw [if_neg (fun h => h.2 hde), ih hplain hfs.2 ht.2]
        simp [hde]
      · rw [if_pos ⟨hd.2, hde⟩]
        simp [hde]

/-- A level that is not empty, at the head of the loop. -/
theorem topicMatchLoop_plain (hne : f ≠ []) (hf : Plain f) (hfs : (0x2F : UInt8) ∉ f) (ht : (0x2F : UInt8) ∉ t) :
    topicMatchLoop (f ++ pathTail fs) (t ++ pathTail ts) =
      (decide (f = t) && separatorStep (pathTail fs) (pathTail ts)) := by
  have hstep : separatorStep (f ++ pathTail fs) (t ++ pathTail ts) = _ := separatorStep_plain hf hfs ht
  cases f with
  | nil => exact absurd rfl hne
  | cons d f =>
    have hd : isWildcard d = false := hf d List.mem_cons_self
    simp only [isWildcard, Bool.or_eq_false_iff, decide_eq_false_iff_not] at hd
    rw [List.mem_cons, not_or] at hfs
    rw [← hstep, List.cons_append, separatorStep_char (Ne.symm hfs.1)]
    split
    next hhead =>
      obtain ⟨u, us, htopic⟩ : ∃ u us, t ++ pathTail ts = u :: us := by
        cases h : t ++ pathTail ts with
        | nil => simp [h] at hhead
        | cons u us => exact ⟨u, us, rfl⟩
      rw [htopic, List.head?_cons] at hhead
      have hu : u = 0x2F := Option.some.inj hhead
      rw [htopic, topicMatchLoop_cons, if_neg hd.1, if_pos ⟨hd.2, by rw [hu]; exact Ne.symm hfs.1⟩]
    · rfl

theorem dropWhile_level (ht : (0x2F : UInt8) ∉ t) : (t ++ pathTail ts).dropWhile (· ≠ 0x2F) = pathTail ts := by
  have hall : ∀ c ∈ t, decide (c ≠ (0x2F : UInt8)) = true := by
    intro c hc
    refine decide_eq_true ?_
    rintro rfl
    exact ht hc
  rw [List.dropWhile_append_of_pos hall]
  cases ts with
  | nil => rfl
  | cons u us => rfl

/-- `+` at the head of the loop. -/
theorem topicMatchLoop_plus (ht : (0x2F : UInt8) ∉ t) : topicMatchLoop (0x2B :: pathTail fs) (t ++ pathTail ts) =
    if t = [] ∧ ts = [] then decide (fs = []) else separatorStep (pathTail fs) (pathTail ts) := by
  cases h : t ++ pathTail ts with
  | nil =>
    rw [List.append_eq_nil_iff, pathTail_eq_nil] at h
    rw [if_pos h, topicMatchLoop, if_neg (by decide), Bool.eq_iff_iff]
    simp [pathTail_eq_nil]
  | cons u us =>
    have hne : ¬(t = [] ∧ ts = []) := by
      rintro ⟨rfl, rfl⟩
      cases h
    rw [if_neg hne, topicMatchLoop_cons, if_neg (by decide), if_neg (fun h => h.1 rfl), if_pos rfl, ← h, dropWhile_level ht]

/-- `#` at the head of the loop. -/
theorem topicMatchLoop_hash (topic : Bytes) : topicMatchLoop [0x23] topic = true := by
  cases topic with
  | nil => rfl
  | cons u us => rfl

/-- An empty level at the head of the loop: its separator is taken for a character. -/
theorem topicMatchLoop_empty (hfs : fs ≠ []) (ht : (0x2F : UInt8) ∉ t) :
    topicMatchLoop (pathTail fs) (t ++ pathTail ts) =
      (decide (t = [] ∧ ts ≠ []) && separatorStep (path fs) (path ts)) := by
  rw [head_pathTail hfs]
  cases t with
  | nil =>
    cases ts with
    | nil => simp [pathTail, topicMatchLoop]
    | cons u us =>
      rw [List.nil_append, head_pathTail (List.cons_ne_nil u us), topicMatchLoop_cons]
      simp
  | cons e t =>
    rw [List.mem_cons, not_or] at ht
    rw [List.cons_append, topicMatchLoop_cons]
    simp [ht.1]

/-- A wildcard behind another character. -/
theorem separatorStep_wildcard {c : UInt8} (hc : c ≠ 0x2F) (ht : (0x2F : UInt8) ∉ t) :
    separatorStep (c :: pathTail fs) (t ++ pathTail ts) =
      (!decide (t = [] ∧ ts ≠ []) && topicMatchLoop (c :: pathTail fs) (t ++ pathTail ts)) := by
  rw [separatorStep_char hc]
  cases t with
  | nil =>
    cases ts with
    | nil => simp [pathTail]
    | cons u us => simp [pathTail]
  | cons e t =>
    rw [List.mem_cons, not_or] at ht
    simp [Ne.symm ht.1]

end levels

/-! ### Both against each other -/

/-- The walk from the first character of a level on: at the head of the loop, or behind a separator that
was taken for a character. -/
def walk (odd : Bool) (filter topic : Bytes) : Bool :=
  if odd then separatorStep filter topic else topicMatchLoop filter topic

/-- What the filters and the topics have for levels. -/
structure Levels (fs ts : List Bytes) : Prop where
  valid : ValidLevels fs
  filter : ∀ f ∈ fs, (0x2F : UInt8) ∉ f
  topic : ∀ t ∈ ts, (0x2F : UInt8) ∉ t

theorem Levels.tail {f t : Bytes} {fs ts : List Bytes} (h : Levels (f :: fs) (t :: ts)) : Levels fs ts where
  valid := h.valid.2
  filter g hg := h.filter g (List.mem_cons_of_mem f hg)
  topic u hu := h.topic u (List.mem_cons_of_mem t hu)

/-- The end of a level: both have ended, or `#` is to take the parent, or the next levels follow. -/
theorem separatorStep_next {fs ts : List Bytes}
    (ih : fs ≠ [] → ts ≠ [] → (topicMatchLoop (path fs) (path ts) = true ↔ LevelsMatch fs ts ∧ ¬Stumbles false fs ts))
    (hfs : ∀ f ∈ fs, (0x2F : UInt8) ∉ f) :
    separatorStep (pathTail fs) (pathTail ts) = true ↔ LevelsMatch fs ts ∧ ¬Stumbles false fs ts := by
  cases fs with
  | nil =>
    rw [levelsMatch_nil_left, and_iff_left not_stumbles_nil_left]
    cases ts <;> simp [pathTail, separatorStep]
  | cons f fs =>
    cases ts with
    | nil =>
      rw [levelsMatch_nil_right, and_iff_left not_stumbles_nil_right]
      have hhash : path (f :: fs) = [0x23] ↔ f :: fs = [[0x23]] := by
        constructor
        · intro h
          have hf := hfs f List.mem_cons_self
          rw [path_cons] at h
          cases f with
          | nil =>
            cases fs with
            | nil => cases h
            | cons g gs => cases h
          | cons c f =>
            rw [List.cons_append] at h
            obtain ⟨hc, htail⟩ := List.cons.inj h
            rw [List.append_eq_nil_iff, pathTail_eq_nil] at htail
            rw [hc, htail.1, htail.2]
        · intro h
          rw [h]
          rfl
      rw [head_pathTail (List.cons_ne_nil f fs), ← hhash]
      simp [pathTail, separatorStep]
    | cons t ts =>
      rw [head_pathTail (List.cons_ne_nil f fs), head_pathTail (List.cons_ne_nil t ts), separatorStep_slashes]
      exact ih (List.cons_ne_nil f fs) (List.cons_ne_nil t ts)

theorem walk_iff {odd : Bool} {fs ts : List Bytes} (h : Levels fs ts) (hfs : fs ≠ []) (hts : ts ≠ []) :
    walk odd (path fs) (path ts) = true ↔ LevelsMatch fs ts ∧ ¬Stumbles odd fs ts := by
  induction fs generalizing odd ts with
  | nil => exact absurd rfl hfs
  | cons f fs ih =>
    cases ts with
    | nil => exact absurd rfl hts
    | cons t ts =>
    have hf := h.filter f List.mem_cons_self
    have ht := h.topic t List.mem_cons_self
    have hinner : fs ≠ [] → ts ≠ [] →
        (walk false (path fs) (path ts) = true ↔ LevelsMatch fs ts ∧ ¬Stumbles false fs ts) := ih h.tail
    have hnext := separatorStep_next hinner h.tail.filter
    rw [path_cons, path_cons, levelsMatch_cons, Stumbles]
    rcases h.valid.1 with ⟨rfl, rfl⟩ | rfl | hplain
    · -- `#`: the rest of the topic, unless it is taken to go on
      have hloop : topicMatchLoop [0x23] (t ++ pathTail ts) = true := topicMatchLoop_hash _
      cases odd with
      | false => simp [walk, hloop, not_stumbles_nil_left]
      | true =>
        have hstep : separatorStep (0x23 :: pathTail []) (t ++ pathTail ts) = _ := separatorStep_wildcard (by decide) ht
        rw [pathTail_nil, hloop] at hstep
        simp [walk, hstep, not_stumbles_nil_left, imp_iff_not_or]
    · -- `+`: a whole level, unless the topic has ended or is taken to go on
      have hloop : topicMatchLoop (0x2B :: pathTail fs) (t ++ pathTail ts) = _ := topicMatchLoop_plus ht
      have hstep : separatorStep (0x2B :: pathTail fs) (t ++ pathTail ts) = _ := separatorStep_wildcard (by decide) ht
      rw [hloop] at hstep
      by_cases hend : t = [] ∧ ts = []
      · obtain ⟨rfl, rfl⟩ := hend
        have hwalk : walk odd ([0x2B] ++ pathTail fs) ([] ++ pathTail []) = decide (fs = []) := by
          cases odd with
          | false => simpa [walk] using hloop
          | true => simpa [walk] using hstep
        rw [hwalk, levelsMatch_nil_right]
        cases fs <;> simp [LevelMatches, not_stumbles_nil_right]
      · rw [if_neg hend] at hloop hstep
        have hwalk : walk odd ([0x2B] ++ pathTail fs) (t ++ pathTail ts) = true ↔
            ¬(t = [] ∧ ts ≠ [] ∧ odd = true) ∧ separatorStep (pathTail fs) (pathTail ts) = true := by
          cases odd with
          | false => simp [walk, hloop]
          | true => simp [walk, hstep, imp_iff_not_or]
        rw [hwalk, hnext]
        simp [LevelMatches]
        tauto
    · by_cases hne : f = []
      · subst hne
        cases odd with
        | true =>
          have hstep : separatorStep ([] ++ pathTail fs) (t ++ pathTail ts) = _ := separatorStep_plain hplain hf ht
          rw [walk, if_pos rfl, hstep, Bool.and_eq_true, hnext]
          simp [LevelMatches, eq_comm (a := ([] : Bytes))]
          tauto
        | false =>
          rw [walk, if_neg (by decide), List.nil_append]
          by_cases hfs : fs = []
          · subst hfs
            rw [levelsMatch_nil_left, pathTail_nil, topicMatchLoop, List.isEmpty_iff, List.append_eq_nil_iff, pathTail_eq_nil]
            simp [LevelMatches, not_stumbles_nil_left, eq_comm (a := ([] : Bytes))]
          · rw [topicMatchLoop_empty hfs ht, Bool.and_eq_true, decide_eq_true_eq]
            by_cases hts : ts = []
            · subst hts
              rw [levelsMatch_nil_right]
              simp [LevelMatches, not_stumbles_nil_right, hfs, eq_comm (a := ([] : Bytes))]
            · have hrest : walk true (path fs) (path ts) = true ↔ _ := ih h.tail hfs hts
              rw [walk, if_pos rfl] at hrest
              rw [hrest]
              simp [LevelMatches, hfs, hts, eq_comm (a := ([] : Bytes))]
              tauto
      · have hnotplus : f ≠ [0x2B] := by
          rintro rfl
          simpa [isWildcard] using hplain 0x2B (by simp)
        have hnothash : f ≠ [0x23] := by
          rintro rfl
          simpa [isWildcard] using hplain 0x23 (by simp)
        have hwalk : walk odd (f ++ pathTail fs) (t ++ pathTail ts) =
            (decide (f = t) && separatorStep (pathTail fs) (pathTail ts)) := by
          cases odd with
          | false => exact topicMatchLoop_plain hne hplain hf ht
          | true => exact separatorStep_plain hplain hf ht
        rw [hwalk, Bool.and_eq_true, hnext]
        simp [LevelMatches, hne, hnotplus, hnothash]
        tauto

/-! ### The whole of it -/

theorem levels_of_valid {filter : Bytes} (hfilter : topicFilterValid filter level4 = true) (topic : Bytes) :
    Levels (levels filter) (levels topic) where
  valid := (validLevels_of_valid hfilter).2
  filter _ hf := slash_notMem_of_mem_levels hf
  topic _ ht := slash_notMem_of_mem_levels ht

/-- What `BrokerTopicMatch` finds for a valid filter is what matches and does not make it stumble. -/
theorem topicMatch_eq_true_iff {filter : Bytes} (hfilter : topicFilterValid filter level4 = true) (topic : Bytes) :
    topicMatch filter topic = true ↔ TopicMatches filter topic ∧ ¬Stumbles false (levels filter) (levels topic) := by
  have hwalk : walk false (path (levels filter)) (path (levels topic)) = true ↔ _ :=
    walk_iff (levels_of_valid hfilter topic) (levels_ne_nil filter) (levels_ne_nil topic)
  rw [walk, if_neg (by decide), path_levels, path_levels] at hwalk
  rw [topicMatch, TopicMatches]
  split
  next hdollar => simp [hdollar]
  next hdollar => rw [hwalk, and_iff_left hdollar]

/-- `BrokerTopicMatch` is topic matching on just the topics on which it does not stumble. -/
theorem topicMatch_iff {filter : Bytes} (hfilter : topicFilterValid filter level4 = true) (topic : Bytes) :
    (topicMatch filter topic = true ↔ TopicMatches filter topic) ↔
      (TopicMatches filter topic → ¬Stumbles false (levels filter) (levels topic)) := by
  rw [topicMatch_eq_true_iff hfilter]
  constructor
  · intro h hmatch
    exact (h.mpr hmatch).2
  · intro h
    exact ⟨And.left, fun hmatch => ⟨hmatch, h hmatch⟩⟩

/-- `a/+/#` on `a/b`. -/
theorem topicMatch_iff_sample :
    (topicMatch [0x61, 0x2F, 0x2B, 0x2F, 0x23] [0x61, 0x2F, 0x62] = true ↔
      TopicMatches [0x61, 0x2F, 0x2B, 0x2F, 0x23] [0x61, 0x2F, 0x62]) ↔
      (TopicMatches [0x61, 0x2F, 0x2B, 0x2F, 0x23] [0x61, 0x2F, 0x62] →
        ¬Stumbles false (levels [0x61, 0x2F, 0x2B, 0x2F, 0x23]) (levels [0x61, 0x2F, 0x62])) :=
  topicMatch_iff (by decide) _

/-- `/#` does not get `//a`. -/
theorem not_topicMatch :
    ¬∀ (filter topic : Bytes) (level : Nat), topicFilterValid filter level4 = true → topicNameValid topic level = true →
      topic ≠ [] → (topicMatch filter topic = true ↔ TopicMatches filter topic) := by
  intro h
  have hiff := h [0x2F, 0x23] [0x2F, 0x2F, 0x61] level4 (by decide) (by decide) (by decide)
  have hmatch : TopicMatches [0x2F, 0x23] [0x2F, 0x2F, 0x61] := by
    refine ⟨.inr ⟨[[]], [[]], rfl, ⟨[[], [0x61]], rfl⟩, ?_⟩, by decide⟩
    exact .cons (.inr rfl) .nil
  have hwrong : topicMatch [0x2F, 0x23] [0x2F, 0x2F, 0x61] = false := by decide
  rw [hiff.mpr hmatch] at hwrong
  cases hwrong

end WolfMqtt.Broker
