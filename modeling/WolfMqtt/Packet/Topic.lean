import WolfMqtt.Packet.Encode

/-! Topic filters, and the levels of filters and topic names.

`MqttPacket_TopicFilterValid_ex` looks at characters. What it takes is said level by level in
`ValidLevels`: a wildcard is a level of its own, and `#` is the last one. -/
namespace WolfMqtt

/-! ### The checks of the packets -/

/-- `#` or `+`. -/
def isWildcard (c : UInt8) : Bool := c = 0x23 || c = 0x2B

/-- The loop of `MqttPacket_TopicFilterValid_ex`; `prev` is the character in front, where there is one. -/
def topicFilterLoop : Option UInt8 → Bytes → Bool
  | _, [] => true
  | prev, c :: rest =>
    if c = 0x23 then
      if prev ≠ none ∧ prev ≠ some 0x2F then false
      else if rest ≠ [] then false
      else topicFilterLoop (some c) rest
    else if c = 0x2B then
      if prev ≠ none ∧ prev ≠ some 0x2F then false
      else if rest ≠ [] ∧ rest.head? ≠ some 0x2F then false
      else topicFilterLoop (some c) rest
    else topicFilterLoop (some c) rest

/-- `$share/` -/
def sharePrefix : Bytes := [0x24, 0x73, 0x68, 0x61, 0x72, 0x65, 0x2F]

/-- `MqttPacket_TopicFilterIsShared` -/
def topicFilterIsShared (filter : Bytes) : Bool := sharePrefix.isPrefixOf filter

/-- `MqttPacket_TopicFilterValid_ex`: from level 5 on a shared subscription has a name without
wildcards, and a filter behind it. -/
def topicFilterValid (filter : Bytes) (level : Nat) : Bool :=
  if filter.isEmpty then false
  else if level ≥ level5 && topicFilterIsShared filter then
    let name := (filter.drop 7).takeWhile (· ≠ 0x2F)
    if name.any isWildcard then false
    else if name.isEmpty || 7 + name.length ≥ filter.length - 1 then false
    else topicFilterLoop (some 0x2F) (filter.drop (7 + name.length + 1))
  else topicFilterLoop none filter

/-! ### Levels -/

/-- The levels of a filter or of a topic name. -/
def levels (s : Bytes) : List Bytes := s.splitOn 0x2F

/-- The text of some levels. -/
def path : List Bytes → Bytes
  | [] => []
  | [l] => l
  | l :: ls => l ++ 0x2F :: path ls

/-- What stands behind the first of some levels. -/
def pathTail : List Bytes → Bytes
  | [] => []
  | l :: ls => 0x2F :: path (l :: ls)

@[simp]
theorem pathTail_nil : pathTail [] = [] := rfl

theorem path_cons (l : Bytes) (ls : List Bytes) : path (l :: ls) = l ++ pathTail ls := by
  cases ls with
  | nil => rw [path, pathTail, List.append_nil]
  | cons m ls => rfl

theorem path_eq_intercalate (ls : List Bytes) : path ls = [0x2F].intercalate ls := by
  induction ls with
  | nil => rfl
  | cons l ls ih =>
    rw [path_cons]
    cases ls with
    | nil => simp [pathTail]
    | cons m ls => rw [pathTail, ih, List.intercalate_cons_cons, List.append_assoc, List.singleton_append]

theorem path_levels (s : Bytes) : path (levels s) = s := by
  rw [path_eq_intercalate, levels, List.intercalate_splitOn]

theorem levels_ne_nil (s : Bytes) : levels s ≠ [] := List.splitOn_ne_nil _ _

/-- No level holds a separator. -/
theorem slash_notMem_of_mem_levels {s l : Bytes} (h : l ∈ levels s) : (0x2F : UInt8) ∉ l := by
  induction s generalizing l with
  | nil =>
    rw [levels, List.splitOn_nil, List.mem_singleton] at h
    rw [h]
    exact List.not_mem_nil
  | cons c s ih =>
    rw [levels, List.splitOn_cons_eq_if_modifyHead] at h
    split at h
    · rcases List.mem_cons.mp h with rfl | h
      · exact List.not_mem_nil
      · exact ih h
    next hc =>
    obtain ⟨m, ms, hms⟩ := List.exists_cons_of_ne_nil (levels_ne_nil s)
    rw [levels] at hms
    rw [hms, List.modifyHead_cons] at h
    rcases List.mem_cons.mp h with rfl | h
    · have hm : (0x2F : UInt8) ∉ m := ih (by rw [levels, hms]; exact List.mem_cons_self)
      rw [List.mem_cons, not_or]
      exact ⟨fun heq => hc (by simp [heq]), hm⟩
    · exact ih (by rw [levels, hms]; exact List.mem_cons_of_mem m h)

/-! ### Valid filters -/

/-- A level without a wildcard. -/
def Plain (l : Bytes) : Prop := ∀ c ∈ l, isWildcard c = false

/-- Wildcards are levels of their own, and `#` is the last one. -/
def ValidLevels : List Bytes → Prop
  | [] => True
  | l :: ls => (l = [0x23] ∧ ls = [] ∨ l = [0x2B] ∨ Plain l) ∧ ValidLevels ls

theorem plain_cons {c : UInt8} {l : Bytes} (h₁ : c ≠ 0x23) (h₂ : c ≠ 0x2B) (h : Plain l) : Plain (c :: l) := by
  intro d hd
  rcases List.mem_cons.mp hd with rfl | hd
  · simp [isWildcard, h₁, h₂]
  · exact h d hd

/-- Inside a level no wildcard is taken. -/
theorem topicFilterLoop_inside {prev : UInt8} {f : Bytes} {ls : List Bytes} (hprev : prev ≠ 0x2F) (hf : (0x2F : UInt8) ∉ f)
    (h : topicFilterLoop (some prev) (f ++ pathTail ls) = true) :
    Plain f ∧ topicFilterLoop (some 0x2F) (path ls) = true := by
  induction f generalizing prev with
  | nil =>
    refine ⟨by simp [Plain], ?_⟩
    cases ls with
    | nil => rfl
    | cons l ls => simpa [pathTail, topicFilterLoop] using h
  | cons c f ih =>
    rw [List.mem_cons, not_or] at hf
    have hinside : some prev ≠ none ∧ some prev ≠ some 0x2F := by simpa using hprev
    rw [List.cons_append, topicFilterLoop, if_pos hinside] at h
    split at h
    · cases h
    next h₁ =>
    split at h
    · cases h
    next h₂ =>
    obtain ⟨hplain, hrest⟩ := ih (Ne.symm hf.1) hf.2 h
    exact ⟨plain_cons h₁ h₂ hplain, hrest⟩

/-- At its first character a level is a wildcard, or holds none. -/
theorem topicFilterLoop_level {prev : Option UInt8} {f : Bytes} {ls : List Bytes} (hf : (0x2F : UInt8) ∉ f)
    (h : topicFilterLoop prev (f ++ pathTail ls) = true) :
    (f = [0x23] ∧ ls = [] ∨ f = [0x2B] ∨ Plain f) ∧ topicFilterLoop (some 0x2F) (path ls) = true := by
  cases f with
  | nil =>
    refine ⟨.inr (.inr (by simp [Plain])), ?_⟩
    cases ls with
    | nil => rfl
    | cons l ls => simpa [pathTail, topicFilterLoop] using h
  | cons c f =>
    rw [List.mem_cons, not_or] at hf
    have htail : ∀ d : UInt8, d ≠ 0x2F → topicFilterLoop (some d) (pathTail ls) = true →
        topicFilterLoop (some 0x2F) (path ls) = true := by
      intro d hd hloop
      exact (topicFilterLoop_inside (f := []) hd List.not_mem_nil hloop).2
    rw [List.cons_append, topicFilterLoop] at h
    split at h
    next h₁ =>
      split at h
      · cases h
      split at h
      · cases h
      next hlast =>
      rw [ne_eq, not_not, List.append_eq_nil_iff] at hlast
      obtain ⟨rfl, hls⟩ := hlast
      have hls : ls = [] := by
        cases ls with
        | nil => rfl
        | cons l ls => cases hls
      subst hls h₁
      exact ⟨.inl ⟨rfl, rfl⟩, rfl⟩
    next h₁ =>
    split at h
    next h₂ =>
      split at h
      · cases h
      split at h
      · cases h
      next hnext =>
      have hfnil : f = [] := by
        cases f with
        | nil => rfl
        | cons d f =>
          rw [List.mem_cons, not_or] at hf
          simp [Ne.symm hf.2.1] at hnext
      subst hfnil h₂
      exact ⟨.inr (.inl rfl), htail 0x2B (by decide) h⟩
    next h₂ =>
    obtain ⟨hplain, hrest⟩ := topicFilterLoop_inside (Ne.symm hf.1) hf.2 h
    exact ⟨.inr (.inr (plain_cons h₁ h₂ hplain)), hrest⟩

theorem topicFilterLoop_levels {prev : Option UInt8} {ls : List Bytes} (hls : ∀ l ∈ ls, (0x2F : UInt8) ∉ l)
    (h : topicFilterLoop prev (path ls) = true) : ValidLevels ls := by
  induction ls generalizing prev with
  | nil => trivial
  | cons l ls ih =>
    rw [path_cons] at h
    obtain ⟨hl, hrest⟩ := topicFilterLoop_level (hls l List.mem_cons_self) h
    exact ⟨hl, ih (fun m hm => hls m (List.mem_cons_of_mem l hm)) hrest⟩

/-- The levels of a filter that is taken as it stands. -/
theorem validLevels_of_valid {filter : Bytes} (h : topicFilterValid filter level4 = true) :
    filter ≠ [] ∧ ValidLevels (levels filter) := by
  unfold topicFilterValid at h
  split at h
  · cases h
  next hne =>
  rw [if_neg (by simp [level4, level5])] at h
  have hloop : topicFilterLoop none (path (levels filter)) = true := by rwa [path_levels]
  exact ⟨by simpa using hne, topicFilterLoop_levels (fun l hl => slash_notMem_of_mem_levels hl) hloop⟩

end WolfMqtt
