import WolfMqtt.Persist.Posix

/-! The map that the record files hold.

A file in a namespace is a complete record, named by its key, or a temporary file. The map
of a file system is the contents of its records; making, filling and unlinking a temporary
file leaves it, and so does a crash, since a record is synced. -/
namespace WolfMqtt.Persist.Posix

/-! ### Names -/

theorem hexValue_hexDigit {n : Nat} (h : n < 16) : hexValue (hexDigit n) = some n := by
  have hall : ∀ i : Fin 16, hexValue (hexDigit i) = some i.val := by decide
  exact hall ⟨n, h⟩

theorem hexDigit_ne_dot {n : Nat} (h : n < 16) : hexDigit n ≠ '.' := by
  have hall : ∀ i : Fin 16, hexDigit i ≠ '.' := by decide
  exact hall ⟨n, h⟩

theorem length_hexEncode (key : Bytes) : (hexEncode key).length = 2 * key.length := by
  induction key with
  | nil => rfl
  | cons b bs ih =>
    rw [hexEncode, List.length_cons, List.length_cons, ih, List.length_cons]
    omega

theorem hexPairs_hexEncode (key : Bytes) : hexPairs (hexEncode key) = some key := by
  induction key with
  | nil => rfl
  | cons b bs ih =>
    have hb : b.toNat < 256 := b.toNat_lt
    have hsplit : b.toNat / 16 * 16 + b.toNat % 16 = b.toNat := Nat.div_add_mod' _ _
    rw [hexEncode, hexPairs, hexValue_hexDigit (by omega), hexValue_hexDigit (by omega), ih]
    show some (UInt8.ofNat (b.toNat / 16 * 16 + b.toNat % 16) :: bs) = _
    rw [hsplit, UInt8.ofNat_toNat]

theorem hexEncode_injective : Function.Injective hexEncode := by
  intro key key' h
  have hpairs : hexPairs (hexEncode key) = hexPairs (hexEncode key') := by rw [h]
  rw [hexPairs_hexEncode, hexPairs_hexEncode] at hpairs
  exact Option.some.inj hpairs

theorem hexDecode_hexEncode {key : Bytes} (h : key.length ≤ keyMax) : hexDecode (hexEncode key) = some key := by
  have hmax : keyMax = 256 := rfl
  have hlen := length_hexEncode key
  rw [hexDecode, if_neg (by omega), if_neg (by omega), hexPairs_hexEncode]

/-- Two keys never share a record. -/
theorem recName_injective : Function.Injective recName := fun _ _ h =>
  hexEncode_injective (List.append_cancel_right h)

theorem length_recName (key : Bytes) : (recName key).length = 2 * key.length + 4 := by
  rw [recName, List.length_append, length_hexEncode]
  rfl

theorem length_tmpName (key : Bytes) : (tmpName key).length = 2 * key.length + 8 := by
  rw [tmpName, List.length_append, length_recName]
  rfl

/-- The last four characters tell a record from a temporary file. -/
theorem recName_ne_tmpName (key key' : Bytes) : recName key ≠ tmpName key' := by
  intro h
  have hends : dotBin = dotTmp := (List.append_inj' h rfl).2
  exact absurd hends (by decide)

theorem recordKey_recName {key : Bytes} (hpos : 1 ≤ key.length) (hmax : key.length ≤ keyMax) :
    recordKey (recName key) = some key := by
  have hkeyMax : keyMax = 256 := rfl
  have hlen := length_recName key
  have hhead : (recName key).head? ≠ some '.' := by
    obtain ⟨b, bs, rfl⟩ := List.exists_cons_of_length_pos hpos
    have hb : b.toNat < 256 := b.toNat_lt
    intro h
    exact hexDigit_ne_dot (by omega) (Option.some.inj h)
  have hat : (recName key).length - 4 = (hexEncode key).length := by
    rw [hlen, length_hexEncode]
    omega
  rw [recordKey, if_neg hhead, if_neg (by omega), hat, recName, List.drop_left, if_neg (by simp),
    if_neg (by rw [length_hexEncode]; omega), List.take_left, hexDecode_hexEncode hmax]

theorem recordKey_tmpName (key : Bytes) : recordKey (tmpName key) = none := by
  have hat : (tmpName key).length - 4 = (recName key).length := by
    rw [length_tmpName, length_recName]
    omega
  rw [recordKey]
  split
  · rfl
  · split
    · rfl
    · rw [hat, tmpName, List.drop_left, if_pos (by decide)]

/-! ### The file system -/

theorem Fs.file_setFiles (fs : Fs) (ns ns' : UInt8) (name : Name) (f) :
    (fs.setFiles ns f).file ns' name =
      if ns' = ns then (fs ns).bind (fun d => (f d.files).lookup name) else fs.file ns' name := by
  rw [Fs.file, Fs.setFiles]
  by_cases h : ns' = ns
  · rw [if_pos h, h, Function.update_self]
    cases fs ns <;> rfl
  · rw [if_neg h, Function.update_of_ne h, Fs.file]

theorem Fs.file_insert {fs : Fs} {ns : UInt8} (hd : (fs ns).isSome) (ns' : UInt8) (name name' : Name) (f : File) :
    (fs.setFiles ns (·.insert name f)).file ns' name' =
      if ns' = ns ∧ name' = name then some f else fs.file ns' name' := by
  obtain ⟨d, hd⟩ := Option.isSome_iff_exists.mp hd
  rw [file_setFiles]
  by_cases hns : ns' = ns
  · rw [if_pos hns, hd]
    by_cases hname : name' = name
    · rw [if_pos ⟨hns, hname⟩, hname]
      exact AList.lookup_insert _
    · rw [if_neg (fun h => hname h.2), hns, Fs.file, hd]
      exact AList.lookup_insert_ne hname
  · rw [if_neg hns, if_neg (fun h => hns h.1)]

theorem Fs.file_erase (fs : Fs) (ns ns' : UInt8) (name name' : Name) :
    (fs.setFiles ns (·.erase name)).file ns' name' =
      if ns' = ns ∧ name' = name then none else fs.file ns' name' := by
  rw [file_setFiles]
  by_cases hns : ns' = ns
  · rw [if_pos hns]
    by_cases hname : name' = name
    · rw [if_pos ⟨hns, hname⟩, hname]
      cases fs ns with
      | none => rfl
      | some d => exact AList.lookup_erase _ _
    · rw [if_neg (fun h => hname h.2), hns, Fs.file]
      cases fs ns with
      | none => rfl
      | some d => exact AList.lookup_erase_ne hname
  · rw [if_neg hns, if_neg (fun h => hns h.1)]

theorem Fs.isSome_of_file {fs : Fs} {ns : UInt8} {name : Name} {f : File} (h : fs.file ns name = some f) :
    (fs ns).isSome := by
  rw [Fs.file] at h
  cases hd : fs ns with
  | none => rw [hd] at h; cases h
  | some d => rfl

theorem Fs.isSome_setFiles (fs : Fs) (ns ns' : UInt8) (f) : (fs.setFiles ns f ns').isSome = (fs ns').isSome := by
  rw [Fs.setFiles]
  by_cases h : ns' = ns
  · rw [h, Function.update_self, Option.isSome_map]
  · rw [Function.update_of_ne h]

/-- What a crash leaves of a file system. -/
def Fs.lose (lost : Bytes → Bytes) (fs : Fs) : Fs := fun ns => (fs ns).map (Dir.lose lost)

theorem Fs.file_lose (lost : Bytes → Bytes) (fs : Fs) (ns : UInt8) (name : Name) :
    (fs.lose lost).file ns name = (fs.file ns name).map (File.lose lost) := by
  rw [Fs.file, Fs.file, Fs.lose]
  cases fs ns with
  | none => rfl
  | some d => exact List.dlookup_map₂ (f := fun _ => File.lose lost) name

/-! ### The map a file system holds -/

/-- The blobs by namespace and key. -/
abbrev Map := UInt8 → Bytes → Option Bytes

def Map.set (m : Map) (ns : UInt8) (key : Bytes) (v : Option Bytes) : Map := fun ns' key' =>
  if ns' = ns ∧ key' = key then v else m ns' key'

def stored (fs : Fs) : Map := fun ns key => (fs.file ns (recName key)).map File.data

/-- A file as `wmqb_posix_put` makes it. -/
def File.Mine (f : File) : Prop := f.single = true ∧ f.othersWrite = false

/-- A complete record. -/
structure IsRecord (name : Name) (f : File) (key : Bytes) : Prop where
  named : name = recName key
  keyPos : 1 ≤ key.length
  keyMax : key.length ≤ keyMax
  synced : f.synced = true
  dataPos : 1 ≤ f.data.length
  dataMax : f.data.length ≤ recordMax

/-- The directories are the broker's, and a file in one is a complete record or a temporary file. -/
structure Valid (fs : Fs) : Prop where
  dirs : ∀ ns d, fs ns = some d → d.owned = true ∧ d.othersWrite = false
  files : ∀ ns name f, fs.file ns name = some f →
    f.Mine ∧ ((∃ key, IsRecord name f key) ∨ ∃ key, name = tmpName key)

/-- The file system is valid and holds the map `m`. -/
structure At (m : Map) (fs : Fs) : Prop where
  valid : Valid fs
  stored : stored fs = m

theorem at_freshFs : At (fun _ _ => none) freshFs := by
  refine ⟨⟨?_, ?_⟩, rfl⟩
  · intro ns d h
    cases h
  · intro ns name f h
    cases h

namespace Valid
variable {fs : Fs} {ns : UInt8}

theorem setFiles_dirs (h : Valid fs) {f} (ns' : UInt8) (d : Dir) (hd : fs.setFiles ns f ns' = some d) :
    d.owned = true ∧ d.othersWrite = false := by
  rw [Fs.setFiles] at hd
  by_cases hns : ns' = ns
  · rw [hns, Function.update_self] at hd
    obtain ⟨d₀, hd₀, rfl⟩ := Option.map_eq_some_iff.mp hd
    exact h.dirs ns d₀ hd₀
  · rw [Function.update_of_ne hns] at hd
    exact h.dirs ns' d hd

theorem insert (h : Valid fs) (hd : (fs ns).isSome) {name : Name} {f : File} (hf : f.Mine)
    (hname : (∃ key, IsRecord name f key) ∨ ∃ key, name = tmpName key) :
    Valid (fs.setFiles ns (·.insert name f)) := by
  refine ⟨h.setFiles_dirs, ?_⟩
  intro ns' name' f' hf'
  rw [Fs.file_insert hd] at hf'
  split at hf'
  case isTrue heq =>
    obtain rfl := Option.some.inj hf'
    rw [heq.2]
    exact ⟨hf, hname⟩
  case isFalse => exact h.files ns' name' f' hf'

theorem erase (h : Valid fs) (name : Name) : Valid (fs.setFiles ns (·.erase name)) := by
  refine ⟨h.setFiles_dirs, ?_⟩
  intro ns' name' f' hf'
  rw [Fs.file_erase] at hf'
  split at hf'
  case isTrue => cases hf'
  case isFalse => exact h.files ns' name' f' hf'

end Valid

namespace At
variable {m : Map} {fs : Fs} {ns : UInt8} {key : Bytes}

/-- Writing a temporary file leaves the map. -/
theorem insertTmp (h : At m fs) (hd : (fs ns).isSome) {f : File} (hf : f.Mine) :
    At m (fs.setFiles ns (·.insert (tmpName key) f)) := by
  refine ⟨h.valid.insert hd hf (.inr ⟨key, rfl⟩), ?_⟩
  rw [← h.stored]
  funext ns' key'
  rw [Posix.stored, Posix.stored, Fs.file_insert hd, if_neg (fun heq => recName_ne_tmpName _ _ heq.2)]

theorem eraseTmp (h : At m fs) : At m (fs.setFiles ns (·.erase (tmpName key))) := by
  refine ⟨h.valid.erase _, ?_⟩
  rw [← h.stored]
  funext ns' key'
  rw [Posix.stored, Posix.stored, Fs.file_erase, if_neg (fun heq => recName_ne_tmpName _ _ heq.2)]

theorem eraseRecord (h : At m fs) : At (m.set ns key none) (fs.setFiles ns (·.erase (recName key))) := by
  refine ⟨h.valid.erase _, ?_⟩
  rw [← h.stored]
  funext ns' key'
  rw [Posix.stored, Fs.file_erase, Map.set]
  by_cases heq : ns' = ns ∧ key' = key
  · rw [if_pos heq, if_pos ⟨heq.1, by rw [heq.2]⟩]
    rfl
  · rw [if_neg heq, if_neg (fun hn => heq ⟨hn.1, recName_injective hn.2⟩)]
    rfl

/-- The rename makes the temporary file the record. -/
theorem rename (h : At m fs) {f : File} (hfile : fs.file ns (tmpName key) = some f)
    (hrec : IsRecord (recName key) f key) :
    At (m.set ns key (some f.data))
      (fs.setFiles ns fun files => (files.erase (tmpName key)).insert (recName key) f) := by
  have hd : (fs ns).isSome := Fs.isSome_of_file hfile
  have htwo : (fs.setFiles ns fun files => (files.erase (tmpName key)).insert (recName key) f) =
      (fs.setFiles ns (·.erase (tmpName key))).setFiles ns (·.insert (recName key) f) := by
    rw [Fs.setFiles, Fs.setFiles, Fs.setFiles, Function.update_idem, Function.update_self, Option.map_map]
    rfl
  have herased : At m (fs.setFiles ns (·.erase (tmpName key))) := h.eraseTmp
  have hd' : (fs.setFiles ns (·.erase (tmpName key)) ns).isSome := by
    rw [Fs.isSome_setFiles]
    exact hd
  have hmine : f.Mine := (h.valid.files ns _ f hfile).1
  rw [htwo]
  refine ⟨herased.valid.insert hd' hmine (.inl ⟨key, hrec⟩), ?_⟩
  rw [← herased.stored]
  funext ns' key'
  rw [Posix.stored, Fs.file_insert hd', Map.set]
  by_cases heq : ns' = ns ∧ key' = key
  · rw [if_pos heq, if_pos ⟨heq.1, by rw [heq.2]⟩]
    rfl
  · rw [if_neg heq, if_neg (fun hn => heq ⟨hn.1, recName_injective hn.2⟩)]
    rfl

theorem mkdir (h : At m fs) : At m (Function.update fs ns (some ((fs ns).getD {}))) := by
  have hfile : ∀ ns' name, Fs.file (Function.update fs ns (some ((fs ns).getD {}))) ns' name = fs.file ns' name := by
    intro ns' name
    rw [Fs.file, Fs.file]
    by_cases hns : ns' = ns
    · rw [hns, Function.update_self]
      cases fs ns <;> rfl
    · rw [Function.update_of_ne hns]
  refine ⟨⟨?_, ?_⟩, ?_⟩
  · intro ns' d hd
    by_cases hns : ns' = ns
    · rw [hns, Function.update_self] at hd
      obtain rfl := Option.some.inj hd
      cases hfs : fs ns with
      | none => exact ⟨rfl, rfl⟩
      | some d => exact h.valid.dirs ns d hfs
    · rw [Function.update_of_ne hns] at hd
      exact h.valid.dirs ns' d hd
  · intro ns' name f hf
    rw [hfile] at hf
    exact h.valid.files ns' name f hf
  · rw [← h.stored]
    funext ns' key'
    rw [Posix.stored, Posix.stored, hfile]

/-- A record is synced, so a crash leaves it. -/
theorem lose (h : At m fs) (lost : Bytes → Bytes) : At m (fs.lose lost) := by
  refine ⟨⟨?_, ?_⟩, ?_⟩
  · intro ns d hd
    obtain ⟨d₀, hd₀, rfl⟩ := Option.map_eq_some_iff.mp hd
    exact h.valid.dirs ns d₀ hd₀
  · intro ns name f hf
    rw [Fs.file_lose] at hf
    obtain ⟨f₀, hf₀, rfl⟩ := Option.map_eq_some_iff.mp hf
    obtain ⟨hmine, hkind⟩ := h.valid.files ns name f₀ hf₀
    refine ⟨?_, ?_⟩
    · rw [File.lose]
      split <;> exact hmine
    · rcases hkind with ⟨key, hrec⟩ | htmp
      · rw [File.lose, if_pos hrec.synced]
        exact .inl ⟨key, hrec⟩
      · exact .inr htmp
  · rw [← h.stored]
    funext ns key
    rw [Posix.stored, Posix.stored, Fs.file_lose]
    cases hf : fs.file ns (recName key) with
    | none => rfl
    | some f =>
      rcases (h.valid.files ns _ f hf).2 with ⟨key', hrec⟩ | ⟨key', htmp⟩
      · rw [Option.map_some, Option.map_some, Option.map_some, File.lose, if_pos hrec.synced]
      · exact absurd htmp (recName_ne_tmpName key key')

end At

end WolfMqtt.Persist.Posix
