import WolfMqtt.Persist.Calls

/-! The POSIX backend is a map that a crash cannot tear.

`kv_iter` reports what the map holds, and every run of the hooks, with any answers of the
file system and crashes anywhere, is a run of a map: as long as the temporary names are
not too long. -/
namespace WolfMqtt.Persist.Posix

open Crash

/-! ### `kv_iter` -/

/-- What the listing of one name has to report. -/
def listed (m : Map) (ns : UInt8) (name : Name) : Option (Bytes × Bytes) :=
  (recordKey name).bind fun key => if name = recName key then (m ns key).map fun blob => (key, blob) else none

theorem listed_eq_some {m : Map} {ns : UInt8} {name : Name} {p : Bytes × Bytes} (h : listed m ns name = some p) :
    name = recName p.1 ∧ m ns p.1 = some p.2 := by
  obtain ⟨key, -, hkey⟩ := Option.bind_eq_some_iff.mp h
  split at hkey
  case isTrue hname =>
    obtain ⟨blob, hblob, rfl⟩ := Option.map_eq_some_iff.mp hkey
    exact ⟨hname, hblob⟩
  case isFalse => cases hkey

/-- A name that reads as a record is the name of that record. -/
def Proper (name : Name) : Prop := ∀ key, recordKey name = some key → name = recName key

theorem Valid.proper {fs : Fs} (h : Valid fs) {ns : UInt8} {name : Name} {f : File}
    (hf : fs.file ns name = some f) : Proper name := by
  intro key hkey
  rcases (h.files ns name f hf).2 with ⟨key', hrec⟩ | ⟨key', rfl⟩
  · rw [hrec.named, recordKey_recName hrec.keyPos hrec.keyMax] at hkey
    rw [hrec.named, Option.some.inj hkey]
  · rw [recordKey_tmpName] at hkey
    cases hkey

/-- The reports are stored blobs, each key once. -/
structure Reported (m : Map) (ns : UInt8) (reports : Reports) : Prop where
  nodup : (reports.map Prod.fst).Nodup
  stored : ∀ p ∈ reports, m ns p.1 = some p.2

theorem reported_listed (m : Map) (ns : UInt8) {names : List Name} (h : names.Nodup) {reports : Reports}
    (hsub : reports.Sublist (names.filterMap (listed m ns))) : Reported m ns reports := by
  have hinj : ∀ a a' key, key ∈ (listed m ns a).map Prod.fst → key ∈ (listed m ns a').map Prod.fst → a = a' := by
    intro a a' key ha ha'
    obtain ⟨p, hp, rfl⟩ := Option.map_eq_some_iff.mp ha
    obtain ⟨p', hp', hkey⟩ := Option.map_eq_some_iff.mp ha'
    rw [(listed_eq_some hp).1, (listed_eq_some hp').1, hkey]
  have hall : ((names.filterMap (listed m ns)).map Prod.fst).Nodup := by
    rw [List.map_filterMap]
    exact h.filterMap hinj
  refine ⟨hall.sublist (hsub.map _), fun p hp => ?_⟩
  obtain ⟨name, -, hname⟩ := List.mem_filterMap.mp (hsub.subset hp)
  exact (listed_eq_some hname).2

section Iter
variable {b : Prop} {k : Nat} {C : Fs → Reports → Prop} {m : Map} {r : Reports} {P : Fs → Prop}

theorem readAll_spec (hC : Safe m r C) (left : Bytes) (eintrCount : Nat) (hcount : eintrCount + k ≤ eintrMax) :
    Triple (Holds b k (On m r P)) (readAll left eintrCount)
      (fun blob => Holds b k (On m r fun fs => P fs ∧ blob <+: left ∧ (b → blob = left))) (CutOff b C) := by
  induction hn : left.length + (eintrMax - eintrCount) using Nat.strong_induction_on
    generalizing left eintrCount k with
  | _ n ih =>
    rw [readAll]
    refine .ite ?_ ?_
    · intro hnil
      rw [List.length_eq_zero_iff.mp hnil]
      exact ret_spec _ fun fs r' h => ⟨h.1, h.2.1, h.2.2, List.prefix_rfl, fun _ => rfl⟩
    · intro hne
      have hall : ∀ a, Triple (fun s => Holds b k (On m r P) s ∧
          (b → Answer.Calm a ∧ (a = .intr → 0 < k ∧ Calm (k - 1) s.script))) (pure left : Io Bytes)
          (fun blob => Holds b k (On m r fun fs => P fs ∧ blob <+: left ∧ (b → blob = left))) (CutOff b C) := by
        intro a
        refine .ret _ ?_
        rintro s ⟨⟨⟨hat, hr, hP⟩, hcalm⟩, -⟩
        exact ⟨⟨hat, hr, hP, List.prefix_rfl, fun _ => rfl⟩, hcalm⟩
      have hnone : ∀ a : Answer, (∀ j script, j ≤ k → a.Calm → (a = .intr → 0 < j ∧ Calm (j - 1) script) → False) →
          Triple (fun s => Holds b k (On m r P) s ∧
            (b → a.Calm ∧ (a = .intr → 0 < k ∧ Calm (k - 1) s.script))) (pure [] : Io Bytes)
          (fun blob => Holds b k (On m r fun fs => P fs ∧ blob <+: left ∧ (b → blob = left))) (CutOff b C) := by
        intro a ha
        refine .ret _ ?_
        rintro s ⟨⟨⟨hat, hr, hP⟩, hcalm⟩, hb⟩
        exact ⟨⟨hat, hr, hP, List.nil_prefix, fun h => (ha k _ le_rfl (hb h).1 (hb h).2).elim⟩, hcalm⟩
      refine (ask_spec (hC.cut P)).bind ?_
      intro a
      cases a with
      | ok => exact hall .ok
      | crash lost => exact hall (.crash lost)
      | fail => exact hnone .fail fun _ _ _ h _ => h
      | intr =>
        refine .ite ?_ ?_
        · intro hlt
          have hstep := ih (left.length + (eintrMax - (eintrCount + 1))) (by omega) left (eintrCount + 1)
            (k := k - 1) (by omega) rfl
          refine hstep.conseq ?_ ?_ fun _ h => h
          · rintro s ⟨hs, hcalm⟩
            exact ⟨hs.1, fun hb => ((hcalm hb).2 rfl).2⟩
          · exact fun blob s hs => ⟨hs.1, fun hb => (hs.2 hb).mono (Nat.sub_le _ _)⟩
        · intro hstop
          refine hnone .intr fun j script hj _ h => ?_
          have := (h rfl).1
          omega
      | short n =>
        refine .ite ?_ ?_
        · rintro rfl
          exact hnone (.short 0) fun _ _ _ h _ => Nat.lt_irrefl 0 h
        · intro hn0
          have hlen : (left.drop n).length + (eintrMax - eintrCount) < left.length + (eintrMax - eintrCount) := by
            rw [List.length_drop]
            omega
          have hstep := ih _ (hn ▸ hlen) (left.drop n) eintrCount (k := k) hcount rfl
          refine Triple.bind (hstep.weaken fun s hs => hs.1) fun rest => ret_spec _ ?_
          rintro fs r' ⟨hat, hr, hP, hpre, hb⟩
          refine ⟨hat, hr, hP, ?_, fun h => ?_⟩
          · have hpre' := (List.prefix_append_right_inj (left.take n)).mpr hpre
            rwa [List.take_append_drop] at hpre'
          · rw [hb h, List.take_append_drop]

/-- What one round of the listing leaves: the name's report was added, or a call failed. -/
def Listed (b : Prop) (m : Map) (r : Reports) (entries : Reports) (fs : Fs) (r' : Reports) : Prop :=
  At m fs ∧ ∃ more, r' = r ++ more ∧ more.Sublist entries ∧ (b → more = entries)

theorem Listed.skipped {entries : Reports} {fs : Fs} {r' : Reports} (h : On m r (fun _ => b → entries = []) fs r') :
    Listed b m r entries fs r' := by
  obtain ⟨hat, rfl, hb⟩ := h
  exact ⟨hat, [], (List.append_nil _).symm, List.nil_sublist _, fun h => (hb h).symm⟩

theorem listed_of_recordKey {ns : UInt8} {name : Name} (hproper : Proper name) {key : Bytes}
    (hkey : recordKey name = some key) {fs : Fs} (hat : At m fs) :
    listed m ns name = (fs.file ns name).map fun f => (key, f.data) := by
  rw [listed, hkey, Option.bind_some, if_pos (hproper key hkey), ← hat.stored, stored, Option.map_map,
    ← hproper key hkey]
  rfl

theorem iterEntry_spec (hC : Safe m r C) {ns : UInt8} {stop : Bytes → Bytes → Bool} {name : Name}
    (hproper : Proper name) :
    Triple (Holds b eintrMax (On m r fun _ => True)) (iterEntry ns stop name)
      (fun out => Holds b eintrMax fun fs r' => Listed b m r (listed m ns name).toList fs r' ∧
        (b → (∀ key blob, stop key blob = false) → out = none)) (CutOff b C) := by
  rw [iterEntry]
  cases hkey : recordKey name with
  | none =>
    refine ret_spec _ ?_
    rintro fs r' ⟨hat, hr, -⟩
    refine ⟨Listed.skipped ⟨hat, hr, fun _ => ?_⟩, fun _ _ => rfl⟩
    rw [listed, hkey]
    rfl
  | some key =>
    have hlisted : ∀ fs, At m fs → listed m ns name = (fs.file ns name).map fun f => (key, f.data) :=
      fun fs hat => listed_of_recordKey hproper hkey hat
    refine guarded_spec (hC.cut _) ?_ ?_
    · rintro fs r' ⟨hat, hr, -⟩ hb
      exact ⟨Listed.skipped ⟨hat, hr, fun h => absurd h hb⟩, fun _ _ => rfl⟩
    refine (stat_spec hC ns name).bind ?_
    rintro (_ | f)
    · refine (ignored_spec (hC.cut _)).bind fun _ => ret_spec _ ?_
      rintro fs r' ⟨hat, hr, -, -, hfound⟩
      refine ⟨Listed.skipped ⟨hat, hr, fun h => ?_⟩, fun _ _ => rfl⟩
      rw [hlisted fs hat, ← hfound h]
      rfl
    refine .ite ?_ fun _ => ?_
    · intro hrefused
      refine fun s hs => absurd hrefused ?_
      obtain ⟨⟨hat, -, -, hfile, -⟩, -⟩ := hs
      obtain ⟨hmine, hkind⟩ := hat.valid.files ns name f (hfile f rfl)
      obtain ⟨key', hrec⟩ : ∃ key, IsRecord name f key := by
        refine hkind.resolve_right ?_
        rintro ⟨key', rfl⟩
        rw [recordKey_tmpName] at hkey
        cases hkey
      have hsingle : f.regular = true ∧ f.owned = true := by
        have h := hmine.1
        rw [File.single, Bool.and_eq_true, Bool.and_eq_true] at h
        exact h.1
      have hpos := hrec.dataPos
      have hmax := hrec.dataMax
      have hne : f.data ≠ [] := List.length_pos_iff.mp hpos
      simp [hsingle, hne, hmax]
    refine (call_spec (hC.cut _)).bind fun ok => .ite ?_ fun _ => ?_
    · intro hno
      have hok : ok = false := by simpa using hno
      refine (ignored_spec ?_).bind fun _ => ret_spec _ ?_
      · rintro fs r' lost ⟨⟨hat, rfl, -⟩, -⟩
        exact hC _ (hat.lose lost)
      · rintro fs r' ⟨⟨hat, hr, -⟩, hb⟩
        have hnb : ¬b := fun h => absurd (hb h) (by rw [hok]; decide)
        exact ⟨Listed.skipped ⟨hat, hr, fun h => absurd h hnb⟩, fun h => absurd h hnb⟩
    refine Triple.bind ((readAll_spec (P := fun fs => fs.file ns name = some f) (k := eintrMax) hC f.data 0
      (Nat.le_of_eq (Nat.zero_add _))).weaken fun s hs => ⟨⟨hs.1.1.1, hs.1.1.2.1, hs.1.1.2.2.2.1 f rfl⟩, hs.2⟩) ?_
    intro blob
    refine (ignored_spec (hC.cut _)).bind fun _ => .ite ?_ ?_
    · intro hshort
      refine ret_spec _ ?_
      rintro fs r' ⟨hat, hr, -, -, hb⟩
      exact ⟨Listed.skipped ⟨hat, hr, fun h => absurd (by rw [hb h]) hshort⟩, fun _ _ => rfl⟩
    · intro hlen
      rw [not_not] at hlen
      have hreport : Triple (Holds b eintrMax (On m r fun fs =>
          fs.file ns name = some f ∧ blob <+: f.data ∧ (b → blob = f.data))) (report key blob)
          (fun _ => Holds b eintrMax (Listed b m r (listed m ns name).toList)) (CutOff b C) := by
        refine act_spec ?_
        rintro s ⟨hat, hr, hfile, hpre, -⟩
        have hentries : (listed m ns name).toList = [(key, blob)] := by
          rw [hlisted s.fs hat, hfile, hpre.eq_of_length hlen]
          rfl
        refine ⟨rfl, hat, [(key, blob)], ?_, ?_, fun _ => hentries.symm⟩
        · show s.reported ++ [(key, blob)] = _
          rw [hr]
        · rw [hentries]
      refine hreport.bind fun _ => ret_spec _ ?_
      intro fs r' h
      refine ⟨h, fun _ hnever => ?_⟩
      rw [hnever key blob]
      rfl

/-- What the whole loop leaves. -/
theorem iterEntries_spec {ns : UInt8} {stop : Bytes → Bytes → Bool} {names : List Name}
    (hproper : ∀ name ∈ names, Proper name)
    (hC : ∀ more, more.Sublist (names.filterMap (listed m ns)) → Safe m (r ++ more) C) :
    Triple (Holds b eintrMax (On m r fun _ => True)) (iterEntries ns stop names)
      (fun _ => Holds b eintrMax fun fs r' => At m fs ∧ ∃ more, r' = r ++ more ∧
        more.Sublist (names.filterMap (listed m ns)) ∧
        (b → (∀ key blob, stop key blob = false) → more = names.filterMap (listed m ns))) (CutOff b C) := by
  induction names generalizing r with
  | nil =>
    refine ret_spec _ ?_
    rintro fs r' ⟨hat, rfl, -⟩
    exact ⟨hat, [], (List.append_nil _).symm, List.nil_sublist _, fun _ _ => rfl⟩
  | cons name names ih =>
    have hcons : (name :: names).filterMap (listed m ns) =
        (listed m ns name).toList ++ names.filterMap (listed m ns) := by
      rw [List.filterMap_cons]
      cases listed m ns name <;> rfl
    rw [hcons] at hC ⊢
    have hsafe : Safe m r C := by
      have h := hC [] (List.nil_sublist _)
      rwa [List.append_nil] at h
    refine guarded_spec (hsafe.cut _) ?_ ?_
    · rintro fs r' ⟨hat, rfl, -⟩ hb
      exact ⟨hat, [], (List.append_nil _).symm, List.nil_sublist _, fun h => absurd h hb⟩
    refine (iterEntry_spec hsafe (hproper name List.mem_cons_self)).bind ?_
    rintro (_ | rc) s ⟨⟨⟨hat, more₀, hr, hsub, hall⟩, hgoes⟩, hcalm⟩
    · have hrest := ih (r := r ++ more₀) (fun name hname => hproper name (List.mem_cons_of_mem _ hname)) ?_
      · refine hrest.conseq (fun _ h => h) ?_ (fun _ h => h) s ⟨⟨hat, hr, trivial⟩, hcalm⟩
        rintro rc s' ⟨⟨hat', more, hr', hsub', hall'⟩, hcalm'⟩
        refine ⟨⟨hat', more₀ ++ more, ?_, hsub.append hsub', fun hb hnever => ?_⟩, hcalm'⟩
        · rw [hr', List.append_assoc]
        · rw [hall hb, hall' hb hnever]
      · intro more hmore
        rw [List.append_assoc]
        exact hC _ (hsub.append hmore)
    · refine ⟨⟨hat, more₀, hr, hsub.trans (List.sublist_append_left _ _), fun hb hnever => ?_⟩, hcalm⟩
      cases hgoes hb hnever

theorem Listing.mem_order (L : Listing) {names : List Name} {name : Name} :
    name ∈ L.order names ↔ name = ['.'] ∨ name = ['.', '.'] ∨ name ∈ names := by
  rw [(L.order_perm names).mem_iff, List.mem_cons, List.mem_cons]

theorem Fs.mem_keys {fs : Fs} {ns : UInt8} {d : Dir} (hd : fs ns = some d) {name : Name} :
    name ∈ d.files.keys ↔ (fs.file ns name).isSome := by
  rw [Fs.file, hd, Option.bind_some, AList.lookup_isSome, AList.mem_keys]

/-- A listing of a valid directory: the names are proper, each is there once, and every record has one. -/
theorem Valid.listing {fs : Fs} (h : Valid fs) (L : Listing) {ns : UInt8} {d : Dir} (hd : fs ns = some d) :
    (∀ name ∈ L.order d.files.keys, Proper name) ∧ (L.order d.files.keys).Nodup := by
  have hfile : ∀ name ∈ d.files.keys, ∃ f, fs.file ns name = some f := fun name hname =>
    Option.isSome_iff_exists.mp ((Fs.mem_keys hd).mp hname)
  have hdots : recordKey ['.'] = none ∧ recordKey ['.', '.'] = none := ⟨rfl, rfl⟩
  -- neither a record nor a temporary file starts with a dot
  have hlong : ∀ name ∈ d.files.keys, 3 ≤ name.length := by
    intro name hname
    obtain ⟨f, hf⟩ := hfile name hname
    rcases (h.files ns name f hf).2 with ⟨key, hrec⟩ | ⟨key, rfl⟩
    · rw [hrec.named, length_recName]
      omega
    · rw [length_tmpName]
      omega
  refine ⟨fun name hname => ?_, (L.order_perm _).nodup_iff.mpr ?_⟩
  · rcases L.mem_order.mp hname with rfl | rfl | hname
    · intro key hkey
      rw [hdots.1] at hkey
      cases hkey
    · intro key hkey
      rw [hdots.2] at hkey
      cases hkey
    · obtain ⟨f, hf⟩ := hfile name hname
      exact h.proper hf
  · refine List.nodup_cons.mpr ⟨?_, List.nodup_cons.mpr ⟨fun hmem => ?_, d.files.keys_nodup⟩⟩
    · rintro (_ | ⟨_, hmem⟩)
      exact absurd (hlong _ hmem) (by decide)
    · exact absurd (hlong _ hmem) (by decide)

theorem mem_listed {fs : Fs} (hat : At m fs) (L : Listing) {ns : UInt8} {d : Dir} (hd : fs ns = some d)
    {key blob : Bytes} (hblob : m ns key = some blob) :
    (key, blob) ∈ (L.order d.files.keys).filterMap (listed m ns) := by
  have hstored : stored fs ns key = some blob := by rw [hat.stored, hblob]
  obtain ⟨f, hf, -⟩ := Option.map_eq_some_iff.mp hstored
  refine List.mem_filterMap.mpr ⟨recName key, L.mem_order.mpr (.inr (.inr ?_)), ?_⟩
  · rw [Fs.mem_keys hd, hf]
    rfl
  · rcases (hat.valid.files ns _ f hf).2 with ⟨key', hrec⟩ | ⟨key', htmp⟩
    · obtain rfl := recName_injective hrec.named
      rw [listed, recordKey_recName hrec.keyPos hrec.keyMax, Option.bind_some, if_pos rfl, hblob]
      rfl
    · exact absurd htmp (recName_ne_tmpName key key')

/-- What `kv_iter` leaves when it returns. -/
def Iterated (b : Prop) (m : Map) (ns : UInt8) (stop : Bytes → Bytes → Bool) (fs : Fs) (r' : Reports) : Prop :=
  At m fs ∧ Reported m ns r' ∧
    (b → (∀ key blob, stop key blob = false) → ∀ key blob, m ns key = some blob → (key, blob) ∈ r')

theorem reported_nil (m : Map) (ns : UInt8) : Reported m ns [] := ⟨List.nodup_nil, nofun⟩

theorem posixIter_spec (L : Listing) (ns : UInt8) (stop : Bytes → Bytes → Bool) :
    Triple (Holds b eintrMax (On m [] fun _ => True)) (posixIter L ns stop)
      (fun _ => Holds b eintrMax (Iterated b m ns stop))
      (CutOff b fun fs r' => At m fs ∧ Reported m ns r') := by
  have hC : Safe m [] (fun fs r' => At m fs ∧ Reported m ns r') := fun fs hat => ⟨hat, reported_nil m ns⟩
  have hfailed : ∀ fs r', On m [] (fun _ => ¬b) fs r' → Iterated b m ns stop fs r' := by
    rintro fs r' ⟨hat, rfl, hb⟩
    exact ⟨hat, reported_nil m ns, fun h => absurd h hb⟩
  refine (openNs_spec hC ns false).bind fun rc => .ite ?_ fun hfound => .ite ?_ fun hrc => ?_
  · rintro rfl
    refine ret_spec _ ?_
    rintro fs r' ⟨hat, rfl, -, hnone, -⟩
    refine ⟨hat, reported_nil m ns, fun _ _ key blob hblob => ?_⟩
    rw [← hat.stored, stored, Fs.file, hnone rfl] at hblob
    cases hblob
  · intro hrc
    refine ret_spec _ ?_
    rintro fs r' ⟨hat, hr, -, -, hb⟩
    refine hfailed fs r' ⟨hat, hr, fun h => ?_⟩
    exact (hb h).elim hrc (fun h => hfound h.2)
  rw [not_not] at hrc
  subst hrc
  refine (call_spec (hC.cut _)).bind fun ok => .ite ?_ fun _ => ?_
  · intro hno
    refine (ignored_spec ?_).bind fun _ => ret_spec _ ?_
    · rintro fs r' lost ⟨⟨hat, rfl, -⟩, -⟩
      exact hC _ (hat.lose lost)
    · rintro fs r' ⟨⟨hat, hr, -⟩, hb⟩
      refine hfailed fs r' ⟨hat, hr, fun h => ?_⟩
      rw [hb h] at hno
      cases hno
  refine Triple.bind (act_spec (Q := fun names fs r' => On m [] (fun fs =>
    ∃ d, fs ns = some d ∧ names = d.files.keys) fs r') ?_) ?_
  · rintro s ⟨⟨hat, hr, hopen, -⟩, -⟩
    obtain ⟨d, hd⟩ := Option.isSome_iff_exists.mp (hopen rfl)
    refine ⟨rfl, hat, hr, d, hd, ?_⟩
    dsimp only
    rw [hd]
    rfl
  rintro names s ⟨⟨hat, hr, d, hd, rfl⟩, hcalm⟩
  obtain ⟨hproper, hnodup⟩ := hat.valid.listing L hd
  have hsafe : ∀ more : Reports, more.Sublist ((L.order d.files.keys).filterMap (listed m ns)) →
      Safe m ([] ++ more) (fun fs r' => At m fs ∧ Reported m ns r') :=
    fun more hmore fs hat => ⟨hat, reported_listed m ns hnodup hmore⟩
  have hloop : Triple (Holds b eintrMax (On m [] fun _ => True))
      (do let rc ← iterEntries ns stop (L.order d.files.keys)
          let _ ← call
          return rc) (fun _ => Holds b eintrMax (Iterated b m ns stop))
      (CutOff b fun fs r' => At m fs ∧ Reported m ns r') := by
    refine (iterEntries_spec hproper hsafe).bind fun rc => (ignored_spec ?_).bind fun _ => ret_spec _ ?_
    · rintro fs r' lost ⟨hat, more, hr', hmore, -⟩
      rw [hr']
      exact hsafe more hmore _ (hat.lose lost)
    · rintro fs r' ⟨hat', more, hr', hmore, hall⟩
      rw [hr', List.nil_append]
      refine ⟨hat', reported_listed m ns hnodup hmore, fun hb hnever key blob hblob => ?_⟩
      rw [hall hb hnever]
      exact mem_listed hat L hd hblob
  exact hloop s ⟨⟨hat, hr, trivial⟩, hcalm⟩

end Iter

/-! ### Runs -/

/-- Keys of 1 to 256 bytes and blobs of 1 byte to 16 MiB. -/
def KvOp.InDomain : KvOp → Prop
  | .put _ key blob => (1 ≤ key.length ∧ key.length ≤ keyMax) ∧ 1 ≤ blob.length ∧ blob.length ≤ recordMax
  | .del _ key => 1 ≤ key.length ∧ key.length ≤ keyMax
  | .iter _ _ => True

/-- A key whose temporary name the file system takes. -/
def KvOp.Short : KvOp → Prop
  | .put _ key _ => key.length ≤ 123
  | _ => True

/-- One call of a map that a crash cannot tear. A call of `kv_put` or `kv_del` that succeeds has its effect and
one that fails has none; one that is cut off has all of it or none. `kv_iter` reports blobs of the map, each
key once. Where no call of the file system fails, `kv_put` succeeds and `kv_iter` reports every key, unless
its callback stops it. -/
def KvStep (op : KvOp) (script : List Answer) (d : Done) (m m' : Map) : Prop :=
  match op with
  | .put ns key blob =>
    d.reported = [] ∧ (d.rc = some 0 → m' = m.set ns key (some blob)) ∧
      (∀ rc, d.rc = some rc → rc ≠ 0 → m' = m) ∧ (d.rc = none → m' = m ∨ m' = m.set ns key (some blob)) ∧
      (Calm eintrMax script → d.rc = some 0)
  | .del ns key =>
    d.reported = [] ∧ (d.rc = some 0 → m' = m.set ns key none) ∧
      (∀ rc, d.rc = some rc → rc ≠ 0 → m' = m) ∧ (d.rc = none → m' = m ∨ m' = m.set ns key none)
  | .iter ns stop =>
    m' = m ∧ Reported m ns d.reported ∧ (Calm eintrMax script → (∀ key blob, stop key blob = false) →
      ∀ key blob, m ns key = some blob → (key, blob) ∈ d.reported)

/-- Every call of the run is a step of the map that the file system holds before it. -/
def Refines (L : Listing) : List (KvOp × List Answer) → Fs → Map → Prop
  | [], fs, m => stored fs = m
  | (op, script) :: rest, fs, m =>
    stored fs = m ∧ ∃ m', KvStep op script (exec L op script fs) m m' ∧ Refines L rest (exec L op script fs).fs m'

section Runs
variable (L : Listing) {m : Map} {fs : Fs} (script : List Answer)

theorem fits_iff (key : Bytes) : Fits key ↔ key.length ≤ 123 := by
  rw [Fits, length_tmpName, nameMax]
  omega

/-- The two ways a call ends. -/
theorem exec_ends (op : KvOp) {k : Nat} {A C : Fs → Reports → Prop} {Q : Int → Fs → Reports → Prop}
    (h : Triple (Holds (Calm k script) k A) (op.prog L) (fun rc => Holds (Calm k script) k (Q rc))
      (CutOff (Calm k script) C)) (hA : A fs []) :
    (∃ rc, (exec L op script fs).rc = some rc ∧ Q rc (exec L op script fs).fs (exec L op script fs).reported) ∨
      ((exec L op script fs).rc = none ∧ ¬Calm k script ∧
        C (exec L op script fs).fs (exec L op script fs).reported) := by
  have hends := h { fs, script } ⟨hA, id⟩
  rw [exec]
  rcases hrun : op.prog L { fs, script } with ⟨_ | rc, s⟩ <;> rw [hrun] at hends
  · exact .inr ⟨rfl, hends.2, hends.1⟩
  · exact .inl ⟨rc, rfl, hends.1⟩

theorem exec_put (hat : At m fs) {ns : UInt8} {key blob : Bytes} (hdom : (KvOp.put ns key blob).InDomain) :
    (exec L (.put ns key blob) script fs).reported = [] ∧
    ∃ m', At m' (exec L (.put ns key blob) script fs).fs ∧
      ((exec L (.put ns key blob) script fs).rc = some 0 → m' = m.set ns key (some blob) ∧ Fits key) ∧
      (∀ rc, (exec L (.put ns key blob) script fs).rc = some rc → rc ≠ 0 → m' = m) ∧
      ((exec L (.put ns key blob) script fs).rc = none → m' = m ∨ m' = m.set ns key (some blob)) ∧
      (Calm eintrMax script → Fits key → (exec L (.put ns key blob) script fs).rc = some 0) := by
  obtain ⟨⟨hkey, hkeyMax⟩, hblob, hblobMax⟩ := hdom
  have hspec : Triple (Holds (Calm eintrMax script) eintrMax (On m [] fun _ => True)) (posixPut ns key blob)
      (fun rc => Holds (Calm eintrMax script) eintrMax (Put (Calm eintrMax script) m [] ns key blob rc))
      (CutOff (Calm eintrMax script) fun fs r => (At m fs ∨ At (m.set ns key (some blob)) fs) ∧ r = []) :=
    posixPut_spec (fun _ h => ⟨.inl h, rfl⟩) (fun _ h => ⟨.inr h, rfl⟩) hkey hkeyMax hblob hblobMax
  rcases exec_ends L script (.put ns key blob) hspec ⟨hat, rfl, trivial⟩ with
    ⟨rc, hrc, hr, hzero, hother, hcalm⟩ | ⟨hrc, hnot, hor, hr⟩
  · refine ⟨hr, ?_⟩
    rw [hrc]
    by_cases h0 : rc = 0
    · refine ⟨_, (hzero h0).1, fun _ => ⟨rfl, (hzero h0).2⟩, ?_, nofun, fun hb hfits => by rw [hcalm hb hfits]⟩
      intro rc' hrc' hne
      rw [← Option.some.inj hrc'] at hne
      exact absurd h0 hne
    · refine ⟨m, hother h0, fun h => absurd (Option.some.inj h) h0, fun _ _ _ => rfl, nofun, ?_⟩
      exact fun hb hfits => by rw [hcalm hb hfits]
  · refine ⟨hr, ?_⟩
    rw [hrc]
    rcases hor with hold | hnew
    · exact ⟨m, hold, nofun, nofun, fun _ => .inl rfl, fun hb => absurd hb hnot⟩
    · exact ⟨_, hnew, nofun, nofun, fun _ => .inr rfl, fun hb => absurd hb hnot⟩

theorem exec_step (hat : At m fs) {op : KvOp} (hdom : op.InDomain) :
    ∃ m', At m' (exec L op script fs).fs ∧ (op.Short → KvStep op script (exec L op script fs) m m') := by
  cases op with
  | put ns key blob =>
    obtain ⟨hr, m', hat', hzero, hother, hcut, hcalm⟩ := exec_put L script hat hdom
    refine ⟨m', hat', fun hshort => ⟨hr, fun h => (hzero h).1, hother, hcut, fun hb => ?_⟩⟩
    exact hcalm hb ((fits_iff key).mpr hshort)
  | del ns key =>
    have hspec : Triple (Holds (Calm eintrMax script) eintrMax (On m [] fun _ => True)) (posixDel ns key)
        (fun rc => Holds (Calm eintrMax script) eintrMax (Deleted m [] ns key rc))
        (CutOff (Calm eintrMax script) fun fs r => (At m fs ∨ At (m.set ns key none) fs) ∧ r = []) :=
      posixDel_spec (fun _ h => ⟨.inl h, rfl⟩) (fun _ h => ⟨.inr h, rfl⟩)
    rcases exec_ends L script (.del ns key) hspec ⟨hat, rfl, trivial⟩ with
      ⟨rc, hrc, hr, hzero, hother⟩ | ⟨hrc, -, hor, hr⟩
    · by_cases h0 : rc = 0
      · refine ⟨_, hzero h0, fun _ => ⟨hr, fun _ => rfl, ?_, ?_⟩⟩
        · intro rc' hrc' hne
          rw [hrc] at hrc'
          rw [← Option.some.inj hrc'] at hne
          exact absurd h0 hne
        · intro hnone
          rw [hrc] at hnone
          cases hnone
      · refine ⟨m, hother h0, fun _ => ⟨hr, ?_, fun _ _ _ => rfl, fun _ => .inl rfl⟩⟩
        intro hzero
        rw [hrc] at hzero
        exact absurd (Option.some.inj hzero) h0
    · rcases hor with hold | hnew
      · refine ⟨m, hold, fun _ => ⟨hr, ?_, fun _ _ _ => rfl, fun _ => .inl rfl⟩⟩
        intro hzero
        rw [hrc] at hzero
        cases hzero
      · refine ⟨_, hnew, fun _ => ⟨hr, fun _ => rfl, ?_, fun _ => .inr rfl⟩⟩
        intro rc hsome
        rw [hrc] at hsome
        cases hsome
  | iter ns stop =>
    have hspec := posixIter_spec (b := Calm eintrMax script) (m := m) L ns stop
    rcases exec_ends L script (.iter ns stop) hspec ⟨hat, rfl, trivial⟩ with
      ⟨rc, -, hat', hreported, hall⟩ | ⟨-, hnot, hat', hreported⟩
    · exact ⟨m, hat', fun _ => ⟨rfl, hreported, hall⟩⟩
    · exact ⟨m, hat', fun _ => ⟨rfl, hreported, fun hb => absurd hb hnot⟩⟩

/-- A temporary name that is too long: `kv_put` does not succeed though no call fails. -/
theorem short_of_kvStep (hat : At m fs) {op : KvOp} (hdom : op.InDomain) (hcalm : Calm eintrMax script)
    {m' : Map} (hstep : KvStep op script (exec L op script fs) m m') : op.Short := by
  cases op with
  | put ns key blob =>
    obtain ⟨-, m', -, hzero, -⟩ := exec_put L script hat hdom
    exact (fits_iff key).mp (hzero (hstep.2.2.2.2 hcalm)).2
  | del => trivial
  | iter => trivial

end Runs

theorem refines_of_short (L : Listing) {run : List (KvOp × List Answer)}
    (hrun : ∀ p ∈ run, p.1.InDomain ∧ p.1.Short) {fs : Fs} {m : Map} (hat : At m fs) : Refines L run fs m := by
  induction run generalizing fs m with
  | nil => exact hat.stored
  | cons p rest ih =>
    obtain ⟨op, script⟩ := p
    obtain ⟨hop, hshort⟩ := hrun _ List.mem_cons_self
    obtain ⟨m', hat', hstep⟩ := exec_step L script hat hop
    exact ⟨hat.stored, m', hstep hshort, ih (fun p hp => hrun p (List.mem_cons_of_mem _ hp)) hat'⟩

theorem Refines.stored {L : Listing} {run : List (KvOp × List Answer)} {fs : Fs} {m : Map}
    (h : Refines L run fs m) : Posix.stored fs = m := by
  cases run with
  | nil => exact h
  | cons p rest => exact h.1

theorem short_of_refines (L : Listing) {run : List (KvOp × List Answer)} (hdom : ∀ p ∈ run, p.1.InDomain)
    (hcalm : ∀ p ∈ run, Calm eintrMax p.2) {fs : Fs} {m : Map} (hat : At m fs) (h : Refines L run fs m) :
    ∀ p ∈ run, p.1.Short := by
  induction run generalizing fs m with
  | nil => exact nofun
  | cons p rest ih =>
    obtain ⟨op, script⟩ := p
    obtain ⟨-, m', hstep, hrest⟩ := h
    have hop := hdom _ List.mem_cons_self
    obtain ⟨m'', hat', -⟩ := exec_step L script hat hop
    obtain rfl : m'' = m' := hat'.stored.symm.trans hrest.stored
    rintro p (_ | ⟨_, hp⟩)
    · exact short_of_kvStep L script hat hop (hcalm _ List.mem_cons_self) hstep
    · exact ih (fun p hp => hdom p (List.mem_cons_of_mem _ hp)) (fun p hp => hcalm p (List.mem_cons_of_mem _ hp))
        hat' hrest p hp

/-! ### The backend as a map -/

/-- Whatever the file system answers and wherever crashes fall, every run of these calls is a run of the map:
exactly where the keys of `kv_put` are short enough for the temporary name. -/
theorem posix_crashSafe (L : Listing) (ops : List KvOp) (hdom : ∀ op ∈ ops, op.InDomain) :
    (Function.Injective recName ∧
      ∀ run : List (KvOp × List Answer), run.map Prod.fst = ops → Refines L run freshFs (fun _ _ => none)) ↔
    ∀ op ∈ ops, op.Short := by
  constructor
  · rintro ⟨-, hall⟩ op hop
    have hfst : (ops.map fun op => (op, ([] : List Answer))).map Prod.fst = ops := by
      rw [List.map_map]
      exact List.map_id _
    have hmem : ∀ p ∈ ops.map fun op => (op, ([] : List Answer)), p.1 ∈ ops ∧ p.2 = [] := by
      intro p hp
      obtain ⟨op, hop, rfl⟩ := List.mem_map.mp hp
      exact ⟨hop, rfl⟩
    refine short_of_refines L (fun p hp => hdom _ (hmem p hp).1) (fun p hp => ?_) at_freshFs (hall _ hfst)
      (op, []) (List.mem_map_of_mem hop)
    rw [(hmem p hp).2]
    exact ⟨nofun, Nat.zero_le _⟩
  · intro hshort
    refine ⟨recName_injective, ?_⟩
    rintro run rfl
    refine refines_of_short L (fun p hp => ?_) at_freshFs
    have hop : p.1 ∈ run.map Prod.fst := List.mem_map_of_mem hp
    exact ⟨hdom _ hop, hshort _ hop⟩

/-- A file system that lists a directory in its own order. -/
def plainListing : Listing where
  order names := ['.'] :: ['.', '.'] :: names
  order_perm _ := List.Perm.refl _

/-- A `kv_put` that a crash cuts off in its `fsync`, the same again, and a `kv_iter`. -/
theorem posix_crashSafe_sample :
    Refines plainListing
      [(.put 2 [7] [1, 2, 3], [.ok, .ok, .ok, .ok, .ok, .ok, .ok, .crash fun _ => []]),
       (.put 2 [7] [4], []), (.iter 2 fun _ _ => false, [])] freshFs (fun _ _ => none) := by
  have hdom : ∀ op ∈ [KvOp.put 2 [7] [1, 2, 3], .put 2 [7] [4], .iter 2 fun _ _ => false], op.InDomain := by
    simp [KvOp.InDomain, keyMax, recordMax]
  have hshort : ∀ op ∈ [KvOp.put 2 [7] [1, 2, 3], .put 2 [7] [4], .iter 2 fun _ _ => false], op.Short := by
    simp [KvOp.Short]
  exact ((posix_crashSafe plainListing _ hdom).mpr hshort).2 _ rfl

/-- A key of 124 bytes: `wmqb_rec_name` takes it, and its temporary name has 256 bytes. -/
def longKey : Bytes := List.replicate 124 0

/-- Every call answers, the key and the blob are in range, and `kv_put` fails. -/
theorem longKey_not_stored :
    (KvOp.put 2 longKey [1]).InDomain ∧ (exec plainListing (.put 2 longKey [1]) [] freshFs).rc = some Code.system ∧
      ¬Refines plainListing [(.put 2 longKey [1], [])] freshFs (fun _ _ => none) := by
  have hlen : longKey.length = 124 := List.length_replicate
  have hdom : (KvOp.put 2 longKey [1]).InDomain := by
    rw [KvOp.InDomain, hlen]
    decide
  refine ⟨hdom, by decide +kernel, fun h => ?_⟩
  obtain ⟨-, m', hstep, -⟩ := h
  have hshort : longKey.length ≤ 123 :=
    short_of_kvStep plainListing [] at_freshFs hdom ⟨nofun, Nat.zero_le _⟩ hstep
  rw [hlen] at hshort
  exact absurd hshort (by decide)

end WolfMqtt.Persist.Posix
