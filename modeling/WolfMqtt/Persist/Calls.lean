import WolfMqtt.Persist.Files

/-! What the calls of the backend do to the map.

A `kv_put` builds its file under the temporary name, where no record is, and one rename
makes it the record; so at each call the map is the old one or the new one, and that is
what a crash finds. The specs carry a condition `b`: where it holds, no call fails. -/
namespace WolfMqtt.Persist.Posix

open Crash

/-! ### Calls -/

/-- An answer of a call that neither fails nor is cut off. -/
def Answer.Calm : Answer → Prop
  | .ok => True
  | .fail => False
  | .short n => 0 < n
  | .intr => True
  | .crash _ => False

def Answer.isIntr : Answer → Bool
  | .intr => true
  | _ => false

/-- No call fails or is cut off, and at most `k` are interrupted. -/
def Calm (k : Nat) (script : List Answer) : Prop :=
  (∀ a ∈ script, a.Calm) ∧ script.countP Answer.isIntr ≤ k

theorem Calm.mono {j k : Nat} {script : List Answer} (h : Calm j script) (hjk : j ≤ k) : Calm k script :=
  ⟨h.1, Nat.le_trans h.2 hjk⟩

theorem Calm.tail {k : Nat} {a : Answer} {script : List Answer} (h : Calm k (a :: script)) : Calm k script :=
  ⟨fun x hx => h.1 x (List.mem_cons_of_mem _ hx), Nat.le_trans (List.countP_cons ▸ Nat.le_add_right _ _) h.2⟩

abbrev Reports := List (Bytes × Bytes)

/-- `A` holds of the file system and the reports; if `b`, what is left of the script is calm. -/
def Holds (b : Prop) (k : Nat) (A : Fs → Reports → Prop) (s : Sys) : Prop :=
  A s.fs s.reported ∧ (b → Calm k s.script)

/-- `C` holds at a crash, which a calm script does not have. -/
def CutOff (b : Prop) (C : Fs → Reports → Prop) (s : Sys) : Prop := C s.fs s.reported ∧ ¬b

/-- The map is `m`, `r` was reported, and `P` holds of the file system. -/
def On (m : Map) (r : Reports) (P : Fs → Prop) (fs : Fs) (reported : Reports) : Prop :=
  At m fs ∧ reported = r ∧ P fs

section Specs
variable {b : Prop} {k : Nat} {A : Fs → Reports → Prop} {C : Fs → Reports → Prop} {α : Type}

theorem ask_spec (hcut : ∀ fs r lost, A fs r → C (fs.lose lost) r) :
    Triple (Holds b k A) ask
      (fun a s => Holds b k A s ∧ (b → a.Calm ∧ (a = .intr → 0 < k ∧ Calm (k - 1) s.script))) (CutOff b C) := by
  intro s hs
  obtain ⟨hA, hcalm⟩ := hs
  rw [ask]
  cases hscript : s.script with
  | nil => exact ⟨⟨hA, hcalm⟩, fun _ => ⟨trivial, nofun⟩⟩
  | cons a rest =>
    rw [hscript] at hcalm
    have hhead : b → a.Calm := fun hb => (hcalm hb).1 a List.mem_cons_self
    cases a with
    | crash lost => exact ⟨hcut _ _ lost hA, hhead⟩
    | intr =>
      refine ⟨⟨hA, fun hb => (hcalm hb).tail⟩, fun hb => ⟨hhead hb, fun _ => ?_⟩⟩
      have hcount := (hcalm hb).2
      rw [List.countP_cons_of_pos rfl] at hcount
      exact ⟨by omega, (hcalm hb).tail.1, by dsimp only; omega⟩
    | ok => exact ⟨⟨hA, fun hb => (hcalm hb).tail⟩, fun hb => ⟨hhead hb, nofun⟩⟩
    | fail => exact ⟨⟨hA, fun hb => (hcalm hb).tail⟩, fun hb => ⟨hhead hb, nofun⟩⟩
    | short n => exact ⟨⟨hA, fun hb => (hcalm hb).tail⟩, fun hb => ⟨hhead hb, nofun⟩⟩

theorem call_spec (hcut : ∀ fs r lost, A fs r → C (fs.lose lost) r) :
    Triple (Holds b k A) call (fun ok => Holds b k fun fs r => A fs r ∧ (b → ok = true)) (CutOff b C) := by
  refine (ask_spec hcut).bind ?_
  intro a
  cases a with
  | fail => exact .ret _ fun s hs => ⟨⟨hs.1.1, fun hb => (hs.2 hb).1.elim⟩, hs.1.2⟩
  | ok => exact .ret _ fun s hs => ⟨⟨hs.1.1, fun _ => rfl⟩, hs.1.2⟩
  | short n => exact .ret _ fun s hs => ⟨⟨hs.1.1, fun _ => rfl⟩, hs.1.2⟩
  | intr => exact .ret _ fun s hs => ⟨⟨hs.1.1, fun _ => rfl⟩, hs.1.2⟩
  | crash lost => exact .ret _ fun s hs => ⟨⟨hs.1.1, fun _ => rfl⟩, hs.1.2⟩

/-- A call whose result is dropped. -/
theorem ignored_spec (hcut : ∀ fs r lost, A fs r → C (fs.lose lost) r) :
    Triple (Holds b k A) call (fun _ => Holds b k A) (CutOff b C) :=
  (call_spec hcut).conseq (fun _ h => h) (fun _ _ h => ⟨h.1.1, h.2⟩) (fun _ h => h)

theorem act_spec {f : Sys → α × Sys} {Q : α → Fs → Reports → Prop}
    (h : ∀ s, A s.fs s.reported → (f s).2.script = s.script ∧ Q (f s).1 (f s).2.fs (f s).2.reported) :
    Triple (Holds b k A) (Prog.act f) (fun a => Holds b k (Q a)) (CutOff b C) := by
  refine .act fun s hs => ⟨(h s hs.1).2, ?_⟩
  rw [(h s hs.1).1]
  exact hs.2

theorem ret_spec {Q : α → Fs → Reports → Prop} (a : α) (h : ∀ fs r, A fs r → Q a fs r) :
    Triple (Holds b k A) (pure a) (fun a => Holds b k (Q a)) (CutOff b C) :=
  .ret a fun s hs => ⟨h s.fs s.reported hs.1, hs.2⟩

/-- A call that fails with `x`, or has its effect. -/
theorem guarded_spec {x : α} {p : Io α} {Q : α → Fs → Reports → Prop}
    (hcut : ∀ fs r lost, A fs r → C (fs.lose lost) r) (hfail : ∀ fs r, A fs r → ¬b → Q x fs r)
    (hp : Triple (Holds b k A) p (fun a => Holds b k (Q a)) (CutOff b C)) :
    Triple (Holds b k A) (do if !(← call) then return x
                             p) (fun a => Holds b k (Q a)) (CutOff b C) := by
  refine (call_spec hcut).bind ?_
  intro ok
  cases ok with
  | true => exact hp.weaken fun s hs => ⟨hs.1.1, hs.2⟩
  | false => exact ret_spec x fun fs r h => hfail fs r h.1 (fun hb => Bool.false_ne_true (h.2 hb))

end Specs

/-! ### What each call does to the map -/

section Calls
variable {b : Prop} {k : Nat} {C : Fs → Reports → Prop} {m : Map} {r : Reports} {P : Fs → Prop}

/-- Where the map is `m` a crash finds `C`. -/
def Safe (m : Map) (r : Reports) (C : Fs → Reports → Prop) : Prop := ∀ fs, At m fs → C fs r

theorem Safe.cut (hC : Safe m r C) (P : Fs → Prop) : ∀ fs r' lost, On m r P fs r' → C (fs.lose lost) r' := by
  rintro fs r' lost ⟨hat, rfl, -⟩
  exact hC _ (hat.lose lost)

theorem nsOpen_spec (hC : Safe m r C) (ns : UInt8) :
    Triple (Holds b k (On m r P)) (nsOpen ns)
      (fun err => Holds b k (On m r fun fs => P fs ∧ (err = none → (fs ns).isSome) ∧
        (err = some .noent → fs ns = none) ∧ (b → err = none ∨ err = some .noent))) (CutOff b C) := by
  refine guarded_spec (hC.cut P) ?_ (act_spec ?_)
  · rintro fs r' ⟨hat, hr, hP⟩ hb
    exact ⟨hat, hr, hP, nofun, nofun, fun h => absurd h hb⟩
  · rintro s ⟨hat, hr, hP⟩
    refine ⟨rfl, hat, hr, hP, ?_⟩
    dsimp only
    cases hd : s.fs ns with
    | none => exact ⟨nofun, fun _ => rfl, fun _ => .inr rfl⟩
    | some d => exact ⟨fun _ => rfl, nofun, fun _ => .inl rfl⟩

theorem mkdir_spec (hC : Safe m r C) (ns : UInt8) :
    Triple (Holds b k (On m r fun _ => True)) (mkdir ns)
      (fun ok => Holds b k (On m r fun fs => (ok = true → (fs ns).isSome) ∧ (b → ok = true))) (CutOff b C) := by
  refine guarded_spec (hC.cut _) ?_ (act_spec ?_)
  · rintro fs r' ⟨hat, hr, -⟩ hb
    exact ⟨hat, hr, nofun, fun h => absurd h hb⟩
  · rintro s ⟨hat, hr, -⟩
    refine ⟨rfl, hat.mkdir, hr, fun _ => ?_, fun _ => rfl⟩
    show (Function.update s.fs ns _ ns).isSome
    rw [Function.update_self]
    rfl

theorem validateDir_spec (hC : Safe m r C) (ns : UInt8) :
    Triple (Holds b k (On m r fun fs => (fs ns).isSome)) (validateDir ns)
      (fun ok => Holds b k (On m r fun fs => (fs ns).isSome ∧ (b → ok = true))) (CutOff b C) := by
  refine guarded_spec (hC.cut _) ?_ (act_spec ?_)
  · rintro fs r' ⟨hat, hr, hd⟩ hb
    exact ⟨hat, hr, hd, fun h => absurd h hb⟩
  · rintro s ⟨hat, hr, hd⟩
    refine ⟨rfl, hat, hr, hd, fun _ => ?_⟩
    obtain ⟨d, hd⟩ := Option.isSome_iff_exists.mp hd
    obtain ⟨howned, hothers⟩ := hat.valid.dirs ns d hd
    simp [hd, howned, hothers]

/-- What `wmqb_open_ns` returns. -/
def NsOpen (b : Prop) (ns : UInt8) (create : Bool) (rc : Int) (fs : Fs) : Prop :=
  (rc = 0 → (fs ns).isSome) ∧ (rc = notFound → fs ns = none) ∧ (b → rc = 0 ∨ create = false ∧ rc = notFound)

theorem nsOpened_spec (hC : Safe m r C) (ns : UInt8) (create : Bool) (err : Res) :
    Triple (Holds b k (On m r fun fs => (err = none → (fs ns).isSome) ∧ (err = some .noent → fs ns = none) ∧
        (b → err = none ∨ create = false ∧ err = some .noent)))
      (nsOpened ns err) (fun rc => Holds b k (On m r (NsOpen b ns create rc))) (CutOff b C) := by
  refine .ite ?_ ?_
  · intro herr
    refine ret_spec _ ?_
    rintro fs r' ⟨hat, hr, -, hnone, hb⟩
    refine ⟨hat, hr, ?_⟩
    by_cases h : err = some .noent
    · rw [if_pos h]
      exact ⟨nofun, fun _ => hnone h, fun hb' => .inr ⟨((hb hb').resolve_left herr).1, rfl⟩⟩
    · rw [if_neg h]
      exact ⟨nofun, nofun, fun hb' => ((hb hb').elim herr (fun h' => h h'.2)).elim⟩
  · intro herr
    rw [not_not] at herr
    refine Triple.bind ((validateDir_spec (k := k) hC ns).weaken fun s hs => ?_) ?_
    · obtain ⟨⟨hat, hr, hd, -⟩, hcalm⟩ := hs
      exact ⟨⟨hat, hr, hd herr⟩, hcalm⟩
    · intro ok
      cases ok with
      | true =>
        refine ret_spec _ ?_
        rintro fs r' ⟨hat, hr, hd, -⟩
        exact ⟨hat, hr, fun _ => hd, nofun, fun _ => .inl rfl⟩
      | false =>
        refine (ignored_spec (hC.cut _)).bind fun _ => ret_spec _ ?_
        rintro fs r' ⟨hat, hr, -, hb⟩
        exact ⟨hat, hr, nofun, nofun, fun h => absurd (hb h) (by decide)⟩

theorem openNs_spec (hC : Safe m r C) (ns : UInt8) (create : Bool) :
    Triple (Holds b k (On m r fun _ => True)) (openNs ns create)
      (fun rc => Holds b k (On m r (NsOpen b ns create rc))) (CutOff b C) := by
  refine (nsOpen_spec hC ns).bind fun err => .ite ?_ ?_
  · rintro ⟨-, rfl⟩
    refine Triple.bind ((mkdir_spec (k := k) hC ns).weaken fun s hs => ⟨⟨hs.1.1, hs.1.2.1, trivial⟩, hs.2⟩) ?_
    intro ok
    cases ok with
    | false =>
      refine ret_spec _ ?_
      rintro fs r' ⟨hat, hr, -, hb⟩
      exact ⟨hat, hr, nofun, nofun, fun h => absurd (hb h) (by decide)⟩
    | true =>
      refine (nsOpen_spec hC ns).bind fun err => (nsOpened_spec hC ns true err).weaken ?_
      rintro s ⟨⟨hat, hr, ⟨hsome, -⟩, hopen, hnone, hb⟩, hcalm⟩
      refine ⟨⟨hat, hr, hopen, hnone, fun h => (hb h).imp_right fun hno => ?_⟩, hcalm⟩
      have := hsome rfl
      rw [hnone hno] at this
      cases this
  · intro hcond
    refine (nsOpened_spec hC ns create err).weaken ?_
    rintro s ⟨⟨hat, hr, -, hopen, hnone, hb⟩, hcalm⟩
    refine ⟨⟨hat, hr, hopen, hnone, fun h => (hb h).imp_right fun hno => ⟨?_, hno⟩⟩, hcalm⟩
    exact Bool.eq_false_iff.mpr fun hc => hcond ⟨hno, hc⟩

/-- The temporary name is one the file system takes. -/
def Fits (key : Bytes) : Prop := (tmpName key).length ≤ nameMax

theorem openExcl_spec (hC : Safe m r C) (ns : UInt8) (key : Bytes) (gone : Prop) :
    Triple (Holds b k (On m r fun fs => (fs ns).isSome ∧ (gone → fs.file ns (tmpName key) = none)))
      (openExcl ns (tmpName key))
      (fun err => Holds b k (On m r fun fs => (fs ns).isSome ∧
        (err = none → Fits key ∧ fs.file ns (tmpName key) = some {}) ∧
        (err = some .exist → ¬gone ∧ (fs.file ns (tmpName key)).isSome) ∧
        (b → Fits key → err = none ∨ err = some .exist))) (CutOff b C) := by
  refine guarded_spec (hC.cut _) ?_ (.ite ?_ ?_)
  · rintro fs r' ⟨hat, hr, hd, -⟩ hb
    exact ⟨hat, hr, hd, nofun, nofun, fun h => absurd h hb⟩
  · intro hlong
    refine ret_spec _ ?_
    rintro fs r' ⟨hat, hr, hd, -⟩
    exact ⟨hat, hr, hd, nofun, nofun, fun _ hfits => absurd hfits (Nat.not_le.mpr hlong)⟩
  · intro hfits
    refine act_spec ?_
    rintro s ⟨hat, hr, hd, hgone⟩
    by_cases hfile : (s.fs.file ns (tmpName key)).isSome
    · rw [if_pos hfile]
      refine ⟨rfl, hat, hr, hd, nofun, fun _ => ⟨fun hg => ?_, hfile⟩, fun _ _ => .inr rfl⟩
      rw [hgone hg] at hfile
      cases hfile
    · rw [if_neg hfile]
      refine ⟨rfl, hat.insertTmp hd ⟨rfl, rfl⟩, hr, ?_, fun _ => ⟨Nat.not_lt.mp hfits, ?_⟩, nofun, fun _ _ => .inl rfl⟩
      · rw [Fs.isSome_setFiles]
        exact hd
      · rw [Fs.file_insert hd, if_pos ⟨rfl, rfl⟩]

theorem unlinkTmp_spec (hC : Safe m r C) (ns : UInt8) (key : Bytes) (there : Prop) :
    Triple (Holds b k (On m r fun fs => P fs ∧ (there → (fs.file ns (tmpName key)).isSome)))
      (unlink ns (tmpName key))
      (fun err => Holds b k (On m r fun fs => (∃ fs₀, P fs₀ ∧ ∀ ns', (fs ns').isSome = (fs₀ ns').isSome) ∧
        (err = none → fs.file ns (tmpName key) = none) ∧ (b → Fits key → there → err = none))) (CutOff b C) := by
  refine guarded_spec (hC.cut _) ?_ (.ite ?_ ?_)
  · rintro fs r' ⟨hat, hr, hP, -⟩ hb
    exact ⟨hat, hr, ⟨fs, hP, fun _ => rfl⟩, nofun, fun h => absurd h hb⟩
  · intro hlong
    refine ret_spec _ ?_
    rintro fs r' ⟨hat, hr, hP, -⟩
    exact ⟨hat, hr, ⟨fs, hP, fun _ => rfl⟩, nofun, fun _ hfits => absurd hfits (Nat.not_le.mpr hlong)⟩
  · intro hfits
    refine act_spec ?_
    rintro s ⟨hat, hr, hP, hthere⟩
    by_cases hfile : (s.fs.file ns (tmpName key)).isSome
    · rw [if_pos hfile]
      refine ⟨rfl, hat.eraseTmp, hr, ⟨s.fs, hP, fun ns' => Fs.isSome_setFiles _ _ _ _⟩, fun _ => ?_, fun _ _ _ => rfl⟩
      rw [Fs.file_erase, if_pos ⟨rfl, rfl⟩]
    · rw [if_neg hfile]
      exact ⟨rfl, hat, hr, ⟨s.fs, hP, fun _ => rfl⟩, nofun, fun _ _ ht => absurd (hthere ht) hfile⟩

theorem stat_spec (hC : Safe m r C) (ns : UInt8) (name : Name) :
    Triple (Holds b k (On m r P)) (stat ns name)
      (fun found => Holds b k (On m r fun fs => P fs ∧ (∀ f, found = some f → fs.file ns name = some f) ∧
        (b → found = fs.file ns name))) (CutOff b C) := by
  refine guarded_spec (hC.cut _) ?_ (act_spec ?_)
  · rintro fs r' ⟨hat, hr, hP⟩ hb
    exact ⟨hat, hr, hP, nofun, fun h => absurd h hb⟩
  · rintro s ⟨hat, hr, hP⟩
    exact ⟨rfl, hat, hr, hP, fun f hf => hf, fun _ => rfl⟩

/-- A left-over temporary file is the broker's own, so it does not stand in the way. -/
theorem openTmp_spec (hC : Safe m r C) (ns : UInt8) (key : Bytes) :
    Triple (Holds b k (On m r fun fs => (fs ns).isSome)) (openTmp ns (tmpName key))
      (fun ok => Holds b k (On m r fun fs => (ok = true → Fits key ∧ fs.file ns (tmpName key) = some {}) ∧
        (b → Fits key → ok = true))) (CutOff b C) := by
  refine Triple.bind ((openExcl_spec (k := k) hC ns key False).weaken fun s hs => ?_) ?_
  · exact ⟨⟨hs.1.1, hs.1.2.1, hs.1.2.2, False.elim⟩, hs.2⟩
  rintro (_ | err)
  · refine ret_spec _ ?_
    rintro fs r' ⟨hat, hr, -, hopen, -⟩
    exact ⟨hat, hr, fun _ => hopen rfl, fun _ _ => rfl⟩
  by_cases hexist : err = .exist
  case neg =>
    have hfalse : Triple (Holds b k (On m r fun fs => (fs ns).isSome ∧
        (some err = none → Fits key ∧ fs.file ns (tmpName key) = some {}) ∧
        (some err = some .exist → ¬False ∧ (fs.file ns (tmpName key)).isSome) ∧
        (b → Fits key → some err = none ∨ some err = some .exist))) (pure false : Io Bool)
        (fun ok => Holds b k (On m r fun fs => (ok = true → Fits key ∧ fs.file ns (tmpName key) = some {}) ∧
          (b → Fits key → ok = true))) (CutOff b C) := by
      refine ret_spec _ ?_
      rintro fs r' ⟨hat, hr, -, -, -, hb⟩
      refine ⟨hat, hr, nofun, fun h hfits => ?_⟩
      rcases hb h hfits with h | h
      · cases h
      · exact absurd (Option.some.inj h) hexist
    cases err with
    | exist => exact absurd rfl hexist
    | noent => exact hfalse
    | intr => exact hfalse
    | other => exact hfalse
  subst hexist
  refine (stat_spec hC ns _).bind fun found => .ite ?_ ?_
  · intro _
    refine Triple.bind ((unlinkTmp_spec (P := fun fs => (fs ns).isSome) (k := k) hC ns key True).weaken
      fun s hs => ?_) ?_
    · obtain ⟨⟨hat, hr, ⟨hd, -, hthere, -⟩, -⟩, hcalm⟩ := hs
      exact ⟨⟨hat, hr, hd, fun _ => (hthere rfl).2⟩, hcalm⟩
    rintro (_ | err)
    · refine Triple.bind ((openExcl_spec (k := k) hC ns key True).weaken fun s hs => ?_) ?_
      · obtain ⟨⟨hat, hr, ⟨fs₀, hd, hsame⟩, hgone, -⟩, hcalm⟩ := hs
        refine ⟨⟨hat, hr, ?_, fun _ => hgone rfl⟩, hcalm⟩
        rw [hsame]
        exact hd
      intro err
      refine ret_spec _ ?_
      rintro fs r' ⟨hat, hr, -, hopen, hexist, hb⟩
      refine ⟨hat, hr, fun hok => hopen (of_decide_eq_true hok), fun h hfits => ?_⟩
      rcases hb h hfits with h | h
      · exact decide_eq_true h
      · exact absurd trivial (hexist h).1
    · refine ret_spec _ ?_
      rintro fs r' ⟨hat, hr, -, -, hb⟩
      exact ⟨hat, hr, nofun, fun h hfits => nomatch hb h hfits trivial⟩
  · intro hno
    refine ret_spec _ ?_
    rintro fs r' ⟨hat, hr, ⟨hd, -, hthere, -⟩, -, hfound⟩
    refine ⟨hat, hr, nofun, fun h _ => ?_⟩
    obtain ⟨f, hf⟩ := Option.isSome_iff_exists.mp (hthere rfl).2
    have hmine : f.Mine := (hat.valid.files ns _ f hf).1
    rw [hfound h, hf] at hno
    exact absurd (by simp [hmine.1, hmine.2]) hno

/-- The temporary file holds `data`. -/
def Has (ns : UInt8) (key data : Bytes) (fs : Fs) : Prop :=
  ∃ f, fs.file ns (tmpName key) = some f ∧ f.data = data

theorem On.setTmp {ns : UInt8} {key : Bytes} {fs : Fs} {r' : Reports} (h : On m r P fs r') {f : File}
    (hf : fs.file ns (tmpName key) = some f) {g : File → File} (hg : f.Mine → (g f).Mine) :
    On m r (fun fs => fs.file ns (tmpName key) = some (g f)) (fs.setFile ns (tmpName key) g) r' := by
  obtain ⟨hat, hr, -⟩ := h
  have hd : (fs ns).isSome := Fs.isSome_of_file hf
  rw [Fs.setFile, hf]
  refine ⟨hat.insertTmp hd (hg (hat.valid.files ns _ f hf).1), hr, ?_⟩
  show (fs.setFiles ns (·.insert (tmpName key) (g f))).file ns (tmpName key) = some (g f)
  rw [Fs.file_insert hd, if_pos ⟨rfl, rfl⟩]

/-- What a `write` of `bytes` to a temporary file that holds `data` leaves. -/
def Wrote (b : Prop) (ns : UInt8) (key data bytes : Bytes) : Except Errno Nat → Fs → Prop
  | .ok n, fs => n ≤ bytes.length ∧ Has ns key (data ++ bytes.take n) fs ∧ (b → bytes ≠ [] → n ≠ 0)
  | .error e, fs => Has ns key data fs ∧ (b → e = .intr)

theorem write_spec (hC : Safe m r C) (ns : UInt8) (key data bytes : Bytes) :
    Triple (Holds b k (On m r (Has ns key data))) (write ns (tmpName key) bytes)
      (fun res s => Holds b k (On m r (Wrote b ns key data bytes res)) s ∧
        (b → res = .error .intr → 0 < k ∧ Calm (k - 1) s.script)) (CutOff b C) := by
  have hput : ∀ n, (b → bytes ≠ [] → 0 < n) → ∀ s, Holds b k (On m r (Has ns key data)) s →
      Holds b k (On m r (Wrote b ns key data bytes (.ok (bytes.take n).length)))
        { s with fs := s.fs.setFile ns (tmpName key) fun f =>
          { f with data := f.data ++ bytes.take n, synced := false } } := by
    rintro n hn s ⟨⟨hat, hr, f, hf, hdata⟩, hcalm⟩
    obtain ⟨hat', hr', hfile⟩ := On.setTmp (P := fun _ => True) ⟨hat, hr, trivial⟩ hf
      (g := fun f => { f with data := f.data ++ bytes.take n, synced := false }) id
    refine ⟨⟨hat', hr', List.length_take_le' _ _, ⟨_, hfile, ?_⟩, fun hb hne => ?_⟩, hcalm⟩
    · show f.data ++ bytes.take n = _
      rw [hdata, List.length_take, List.take_eq_take_min]
    · rw [List.length_take]
      have hpos := List.length_pos_iff.mpr hne
      have hn := hn hb hne
      omega
  refine (ask_spec (hC.cut _)).bind ?_
  intro a
  cases a with
  | fail =>
    refine .ret _ ?_
    rintro s ⟨⟨⟨hat, hr, hhas⟩, hcalm⟩, hb⟩
    exact ⟨⟨⟨hat, hr, hhas, fun h => (hb h).1.elim⟩, hcalm⟩, nofun⟩
  | intr =>
    refine .ret _ ?_
    rintro s ⟨⟨⟨hat, hr, hhas⟩, hcalm⟩, hb⟩
    exact ⟨⟨⟨hat, hr, hhas, fun _ => rfl⟩, hcalm⟩, fun h _ => (hb h).2 rfl⟩
  | short n =>
    refine .act fun s hs => ⟨?_, nofun⟩
    exact hput n (fun h _ => (hs.2 h).1) s hs.1
  | ok =>
    refine .act fun s hs => ⟨?_, nofun⟩
    exact hput bytes.length (fun _ hne => List.length_pos_iff.mpr hne) s hs.1
  | crash lost =>
    refine .act fun s hs => ⟨?_, nofun⟩
    exact hput bytes.length (fun _ hne => List.length_pos_iff.mpr hne) s hs.1

/-- The loop ends with all bytes written, unless a call failed for good. -/
theorem writeAll_spec (hC : Safe m r C) (ns : UInt8) (key : Bytes) (bytes data : Bytes) (eintrCount : Nat)
    (hcount : eintrCount + k ≤ eintrMax) :
    Triple (Holds b k (On m r (Has ns key data))) (writeAll ns (tmpName key) bytes eintrCount)
      (fun ok => Holds b k (On m r fun fs =>
        (∃ written, Has ns key written fs ∧ (ok = true → written = data ++ bytes)) ∧ (b → ok = true)))
      (CutOff b C) := by
  induction hn : bytes.length + (eintrMax - eintrCount) using Nat.strong_induction_on
    generalizing bytes data eintrCount k with
  | _ n ih =>
    rw [writeAll]
    refine .ite ?_ ?_
    · intro hnil
      refine ret_spec _ ?_
      rintro fs r' ⟨hat, hr, hhas⟩
      refine ⟨hat, hr, ⟨data, hhas, fun _ => ?_⟩, fun _ => rfl⟩
      rw [List.length_eq_zero_iff.mp hnil, List.append_nil]
    · intro hne
      refine (write_spec hC ns key data bytes).bind ?_
      rintro (e | n)
      · refine .ite ?_ ?_
        · rintro ⟨rfl, hlt⟩
          have hstep := ih (bytes.length + (eintrMax - (eintrCount + 1))) (by omega) bytes data (eintrCount + 1)
            (k := k - 1) (by omega) rfl
          refine hstep.conseq ?_ ?_ fun _ h => h
          · rintro s ⟨⟨⟨hat, hr, hhas, -⟩, -⟩, hcalm⟩
            exact ⟨⟨hat, hr, hhas⟩, fun hb => (hcalm hb rfl).2⟩
          · exact fun ok s hs => ⟨hs.1, fun hb => (hs.2 hb).mono (Nat.sub_le _ _)⟩
        · intro hstop
          refine .ret _ ?_
          rintro s ⟨⟨⟨hat, hr, hhas, hintr⟩, hcalm⟩, hk⟩
          refine ⟨⟨hat, hr, ⟨data, hhas, nofun⟩, fun hb => ?_⟩, hcalm⟩
          obtain rfl := hintr hb
          have hpos := (hk hb rfl).1
          exact absurd ⟨rfl, by omega⟩ hstop
      · refine .ite ?_ ?_
        · rintro rfl
          refine .ret _ ?_
          rintro s ⟨⟨⟨hat, hr, hwrote⟩, hcalm⟩, -⟩
          refine ⟨⟨hat, hr, ⟨_, hwrote.2.1, nofun⟩, fun hb => ?_⟩, hcalm⟩
          exact absurd rfl (hwrote.2.2 hb (fun h => hne (by rw [h]; rfl)))
        · intro hn0
          have hlen : (bytes.drop n).length + (eintrMax - eintrCount) < bytes.length + (eintrMax - eintrCount) := by
            rw [List.length_drop]
            omega
          have hstep := ih _ (hn ▸ hlen) (bytes.drop n) (data ++ bytes.take n) eintrCount (k := k) hcount rfl
          refine hstep.conseq ?_ ?_ fun _ h => h
          · rintro s ⟨⟨⟨hat, hr, hwrote⟩, hcalm⟩, -⟩
            exact ⟨⟨hat, hr, hwrote.2.1⟩, hcalm⟩
          · rintro ok s ⟨⟨hat, hr, ⟨written, hhas, heq⟩, hok⟩, hcalm⟩
            refine ⟨⟨hat, hr, ⟨written, hhas, fun h => ?_⟩, hok⟩, hcalm⟩
            rw [heq h, List.append_assoc, List.take_append_drop]

theorem fsync_spec (hC : Safe m r C) (ns : UInt8) (key data : Bytes) :
    Triple (Holds b k (On m r (Has ns key data))) (fsync ns (tmpName key))
      (fun ok => Holds b k (On m r fun fs =>
        (ok = true → ∃ f, fs.file ns (tmpName key) = some f ∧ f.data = data ∧ f.synced = true) ∧
        (b → ok = true))) (CutOff b C) := by
  refine guarded_spec (hC.cut _) ?_ (act_spec ?_)
  · rintro fs r' ⟨hat, hr, -⟩ hb
    exact ⟨hat, hr, nofun, fun h => absurd h hb⟩
  · rintro s ⟨hat, hr, f, hf, hdata⟩
    obtain ⟨hat', hr', hfile⟩ := On.setTmp (P := fun _ => True) ⟨hat, hr, trivial⟩ hf
      (g := fun f => { f with synced := true }) id
    exact ⟨rfl, hat', hr', fun _ => ⟨_, hfile, hdata, rfl⟩, fun _ => rfl⟩

theorem rename_spec (hC : Safe m r C) {ns : UInt8} {key blob : Bytes} (hkey : 1 ≤ key.length)
    (hkeyMax : key.length ≤ keyMax) (hblob : 1 ≤ blob.length) (hblobMax : blob.length ≤ recordMax)
    (hfits : Fits key) :
    Triple (Holds b k (On m r fun fs => ∃ f, fs.file ns (tmpName key) = some f ∧ f.data = blob ∧ f.synced = true))
      (rename ns (tmpName key) (recName key))
      (fun ok => Holds b k fun fs r' => r' = r ∧ (ok = true → At (m.set ns key (some blob)) fs) ∧
        (ok = false → At m fs ∧ ¬b)) (CutOff b C) := by
  refine guarded_spec (hC.cut _) ?_ (.ite ?_ ?_)
  · rintro fs r' ⟨hat, hr, -⟩ hb
    exact ⟨hr, nofun, fun _ => ⟨hat, hb⟩⟩
  · intro hlong
    rw [Fits, length_tmpName] at hfits
    rw [length_recName] at hlong
    omega
  · intro _
    refine act_spec ?_
    rintro s ⟨hat, hr, f, hf, rfl, hsynced⟩
    rw [hf]
    exact ⟨rfl, hr, fun _ => hat.rename hf ⟨rfl, hkey, hkeyMax, hsynced, hblob, hblobMax⟩, nofun⟩

theorem giveUp_spec (hC : Safe m r C) (ns : UInt8) (key : Bytes) (opened : Bool) :
    Triple (Holds b k (On m r fun _ => ¬b)) (giveUp ns (tmpName key) opened)
      (fun rc => Holds b k (On m r fun _ => rc ≠ 0 ∧ ¬b)) (CutOff b C) := by
  have hrest : Triple (Holds b k (On m r fun _ => ¬b))
      (do let _ ← unlink ns (tmpName key)
          let _ ← call
          return Code.system) (fun rc => Holds b k (On m r fun _ => rc ≠ 0 ∧ ¬b)) (CutOff b C) := by
    refine Triple.bind ((unlinkTmp_spec (P := fun _ => ¬b) (k := k) hC ns key False).weaken fun s hs => ?_) ?_
    · exact ⟨⟨hs.1.1, hs.1.2.1, hs.1.2.2, False.elim⟩, hs.2⟩
    · intro _
      refine (ignored_spec (hC.cut _)).bind fun _ => ret_spec _ ?_
      rintro fs r' ⟨hat, hr, ⟨fs₀, hb, -⟩, -⟩
      exact ⟨hat, hr, by decide, hb⟩
  cases opened with
  | false => exact hrest
  | true => exact (ignored_spec (hC.cut _)).bind fun _ => hrest

end Calls

/-! ### `kv_put` and `kv_del` -/

section Hooks
variable {b : Prop} {C : Fs → Reports → Prop} {m : Map} {r : Reports}

/-- What `kv_put` leaves when it returns. -/
def Put (b : Prop) (m : Map) (r : Reports) (ns : UInt8) (key blob : Bytes) (rc : Int) (fs : Fs) (r' : Reports) : Prop :=
  r' = r ∧ (rc = 0 → At (m.set ns key (some blob)) fs ∧ Fits key) ∧ (rc ≠ 0 → At m fs) ∧ (b → Fits key → rc = 0)

/-- A way out of `kv_put` that only a failed call leads to. -/
theorem Put.failed {ns : UInt8} {key blob : Bytes} {rc : Int} {fs : Fs} {r' : Reports}
    (h : On m r (fun _ => rc ≠ 0 ∧ ¬(b ∧ Fits key)) fs r') : Put b m r ns key blob rc fs r' := by
  obtain ⟨hat, hr, hrc, hb⟩ := h
  exact ⟨hr, fun h => absurd h hrc, fun _ => hat, fun h hfits => absurd ⟨h, hfits⟩ hb⟩

theorem giveUp_put (hC : Safe m r C) (ns : UInt8) (key blob : Bytes) (opened : Bool) :
    Triple (Holds b eintrMax (On m r fun _ => ¬b)) (giveUp ns (tmpName key) opened)
      (fun rc => Holds b eintrMax (Put b m r ns key blob rc)) (CutOff b C) := by
  refine (giveUp_spec hC ns key opened).conseq (fun _ h => h) ?_ fun _ h => h
  rintro rc s ⟨⟨hat, hr, hrc, hb⟩, hcalm⟩
  exact ⟨Put.failed ⟨hat, hr, hrc, fun h => hb h.1⟩, hcalm⟩

/-- After the rename. -/
theorem renamed_put {ns : UInt8} {key blob : Bytes} (hC' : Safe (m.set ns key (some blob)) r C) (hfits : Fits key) :
    Triple (Holds b eintrMax (On (m.set ns key (some blob)) r fun _ => True))
      (do let _ ← call
          let _ ← call
          return 0) (fun rc => Holds b eintrMax (Put b m r ns key blob rc)) (CutOff b C) := by
  refine (ignored_spec (hC'.cut _)).bind fun _ => (ignored_spec (hC'.cut _)).bind fun _ => ret_spec _ ?_
  rintro fs r' ⟨hat, hr, -⟩
  exact ⟨hr, fun _ => ⟨hat, hfits⟩, fun h => absurd rfl h, fun _ _ => rfl⟩

section Put
variable {ns : UInt8} {key blob : Bytes} (hC : Safe m r C) (hC' : Safe (m.set ns key (some blob)) r C)
  (hkey : 1 ≤ key.length) (hkeyMax : key.length ≤ keyMax) (hblob : 1 ≤ blob.length)
  (hblobMax : blob.length ≤ recordMax)
include hC hC' hkey hkeyMax hblob hblobMax

theorem putOpened_spec (hfits : Fits key) :
    Triple (Holds b eintrMax (On m r fun fs => fs.file ns (tmpName key) = some {})) (putOpened ns key blob)
      (fun rc => Holds b eintrMax (Put b m r ns key blob rc)) (CutOff b C) := by
  refine (stat_spec hC ns _).bind fun found => .ite ?_ fun _ => ?_
  · intro hno
    refine (giveUp_put hC ns key blob true).weaken ?_
    rintro s ⟨⟨hat, hr, hfile, -, hfound⟩, hcalm⟩
    refine ⟨⟨hat, hr, fun h => ?_⟩, hcalm⟩
    rw [hfound h, hfile] at hno
    cases hno
  refine Triple.bind ((writeAll_spec (k := eintrMax) hC ns key blob [] 0 (Nat.le_of_eq (Nat.zero_add _))).weaken
    fun s hs => ⟨⟨hs.1.1, hs.1.2.1, _, hs.1.2.2.1, rfl⟩, hs.2⟩) fun ok => .ite ?_ ?_
  · intro hok
    refine (giveUp_put hC ns key blob true).weaken fun s hs => ⟨⟨hs.1.1, hs.1.2.1, fun h => ?_⟩, hs.2⟩
    rw [hs.1.2.2.2 h] at hok
    cases hok
  intro hok
  obtain rfl : ok = true := by simpa using hok
  refine Triple.bind ((fsync_spec (k := eintrMax) hC ns key blob).weaken ?_) fun ok => .ite ?_ ?_
  · rintro s ⟨⟨hat, hr, ⟨written, hhas, heq⟩, -⟩, hcalm⟩
    rw [heq rfl] at hhas
    exact ⟨⟨hat, hr, hhas⟩, hcalm⟩
  · intro hok
    refine (giveUp_put hC ns key blob true).weaken fun s hs => ⟨⟨hs.1.1, hs.1.2.1, fun h => ?_⟩, hs.2⟩
    rw [hs.1.2.2.2 h] at hok
    cases hok
  intro hok
  obtain rfl : ok = true := by simpa using hok
  -- the `close` of the temporary file
  refine (call_spec (hC.cut _)).bind fun ok => .ite ?_ ?_
  · intro hok
    refine (giveUp_put hC ns key blob false).weaken fun s hs => ⟨⟨hs.1.1.1, hs.1.1.2.1, fun h => ?_⟩, hs.2⟩
    rw [hs.1.2 h] at hok
    cases hok
  intro _
  refine Triple.bind ((rename_spec (k := eintrMax) hC hkey hkeyMax hblob hblobMax hfits).weaken
    fun s hs => ⟨⟨hs.1.1.1, hs.1.1.2.1, hs.1.1.2.2.1 rfl⟩, hs.2⟩) fun ok => .ite ?_ ?_
  · intro hok
    obtain rfl : ok = false := by simpa using hok
    refine (giveUp_put hC ns key blob false).weaken ?_
    exact fun s hs => ⟨⟨(hs.1.2.2 rfl).1, hs.1.1, (hs.1.2.2 rfl).2⟩, hs.2⟩
  · intro hok
    obtain rfl : ok = true := by simpa using hok
    exact (renamed_put hC' hfits).weaken fun s hs => ⟨⟨hs.1.2.1 rfl, hs.1.1, trivial⟩, hs.2⟩

theorem posixPut_spec :
    Triple (Holds b eintrMax (On m r fun _ => True)) (posixPut ns key blob)
      (fun rc => Holds b eintrMax (Put b m r ns key blob rc)) (CutOff b C) := by
  refine (openNs_spec hC ns true).bind fun rc => .ite ?_ ?_
  · intro hrc
    refine ret_spec _ ?_
    rintro fs r' ⟨hat, hr, -, -, hb⟩
    refine Put.failed ⟨hat, hr, hrc, fun h => ?_⟩
    rcases hb h.1 with h | h
    · exact hrc h
    · cases h.1
  intro hrc
  rw [not_not] at hrc
  subst hrc
  refine .ite (fun hlong => absurd hlong (Nat.not_lt.mpr hkeyMax)) fun _ => ?_
  refine Triple.bind ((openTmp_spec (k := eintrMax) hC ns key).weaken
    fun s hs => ⟨⟨hs.1.1, hs.1.2.1, hs.1.2.2.1 rfl⟩, hs.2⟩) fun ok => .ite ?_ ?_
  · intro hok
    obtain rfl : ok = false := by simpa using hok
    refine (ignored_spec (hC.cut _)).bind fun _ => ret_spec _ ?_
    rintro fs r' ⟨hat, hr, -, hb⟩
    exact Put.failed ⟨hat, hr, by decide, fun h => absurd (hb h.1 h.2) (by decide)⟩
  · intro hok
    obtain rfl : ok = true := by simpa using hok
    by_cases hfits : Fits key
    case neg => exact fun s hs => absurd (hs.1.2.2.1 rfl).1 hfits
    exact (putOpened_spec hC hC' hkey hkeyMax hblob hblobMax hfits).weaken
      fun s hs => ⟨⟨hs.1.1, hs.1.2.1, (hs.1.2.2.1 rfl).2⟩, hs.2⟩

end Put

/-- What `kv_del` leaves when it returns. -/
def Deleted (m : Map) (r : Reports) (ns : UInt8) (key : Bytes) (rc : Int) (fs : Fs) (r' : Reports) : Prop :=
  r' = r ∧ (rc = 0 → At (m.set ns key none) fs) ∧ (rc ≠ 0 → At m fs)

/-- Deleting what is not there changes nothing. -/
theorem At.set_none {fs : Fs} {ns : UInt8} {key : Bytes} (h : At m fs) (hfile : fs.file ns (recName key) = none) :
    At (m.set ns key none) fs := by
  refine ⟨h.valid, ?_⟩
  rw [h.stored]
  funext ns' key'
  rw [Map.set]
  split
  case isTrue heq =>
    rw [← h.stored, heq.1, heq.2, Posix.stored, hfile]
    rfl
  case isFalse => rfl

theorem unlinkRecord_spec {ns : UInt8} {key : Bytes} (hC : Safe m r C) :
    Triple (Holds b eintrMax (On m r fun _ => True)) (unlink ns (recName key))
      (fun err => Holds b eintrMax fun fs r' => r' = r ∧
        (err = none ∨ err = some .noent → At (m.set ns key none) fs) ∧
        (err ≠ none → err ≠ some .noent → At m fs)) (CutOff b C) := by
  refine guarded_spec (hC.cut _) ?_ (.ite (fun _ => ret_spec _ ?_) fun _ => act_spec ?_)
  · rintro fs r' ⟨hat, hr, -⟩ -
    exact ⟨hr, fun h => by simp at h, fun _ _ => hat⟩
  · rintro fs r' ⟨hat, hr, -⟩
    exact ⟨hr, fun h => by simp at h, fun _ _ => hat⟩
  · rintro s ⟨hat, hr, -⟩
    by_cases hfile : (s.fs.file ns (recName key)).isSome
    · rw [if_pos hfile]
      exact ⟨rfl, hr, fun _ => hat.eraseRecord, fun h => absurd rfl h⟩
    · rw [if_neg hfile]
      exact ⟨rfl, hr, fun _ => hat.set_none (Option.not_isSome_iff_eq_none.mp hfile), fun _ h => absurd rfl h⟩

theorem posixDel_spec {ns : UInt8} {key : Bytes} (hC : Safe m r C) (hC' : Safe (m.set ns key none) r C) :
    Triple (Holds b eintrMax (On m r fun _ => True)) (posixDel ns key)
      (fun rc => Holds b eintrMax (Deleted m r ns key rc)) (CutOff b C) := by
  refine .ite ?_ fun _ => (openNs_spec hC ns false).bind fun rc => .ite ?_ fun _ => .ite ?_ ?_
  · intro _
    refine ret_spec _ ?_
    rintro fs r' ⟨hat, hr, -⟩
    exact ⟨hr, fun h => absurd h (by decide), fun _ => hat⟩
  · rintro rfl
    refine ret_spec _ ?_
    rintro fs r' ⟨hat, hr, -, hnone, -⟩
    refine ⟨hr, fun _ => hat.set_none ?_, fun h => absurd rfl h⟩
    rw [Fs.file, hnone rfl]
    rfl
  · intro hrc
    refine ret_spec _ ?_
    rintro fs r' ⟨hat, hr, -⟩
    exact ⟨hr, fun h => absurd h hrc, fun _ => hat⟩
  · intro _
    refine Triple.bind ((unlinkRecord_spec hC).weaken fun s hs => ⟨⟨hs.1.1, hs.1.2.1, trivial⟩, hs.2⟩) ?_
    have hcut : ∀ err : Res, ∀ fs r' lost, (r' = r ∧
        (err = none ∨ err = some .noent → At (m.set ns key none) fs) ∧
        (err ≠ none → err ≠ some .noent → At m fs)) → C (fs.lose lost) r' := by
      rintro err fs r' lost ⟨rfl, hgone, hkept⟩
      by_cases h : err = none ∨ err = some .noent
      · exact hC' _ ((hgone h).lose lost)
      · rw [not_or] at h
        exact hC _ ((hkept h.1 h.2).lose lost)
    rintro (_ | e)
    · refine (ignored_spec (hcut none)).bind fun _ => (ignored_spec (hcut none)).bind fun _ => ret_spec _ ?_
      rintro fs r' ⟨hr, hgone, -⟩
      exact ⟨hr, fun _ => hgone (.inl rfl), fun h => absurd rfl h⟩
    · refine (ignored_spec (hcut (some e))).bind fun _ => ret_spec _ ?_
      rintro fs r' ⟨hr, hgone, hkept⟩
      by_cases he : e = .noent
      · rw [if_pos he]
        exact ⟨hr, fun _ => hgone (.inr (by rw [he])), fun h => absurd rfl h⟩
      · rw [if_neg he]
        exact ⟨hr, fun h => absurd h (by decide), fun _ => hkept (Option.some_ne_none e) (fun h => he (Option.some.inj h))⟩

end Hooks

end WolfMqtt.Persist.Posix
