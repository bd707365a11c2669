import Mathlib.Data.List.Pairwise
import Mathlib.Data.List.Basic

/-! Tables of perishable entries, told by what was done to them.

An entry stands under a key and may perish. A table is used in three ways: an entry is
put under its key in place of the one there, a key is erased, or the table is looked at,
when perished entries may be dropped. The ledger of these deeds, newest first, says what
a table without loss would show (`lastPut`); a real table tells the ledger's story
(`Tells`) when each key has at most one entry, every entry is the last one put, and the
last one put is missing only if it had perished at a look since. -/

namespace Ledger

variable {κ μ τ : Type}

/-- What was done to a table. A put looks at the table first. -/
inductive Deed (κ μ τ : Type) where
  | put (now : τ) (m : μ)
  | erase (k : κ)
  | look (now : τ)
deriving Repr, DecidableEq

variable [DecidableEq κ] (key : μ → κ) (perished : τ → μ → Prop)

/-! ### Lists in which each key stands once -/

section keys
variable {key} {xs : List μ}

/-- Erasing the first entry under a key erases every one. -/
theorem eraseP_key (h : xs.Pairwise (fun x y => key x ≠ key y)) (k : κ) :
    xs.eraseP (fun x => key x = k) = xs.filter (fun x => key x ≠ k) := by
  induction h with
  | nil => rfl
  | @cons x rest hx _ ih =>
    by_cases hk : key x = k
    · have hrest : rest.filter (fun y => key y ≠ k) = rest :=
        List.filter_eq_self.mpr fun y hy => by simpa using fun hyk => hx y hy (hk.trans hyk.symm)
      rw [List.eraseP_cons_of_pos (by simpa using hk), List.filter_cons_of_neg (by simpa using hk), hrest]
    · rw [List.eraseP_cons_of_neg (by simpa using hk), List.filter_cons_of_pos (by simpa using hk), ih]

/-- Replacing the first entry under a key leaves the keys. -/
theorem map_key_replaceF (xs : List μ) (m : μ) :
    (xs.replaceF (fun x => if key x = key m then some m else none)).map key = xs.map key := by
  induction xs with
  | nil => rfl
  | cons x rest ih =>
    by_cases hk : key x = key m
    · simp [hk]
    · simp [hk, ih]

/-- The new entry is there, and no other with its key. -/
theorem mem_replaceF_key (h : xs.Pairwise (fun x y => key x ≠ key y)) {m : μ} (hm : ∃ x ∈ xs, key x = key m) (y : μ) :
    y ∈ xs.replaceF (fun x => if key x = key m then some m else none) ↔ y = m ∨ y ∈ xs ∧ key y ≠ key m := by
  induction h with
  | nil =>
    obtain ⟨x, hx, -⟩ := hm
    cases hx
  | @cons x rest hx _ ih =>
    by_cases hk : key x = key m
    · simp only [List.replaceF_cons, hk, if_true, List.mem_cons]
      constructor
      · rintro (rfl | hy)
        · exact .inl rfl
        · exact .inr ⟨.inr hy, fun hyk => hx y hy (hk.trans hyk.symm)⟩
      · rintro (rfl | ⟨rfl | hy, hne⟩)
        · exact .inl rfl
        · exact absurd hk hne
        · exact .inr hy
    · have hrest : ∃ x ∈ rest, key x = key m := by
        obtain ⟨z, hz, hzk⟩ := hm
        rcases List.mem_cons.mp hz with rfl | hz
        · exact absurd hzk hk
        · exact ⟨z, hz, hzk⟩
      simp only [List.replaceF_cons, hk, if_false, List.mem_cons, ih hrest]
      constructor
      · rintro (rfl | rfl | ⟨hy, hne⟩)
        · exact .inr ⟨.inl rfl, hk⟩
        · exact .inl rfl
        · exact .inr ⟨.inr hy, hne⟩
      · rintro (rfl | ⟨rfl | hy, hne⟩)
        · exact .inr (.inl rfl)
        · exact .inl rfl
        · exact .inr (.inr ⟨hy, hne⟩)

end keys

/-! ### The ledger -/

/-- The last entry put under a key and not erased. -/
def lastPut : List (Deed κ μ τ) → κ → Option μ
  | [], _ => none
  | .put _ m :: rest, k => if key m = k then some m else lastPut rest k
  | .erase k' :: rest, k => if k' = k then none else lastPut rest k
  | .look _ :: rest, k => lastPut rest k

/-- When the table was looked at since the last entry was put under a key. -/
def looksSince : List (Deed κ μ τ) → κ → List τ
  | [], _ => []
  | .put now m :: rest, k => if key m = k then [] else now :: looksSince rest k
  | .erase _ :: rest, k => looksSince rest k
  | .look now :: rest, k => now :: looksSince rest k

/-- The table holds what the ledger says. -/
structure Tells (ledger : List (Deed κ μ τ)) (entries : List μ) : Prop where
  unique : entries.Pairwise (fun x y => key x ≠ key y)
  sound : ∀ m ∈ entries, lastPut key ledger (key m) = some m
  complete : ∀ k m, lastPut key ledger k = some m → m ∈ entries ∨ ∃ now ∈ looksSince key ledger k, perished now m

variable {key perished} {ledger : List (Deed κ μ τ)} {entries entries' : List μ}

theorem Tells.nil : Tells key perished ([] : List (Deed κ μ τ)) [] where
  unique := List.Pairwise.nil
  sound := by simp
  complete := by simp [lastPut]

theorem lastPut_key {k : κ} {m : μ} (h : lastPut key ledger k = some m) : key m = k := by
  induction ledger with
  | nil => cases h
  | cons d rest ih =>
    cases d with
    | put now x =>
      simp only [lastPut] at h
      split at h
      · cases h
        assumption
      · exact ih h
    | erase k' =>
      simp only [lastPut] at h
      split at h
      · cases h
      · exact ih h
    | look now => exact ih h

/-- A look drops perished entries only. -/
theorem Tells.look (h : Tells key perished ledger entries) (now : τ) (hsub : entries'.Sublist entries)
    (hkept : ∀ m ∈ entries, m ∈ entries' ∨ perished now m) : Tells key perished (.look now :: ledger) entries' where
  unique := h.unique.sublist hsub
  sound m hm := h.sound m (hsub.subset hm)
  complete k m hlast := by
    rcases h.complete k m hlast with hmem | ⟨t, ht, hgone⟩
    · rcases hkept m hmem with hmem' | hgone
      · exact .inl hmem'
      · exact .inr ⟨now, List.mem_cons_self, hgone⟩
    · exact .inr ⟨t, List.mem_cons_of_mem _ ht, hgone⟩

/-- An erased key has no entry. -/
theorem Tells.erase (h : Tells key perished ledger entries) (k : κ) (hunique : entries'.Pairwise (fun x y => key x ≠ key y))
    (hmem : ∀ m, m ∈ entries' ↔ m ∈ entries ∧ key m ≠ k) : Tells key perished (.erase k :: ledger) entries' where
  unique := hunique
  sound m hm := by
    obtain ⟨hm, hne⟩ := (hmem m).mp hm
    rw [lastPut, if_neg (Ne.symm hne)]
    exact h.sound m hm
  complete k' m hlast := by
    rw [lastPut] at hlast
    split at hlast
    · cases hlast
    · rename_i hne
      refine (h.complete k' m hlast).imp_left fun hm => (hmem m).mpr ⟨hm, ?_⟩
      rw [lastPut_key hlast]
      exact Ne.symm hne

/-- A put replaces the entry under its key, and drops perished ones. -/
theorem Tells.put (h : Tells key perished ledger entries) (now : τ) (m : μ)
    (hunique : entries'.Pairwise (fun x y => key x ≠ key y))
    (hmem : ∀ x, x ∈ entries' ↔ x = m ∨ x ∈ entries ∧ ¬perished now x ∧ key x ≠ key m) :
    Tells key perished (.put now m :: ledger) entries' where
  unique := hunique
  sound x hx := by
    rcases (hmem x).mp hx with rfl | ⟨hx, -, hne⟩
    · rw [lastPut, if_pos rfl]
    · rw [lastPut, if_neg (Ne.symm hne)]
      exact h.sound x hx
  complete k x hlast := by
    rw [lastPut] at hlast
    rw [looksSince]
    split at hlast
    · cases hlast
      exact .inl ((hmem m).mpr (.inl rfl))
    · rename_i hne
      rw [if_neg hne]
      rcases h.complete k x hlast with hx | ⟨t, ht, hgone⟩
      · by_cases hgone : perished now x
        · exact .inr ⟨now, List.mem_cons_self, hgone⟩
        · refine .inl ((hmem x).mpr (.inr ⟨hx, hgone, ?_⟩))
          rw [lastPut_key hlast]
          exact Ne.symm hne
      · exact .inr ⟨t, List.mem_cons_of_mem _ ht, hgone⟩

end Ledger
