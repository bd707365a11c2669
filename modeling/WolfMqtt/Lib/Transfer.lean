import Mathlib.Tactic

/-! Handing bytes to a transport that takes what it likes.

`net t` is its answer when it is asked for the `t`-th time: a positive count of bytes it is ready
to take, or a code that says "not now". A sender who asks once and gives control back makes
progress over any transport that goes on taking something (`ends_of_progress`). A sender who asks
until all is taken, and gives up when he is turned away, hands over a piece if the transport does
not turn him away in the middle of it (`carry`, `Unbroken`). -/
namespace Transfer

/-- The transport takes something again and again. -/
def Fair (net : Nat → Int) : Prop := ∀ t, ∃ t', t ≤ t' ∧ 0 < net t'

/-- A transport whose one refusal is `later`. -/
def Answers (later : Int) (net : Nat → Int) : Prop := ∀ t, 0 < net t ∨ net t = later

/-! ### Asking once and coming back -/

/-- One turn either stops for good, or leaves less to send, or leaves as much and used up one refusal. -/
structure Progress {σ ρ : Type} (net : Nat → Int) (step : σ → ρ × σ) (again : ρ → Prop) (inv : σ → Prop)
    (left turn : σ → Nat) : Prop where
  keeps : ∀ s, inv s → again (step s).1 → inv (step s).2
  moves : ∀ s, inv s → again (step s).1 →
    left (step s).2 < left s ∨
      (left (step s).2 = left s ∧ turn (step s).2 = turn s + 1 ∧ net (turn s) ≤ 0)

/-- How far off the next acceptance is. -/
theorem Fair.next {net : Nat → Int} (h : Fair net) (t : Nat) : ∃ d, 0 < net (t + d) ∧ ∀ e < d, net (t + e) ≤ 0 := by
  obtain ⟨t', hle, ht'⟩ := h t
  obtain ⟨d, rfl⟩ := Nat.exists_eq_add_of_le hle
  induction d using Nat.strong_induction_on with
  | _ d ih =>
    by_cases hex : ∃ e < d, 0 < net (t + e)
    · obtain ⟨e, he, hpos⟩ := hex
      exact ih e he (Nat.le_add_right t e) hpos
    · exact ⟨d, ht', fun e he => not_lt.mp fun hpos => hex ⟨e, he, hpos⟩⟩

/-- Over a fair transport a sender that comes back whenever it is told to does not do so for ever. The
induction is on what is left, and inside it on how far off the next acceptance is. -/
theorem ends_of_progress {σ ρ : Type} {net : Nat → Int} {step : σ → ρ × σ} {again : ρ → Prop} {inv : σ → Prop}
    {left turn : σ → Nat} (hfair : Fair net) (h : Progress net step again inv left turn) (s : σ) (hs : inv s) :
    ∃ n, inv ((fun s => (step s).2)^[n] s) ∧ ¬again (step ((fun s => (step s).2)^[n] s)).1 ∧
      ∀ m < n, again (step ((fun s => (step s).2)^[m] s)).1 := by
  obtain ⟨m, hm⟩ : ∃ m, left s = m := ⟨_, rfl⟩
  induction m using Nat.strong_induction_on generalizing s with
  | _ m ihm =>
    obtain ⟨d, hd, hrefused⟩ := hfair.next (turn s)
    induction d generalizing s with
    | zero =>
      by_cases ha : again (step s).1
      · rcases h.moves s hs ha with hlt | ⟨-, -, hno⟩
        · obtain ⟨n, hinv, hstop, hagain⟩ := ihm _ (hm ▸ hlt) _ (h.keeps s hs ha) rfl
          refine ⟨n + 1, by simpa using hinv, by simpa using hstop, fun k hk => ?_⟩
          cases k with
          | zero => exact ha
          | succ k => simpa using hagain k (by omega)
        · exact absurd hno (not_le.mpr hd)
      · exact ⟨0, hs, ha, fun k hk => absurd hk (Nat.not_lt_zero k)⟩
    | succ d ihd =>
      by_cases ha : again (step s).1
      · obtain ⟨n, hinv, hstop, hagain⟩ :
            ∃ n, inv ((fun s => (step s).2)^[n] (step s).2) ∧
              ¬again (step ((fun s => (step s).2)^[n] (step s).2)).1 ∧
                ∀ m < n, again (step ((fun s => (step s).2)^[m] (step s).2)).1 := by
          rcases h.moves s hs ha with hlt | ⟨heq, hturn, -⟩
          · exact ihm _ (hm ▸ hlt) _ (h.keeps s hs ha) rfl
          · refine ihd _ (h.keeps s hs ha) (heq.trans hm) ?_ ?_
            · rw [hturn, Nat.add_assoc, Nat.add_comm 1 d]
              exact hd
            · intro e he
              rw [hturn, Nat.add_assoc, Nat.add_comm 1 e]
              exact hrefused (e + 1) (by omega)
        refine ⟨n + 1, by simpa using hinv, by simpa using hstop, fun k hk => ?_⟩
        cases k with
        | zero => exact ha
        | succ k => simpa using hagain k (by omega)
      · exact ⟨0, hs, ha, fun k hk => absurd hk (Nat.not_lt_zero k)⟩

/-! ### Asking until all is taken -/

/-- Handing over `n` bytes from turn `t` on, with at most `fuel` calls: the turn after, and how much
is left when the transport refused. -/
def carry (net : Nat → Int) : Nat → Nat → Nat → Nat × Nat
  | 0, t, n => (t, n)
  | fuel + 1, t, n =>
    if net t ≤ 0 then (t + 1, n)
    else if (net t).toNat < n then carry net fuel (t + 1) (n - (net t).toNat)
    else (t + 1, 0)

theorem carry_left_le (net : Nat → Int) (fuel t n : Nat) : (carry net fuel t n).2 ≤ n := by
  induction fuel generalizing t n with
  | zero => exact Nat.le_refl n
  | succ fuel ih =>
    simp only [carry]
    split
    · exact Nat.le_refl n
    split
    · exact (ih _ _).trans (Nat.sub_le _ _)
    · exact Nat.zero_le n

/-- Something is taken unless the first answer is a refusal. -/
theorem carry_left_lt {net : Nat → Int} {fuel t n : Nat} (hn : 0 < n) (hfuel : 0 < fuel) (h : 0 < net t) :
    (carry net fuel t n).2 < n := by
  obtain ⟨fuel, rfl⟩ := Nat.exists_eq_succ_of_ne_zero hfuel.ne'
  have hpos : 0 < (net t).toNat := by omega
  rw [carry, if_neg (not_le.mpr h)]
  split
  · exact lt_of_le_of_lt (carry_left_le net fuel _ _) (Nat.sub_lt hn hpos)
  · exact hn

theorem carry_refused {net : Nat → Int} {fuel t n : Nat} (hfuel : 0 < fuel) (h : net t ≤ 0) :
    carry net fuel t n = (t + 1, n) := by
  obtain ⟨fuel, rfl⟩ := Nat.exists_eq_succ_of_ne_zero hfuel.ne'
  rw [carry, if_pos h]

/-- Pieces of the given sizes go out one after the other without a refusal. -/
def Unbroken (net : Nat → Int) : Nat → List Nat → Prop
  | _, [] => True
  | t, n :: ns => (carry net n t n).2 = 0 ∧ Unbroken net (carry net n t n).1 ns

theorem Unbroken.first {net : Nat → Int} {t n : Nat} {ns : List Nat} (hn : 0 < n) (h : Unbroken net t (n :: ns)) :
    0 < net t := by
  by_contra hno
  have hrefused := carry_refused (n := n) hn (not_lt.mp hno)
  have hall := h.1
  rw [hrefused] at hall
  exact hn.ne' hall

/-- The turn after pieces that went out whole. -/
def endTurn (net : Nat → Int) : Nat → List Nat → Nat
  | t, [] => t
  | t, n :: ns => endTurn net (carry net n t n).1 ns

theorem unbroken_append (net : Nat → Int) (t : Nat) (ns ms : List Nat) :
    Unbroken net t (ns ++ ms) ↔ Unbroken net t ns ∧ Unbroken net (endTurn net t ns) ms := by
  induction ns generalizing t with
  | nil => simp [Unbroken, endTurn]
  | cons n ns ih => simp [Unbroken, endTurn, ih, and_assoc]

theorem endTurn_append (net : Nat → Int) (t : Nat) (ns ms : List Nat) :
    endTurn net t (ns ++ ms) = endTurn net (endTurn net t ns) ms := by
  induction ns generalizing t with
  | nil => rfl
  | cons n ns ih => exact ih _

instance decidableUnbroken (net : Nat → Int) : (t : Nat) → (ns : List Nat) → Decidable (Unbroken net t ns)
  | _, [] => .isTrue trivial
  | t, n :: ns =>
    have := decidableUnbroken net (carry net n t n).1 ns
    inferInstanceAs (Decidable ((carry net n t n).2 = 0 ∧ Unbroken net (carry net n t n).1 ns))

end Transfer
