/-! Two fallible computations that agree: they fail alike, or give related values.

`Fails` relates failures and `Gives` values. One side may do more than the other (read a memory where
the other is handed a list), and a failure only that side has is ruled out by relating it to nothing. -/
namespace Agree

variable {ε ε' α α' β β' : Type} {Fails : ε → ε' → Prop} {Gives : α → α' → Prop} {Gives' : β → β' → Prop}

/-- What a value of two steps says about each. -/
theorem bind_eq_ok {x : Except ε α} {f : α → Except ε β} {b : β} : (x >>= f) = .ok b ↔ ∃ a, x = .ok a ∧ f a = .ok b := by
  cases x with
  | error e =>
    constructor
    · intro h
      cases h
    · rintro ⟨a, h, -⟩
      cases h
  | ok a =>
    constructor
    · intro h
      exact ⟨a, rfl, h⟩
    · rintro ⟨a', h, h'⟩
      cases h
      exact h'

theorem ok_bind (a : α) (f : α → Except ε β) : (Except.ok a >>= f) = f a := rfl

/-- Every failure of a computation is of one kind. -/
def Only (Bad : ε → Prop) (x : Except ε α) : Prop := ∀ e, x = .error e → Bad e

theorem only_ok {Bad : ε → Prop} (a : α) : Only Bad (.ok a) := by
  intro e h
  cases h

theorem only_error {Bad : ε → Prop} {e : ε} (h : Bad e) : Only Bad (.error e : Except ε α) := by
  intro e' he
  cases he
  exact h

theorem only_ite {Bad : ε → Prop} {c : Prop} [Decidable c] {x y : Except ε α} (hx : Only Bad x) (hy : Only Bad y) :
    Only Bad (if c then x else y) := by
  split
  · exact hx
  · exact hy

theorem only_bind {Bad : ε → Prop} {x : Except ε α} {f : α → Except ε β} (hx : Only Bad x) (hf : ∀ a, Only Bad (f a)) :
    Only Bad (x >>= f) := by
  cases x with
  | error e => exact only_error (hx e rfl)
  | ok a => exact hf a

/-- Every failure is of one kind, and `P` holds of what is given. -/
def Yields (Bad : ε → Prop) (P : α → Prop) : Except ε α → Prop
  | .ok a => P a
  | .error e => Bad e

namespace Yields
variable {Bad : ε → Prop} {P Q : α → Prop} {R : β → Prop} {x : Except ε α}

theorem of_ok (h : Yields Bad P x) {a : α} (hx : x = .ok a) : P a := by
  subst hx
  exact h

theorem of_error (h : Yields Bad P x) {e : ε} (hx : x = .error e) : Bad e := by
  subst hx
  exact h

theorem ok {a : α} (h : P a) : Yields Bad P (.ok a : Except ε α) := h

theorem error {e : ε} (h : Bad e) : Yields Bad P (.error e : Except ε α) := h

theorem bind {f : α → Except ε β} (hx : Yields Bad P x) (hf : ∀ a, P a → Yields Bad R (f a)) : Yields Bad R (x >>= f) := by
  cases x with
  | error e => exact hx
  | ok a => exact hf a hx

theorem ite {c : Prop} [Decidable c] {y : Except ε α} (hx : c → Yields Bad P x) (hy : ¬c → Yields Bad P y) :
    Yields Bad P (if c then x else y) := by
  by_cases hc : c
  · rw [if_pos hc]
    exact hx hc
  · rw [if_neg hc]
    exact hy hc

theorem mono (h : Yields Bad P x) (hPQ : ∀ a, P a → Q a) : Yields Bad Q x := by
  cases x with
  | error e => exact h
  | ok a => exact hPQ a h

theorem map {f : α → β} (h : Yields Bad P x) (hf : ∀ a, P a → R (f a)) : Yields Bad R (f <$> x) := by
  cases x with
  | error e => exact h
  | ok a => exact hf a h

end Yields

/-- Related failures or related values. -/
def Agrees (Fails : ε → ε' → Prop) (Gives : α → α' → Prop) : Except ε α → Except ε' α' → Prop
  | .ok a, .ok b => Gives a b
  | .error e, .error e' => Fails e e'
  | _, _ => False

theorem ok {a : α} {b : α'} (h : Gives a b) : Agrees Fails Gives (.ok a) (.ok b) := h

theorem error {e : ε} {e' : ε'} (h : Fails e e') : Agrees Fails Gives (.error e) (.error e') := h

theorem cases {x : Except ε α} {y : Except ε' α'} (h : Agrees Fails Gives x y) :
    (∃ e e', x = .error e ∧ y = .error e' ∧ Fails e e') ∨ ∃ a b, x = .ok a ∧ y = .ok b ∧ Gives a b := by
  cases x with
  | error e =>
    cases y with
    | error e' => exact .inl ⟨e, e', rfl, rfl, h⟩
    | ok b => exact h.elim
  | ok a =>
    cases y with
    | error e' => exact h.elim
    | ok b => exact .inr ⟨a, b, rfl, rfl, h⟩

/-- Agreement is carried along the steps of two computations. -/
theorem bind_of_ok {x : Except ε α} {y : Except ε' α'} {f : α → Except ε β} {g : α' → Except ε' β'}
    (h : Agrees Fails Gives x y) (hstep : ∀ a b, x = .ok a → y = .ok b → Gives a b → Agrees Fails Gives' (f a) (g b)) :
    Agrees Fails Gives' (x >>= f) (y >>= g) := by
  obtain ⟨e, e', rfl, rfl, he⟩ | ⟨a, b, rfl, rfl, hab⟩ := cases h
  · exact error he
  · exact hstep a b rfl rfl hab

theorem bind {x : Except ε α} {y : Except ε' α'} {f : α → Except ε β} {g : α' → Except ε' β'}
    (h : Agrees Fails Gives x y) (hstep : ∀ a b, Gives a b → Agrees Fails Gives' (f a) (g b)) :
    Agrees Fails Gives' (x >>= f) (y >>= g) :=
  bind_of_ok h fun a b _ _ hab => hstep a b hab

/-- Two tests that come out alike. -/
theorem ite {c d : Prop} [Decidable c] [Decidable d] {x x' : Except ε α} {y y' : Except ε' α'} (hcd : c ↔ d)
    (h : c → Agrees Fails Gives x y) (h' : ¬c → Agrees Fails Gives x' y') :
    Agrees Fails Gives (if c then x else x') (if d then y else y') := by
  by_cases hc : c
  · rw [if_pos hc, if_pos (hcd.mp hc)]
    exact h hc
  · rw [if_neg hc, if_neg (fun hd => hc (hcd.mpr hd))]
    exact h' hc

/-- A value on the left has one on the right. -/
theorem right_of_ok {a : α} {x : Except ε α} {y : Except ε' α'} (h : Agrees Fails Gives x y) (hx : x = .ok a) :
    ∃ b, y = .ok b ∧ Gives a b := by
  subst hx
  obtain ⟨e, e', he, -⟩ | ⟨a', b, ha, hb, hab⟩ := cases h
  · cases he
  · cases ha
    exact ⟨b, hb, hab⟩

/-- A value on the right has one on the left. -/
theorem left_of_ok {b : α'} {x : Except ε α} {y : Except ε' α'} (h : Agrees Fails Gives x y) (hy : y = .ok b) :
    ∃ a, x = .ok a ∧ Gives a b := by
  subst hy
  obtain ⟨e, e', -, he, -⟩ | ⟨a, b', ha, hb, hab⟩ := cases h
  · cases he
  · cases hb
    exact ⟨a, ha, hab⟩

/-- A failure on the left has one on the right. -/
theorem fails_of_error {e : ε} {x : Except ε α} {y : Except ε' α'} (h : Agrees Fails Gives x y) (hx : x = .error e) :
    ∃ e', y = .error e' ∧ Fails e e' := by
  subst hx
  obtain ⟨f, e', hf, he', hfe⟩ | ⟨a, b, ha, -⟩ := cases h
  · cases hf
    exact ⟨e', he', hfe⟩
  · cases ha

end Agree
