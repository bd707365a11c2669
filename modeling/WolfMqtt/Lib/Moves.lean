import Mathlib.Logic.Relation

/-! Stateful programs and what they do to their state.

`Moves R m` says that a program in a state monad takes every state to one that `R`
relates to it. For a preorder the property composes along binds, so a program moves
along `R` when its primitive writes do. A run over a list of inputs keeps an invariant
that each input keeps. -/

variable {σ τ ι α β : Type}

/-! ### Running a program -/

theorem run_bind (m : StateM σ α) (f : α → StateM σ β) (s : σ) : (m >>= f) s = f (m s).1 (m s).2 := rfl

theorem run_pure (x : α) (s : σ) : (pure x : StateM σ α) s = (x, s) := rfl

theorem run_get (s : σ) : (get : StateM σ σ) s = (s, s) := rfl

theorem run_modify (f : σ → σ) (s : σ) : (modify f : StateM σ Unit) s = ((), f s) := rfl

theorem run_ite {p : Prop} [Decidable p] (m m' : StateM σ α) (s : σ) :
    (if p then m else m') s = if p then m s else m' s := by
  split <;> rfl

/-! ### What a program does to its state -/

/-- From every state, `m` ends in a state that `R` relates to it. -/
def Moves (R : σ → σ → Prop) (m : StateM σ α) : Prop := ∀ s, R s (m s).2

/-- The states of `σ` related as their images under a view are. -/
instance InvImage.isPreorder (R : τ → τ → Prop) [IsPreorder τ R] (view : σ → τ) :
    IsPreorder σ (InvImage R view) where
  refl s := refl (r := R) (view s)
  trans _ _ _ h h' := trans_of R h h'

namespace Moves
variable {R S : σ → σ → Prop}

theorem mono {m : StateM σ α} (h : ∀ s s', R s s' → S s s') (hm : Moves R m) : Moves S m :=
  fun s => h _ _ (hm s)

theorem modify {f : σ → σ} (h : ∀ s, R s (f s)) : Moves R (modify f : StateM σ Unit) := h

theorem ite {p : Prop} [Decidable p] {m m' : StateM σ α} (h : p → Moves R m) (h' : ¬p → Moves R m') :
    Moves R (if p then m else m') := by
  by_cases hp : p
  · rw [if_pos hp]
    exact h hp
  · rw [if_neg hp]
    exact h' hp

/-- What follows a look at the state knows the state it saw. -/
theorem get_bind {f : σ → StateM σ β} (h : ∀ s, R s (f s s).2) : Moves R (get >>= f) := h

theorem get_at {f : σ → StateM σ β} {s₀ s : σ} (h : R s₀ (f s s).2) : R s₀ ((get >>= f) s).2 := h

variable [IsPreorder σ R]

theorem pure (x : α) : Moves R (pure x : StateM σ α) := fun s => refl s

/-- One bind, from a state. -/
theorem bind_at {m : StateM σ α} {f : α → StateM σ β} {s : σ} (hm : R s (m s).2)
    (hf : R (m s).2 (f (m s).1 (m s).2).2) : R s ((m >>= f) s).2 := trans_of R hm hf

theorem bind {m : StateM σ α} {f : α → StateM σ β} (hm : Moves R m) (hf : ∀ x, Moves R (f x)) :
    Moves R (m >>= f) := fun s => bind_at (hm s) (hf _ _)

/-- What is done on a condition, from a state. -/
theorem when_at {p : Prop} [Decidable p] {m : StateM σ Unit} {s : σ} (h : p → R s (m s).2) :
    R s ((if p then m else Pure.pure ()) s).2 := by
  by_cases hp : p
  · rw [if_pos hp]
    exact h hp
  · rw [if_neg hp]
    exact refl s

end Moves

/-! ### Runs over inputs -/

/-- Every input of a run meets a condition in the state it finds. -/
def Along (f : σ → ι → σ) (Q : σ → ι → Prop) : σ → List ι → Prop
  | _, [] => True
  | s, i :: rest => Q s i ∧ Along f Q (f s i) rest

instance Along.decidable {f : σ → ι → σ} {Q : σ → ι → Prop} [∀ s i, Decidable (Q s i)] :
    ∀ (s : σ) (is : List ι), Decidable (Along f Q s is)
  | _, [] => .isTrue True.intro
  | s, i :: rest => @instDecidableAnd _ _ _ (Along.decidable (f s i) rest)

/-- A run whose inputs meet a condition keeps what each such input keeps. -/
theorem Along.invariant {I : σ → Prop} {f : σ → ι → σ} {Q : σ → ι → Prop} (step : ∀ s i, I s → Q s i → I (f s i)) :
    ∀ (is : List ι) (s : σ), Along f Q s is → I s → I (is.foldl f s) := by
  intro is
  induction is with
  | nil => exact fun s _ h => h
  | cons i rest ih => exact fun s hQ h => ih (f s i) hQ.2 (step s i h hQ.1)

theorem Along.trivial {f : σ → ι → σ} : ∀ (is : List ι) (s : σ), Along f (fun _ _ => True) s is := by
  intro is
  induction is with
  | nil => exact fun _ => True.intro
  | cons i rest ih => exact fun s => ⟨True.intro, ih (f s i)⟩

theorem Along.imp {f : σ → ι → σ} {Q Q' : σ → ι → Prop} (h : ∀ s i, Q s i → Q' s i) :
    ∀ {is : List ι} {s : σ}, Along f Q s is → Along f Q' s is := by
  intro is
  induction is with
  | nil => exact fun _ => True.intro
  | cons i rest ih => exact fun hQ => ⟨h _ _ hQ.1, ih hQ.2⟩

theorem Along.append {f : σ → ι → σ} {Q : σ → ι → Prop} {is is' : List ι} {s : σ} :
    Along f Q s (is ++ is') ↔ Along f Q s is ∧ Along f Q (is.foldl f s) is' := by
  induction is generalizing s with
  | nil => exact (and_iff_right True.intro).symm
  | cons i rest ih => exact (and_congr_right fun _ => ih).trans and_assoc.symm

/-- The condition is met wherever the run is taken apart. -/
theorem along_iff {f : σ → ι → σ} {Q : σ → ι → Prop} {is : List ι} {s : σ} :
    Along f Q s is ↔ ∀ before i after, is = before ++ i :: after → Q (before.foldl f s) i := by
  constructor
  · rintro h before i after rfl
    exact (Along.append.mp h).2.1
  · induction is generalizing s with
    | nil => exact fun _ => True.intro
    | cons i rest ih =>
      exact fun h => ⟨h [] i rest rfl, ih fun before j after heq => h (i :: before) j after (congrArg (i :: ·) heq)⟩

/-! ### Runs of steps that may not be possible -/

/-- What a run from `s₀` reaches, every step of which meets a condition in the state it finds. -/
inductive Runs (f : σ → ι → Option σ) (Q : σ → ι → Prop) (s₀ : σ) : σ → Prop where
  | start : Runs f Q s₀ s₀
  | step {s s' : σ} {i : ι} : Runs f Q s₀ s → Q s i → f s i = some s' → Runs f Q s₀ s'

/-- A run whose steps meet a condition keeps what each such step keeps. -/
theorem Runs.invariant {I : σ → Prop} {f : σ → ι → Option σ} {Q : σ → ι → Prop} {s₀ s : σ}
    (step : ∀ {s s' i}, I s → Q s i → f s i = some s' → I s') (hrun : Runs f Q s₀ s) (h₀ : I s₀) : I s := by
  induction hrun with
  | start => exact h₀
  | step _ hQ hf ih => exact step ih hQ hf

/-- The run over a list of inputs. -/
def runList (f : σ → ι → Option σ) (s : σ) : List ι → Option σ
  | [] => some s
  | i :: rest => (f s i).bind (fun s' => runList f s' rest)

/-- A run over a list each of whose inputs passes a check, which decides the condition where `I` holds. -/
theorem Runs.of_checked {I : σ → Prop} {f : σ → ι → Option σ} {Q : σ → ι → Prop} {c : σ → ι → Bool} {s₀ s' : σ}
    (keeps : ∀ {s s' i}, I s → c s i → f s i = some s' → I s') (meets : ∀ {s i}, I s → c s i → Q s i) :
    ∀ {is : List ι} {s : σ}, Runs f Q s₀ s → I s → runList (fun s i => if c s i then f s i else none) s is = some s' →
      Runs f Q s₀ s' := by
  intro is
  induction is with
  | nil =>
    intro s h _ hrun
    cases hrun
    exact h
  | cons i rest ih =>
    intro s h hs hrun
    obtain ⟨s₁, hstep, hrest⟩ := Option.bind_eq_some_iff.mp hrun
    dsimp only at hstep
    split at hstep
    next hc => exact ih (h.step (meets hs hc) hstep) (keeps hs hc hstep) hrest
    next => cases hstep

theorem Runs.of_runList {f : σ → ι → Option σ} {is : List ι} {s₀ s s' : σ} (h : Runs f (fun _ _ => True) s₀ s)
    (hrun : runList f s is = some s') : Runs f (fun _ _ => True) s₀ s' :=
  of_checked (I := fun _ => True) (c := fun _ _ => true) (fun _ _ _ => True.intro) (fun _ _ => True.intro) h True.intro hrun
