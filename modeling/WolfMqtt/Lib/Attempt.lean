import Mathlib.Data.Option.Basic

/-! Computations on a state that may fail, and what holds where they end.

A computation that fails leaves the state as it is then. `Triple pre p err post` says what holds of the
state when `p` fails, and what holds of it and of the value when `p` returns. -/
namespace Attempt

variable {σ ε α β : Type}

def Prog (σ ε α : Type) := σ → Except ε α × σ

namespace Prog

protected def pure (a : α) : Prog σ ε α := fun s => (.ok a, s)

protected def bind (p : Prog σ ε α) (f : α → Prog σ ε β) : Prog σ ε β := fun s =>
  match p s with
  | (.ok a, s) => f a s
  | (.error e, s) => (.error e, s)

instance : Monad (Prog σ ε) where
  pure := Prog.pure
  bind := Prog.bind

end Prog

/-- A part that has nothing to do with the state. -/
def lift (x : Except ε α) : Prog σ ε α := fun s => (x, s)

/-- A part that cannot fail. -/
def act (f : σ → α × σ) : Prog σ ε α := fun s => (.ok (f s).1, (f s).2)

/-- Undo something when a part fails. -/
def onError (p : Prog σ ε α) (undo : Prog σ ε Unit) : Prog σ ε α := fun s =>
  match p s with
  | (.ok a, s) => (.ok a, s)
  | (.error e, s) => (.error e, (undo s).2)

def fail (e : ε) : Prog σ ε α := lift (.error e)

/-- The state, and what is made of it. -/
def fetch : Prog σ ε σ := act fun s => (s, s)

def change (f : σ → σ) : Prog σ ε Unit := act fun s => ((), f s)

/-! ### Running -/

section Run
variable {p : Prog σ ε α} {s s' : σ}

theorem run_pure (a : α) (s : σ) : (pure a : Prog σ ε α) s = (.ok a, s) := rfl

theorem run_bind (p : Prog σ ε α) (f : α → Prog σ ε β) (s : σ) : (p >>= f) s =
    match p s with
    | (.ok a, s) => f a s
    | (.error e, s) => (.error e, s) := rfl

theorem run_bind_ok {a : α} (h : p s = (.ok a, s')) (f : α → Prog σ ε β) : (p >>= f) s = f a s' := by
  rw [run_bind, h]

theorem run_bind_error {e : ε} (h : p s = (.error e, s')) (f : α → Prog σ ε β) : (p >>= f) s = (.error e, s') := by
  rw [run_bind, h]

theorem bind_assoc {γ : Type} (p : Prog σ ε α) (f : α → Prog σ ε β) (g : β → Prog σ ε γ) :
    (p >>= f) >>= g = p >>= fun a => f a >>= g := by
  funext s
  rw [run_bind, run_bind, run_bind]
  rcases p s with ⟨_ | a, s'⟩ <;> rfl

theorem run_pure_bind (a : α) (f : α → Prog σ ε β) (s : σ) : (pure a >>= f) s = f a s := rfl

theorem run_lift_bind {x : Except ε α} {a : α} (h : x = .ok a) (f : α → Prog σ ε β) (s : σ) :
    (lift x >>= f) s = f a s := run_bind_ok (by rw [lift, h]) f

theorem run_onError_lift_bind {x : Except ε α} {a : α} (h : x = .ok a) (undo : Prog σ ε Unit) (f : α → Prog σ ε β)
    (s : σ) : (onError (lift x) undo >>= f) s = f a s := run_bind_ok (by rw [onError, lift, h]) f

theorem run_lift_error {x : Except ε α} {e : ε} (h : x = .error e) (f : α → Prog σ ε β) (s : σ) :
    (lift x >>= f) s = (.error e, s) := run_bind_error (by rw [lift, h]) f

end Run

/-! ### Triples -/

/-- What holds of a result: `post` of a value, `err` where there is none. -/
def Ends (err : σ → Prop) (post : α → σ → Prop) : Except ε α × σ → Prop
  | (.ok a, s) => post a s
  | (.error _, s) => err s

def Triple (pre : σ → Prop) (p : Prog σ ε α) (err : σ → Prop) (post : α → σ → Prop) : Prop :=
  ∀ s, pre s → Ends err post (p s)

namespace Triple
variable {pre pre' : σ → Prop} {p : Prog σ ε α} {err err' : σ → Prop} {post post' : α → σ → Prop}

theorem of_run {s s' : σ} {a : α} (h : Triple pre p err post) (hs : pre s) (hrun : p s = (.ok a, s')) : post a s' := by
  have hends : Ends err post (p s) := h s hs
  rwa [hrun] at hends

theorem ret {a : α} (h : ∀ s, pre s → post a s) : Triple pre (pure a : Prog σ ε α) err post := h

theorem lift {x : Except ε α} (herr : ∀ s, pre s → err s) (h : ∀ a, x = .ok a → ∀ s, pre s → post a s) :
    Triple pre (lift x) err post := by
  intro s hs
  cases x with
  | error e => exact herr s hs
  | ok a => exact h a rfl s hs

theorem act {f : σ → α × σ} (h : ∀ s, pre s → post (f s).1 (f s).2) :
    Triple pre (act f : Prog σ ε α) err post := h

/-- The value of the first part is named, and what holds of it is what the second part starts from. -/
theorem bind {f : α → Prog σ ε β} {q : β → σ → Prop} (hp : Triple pre p err post)
    (hf : ∀ a, Triple (post a) (f a) err q) : Triple pre (p >>= f) err q := by
  intro s hs
  have hends : Ends err post (p s) := hp s hs
  rw [run_bind]
  rcases h : p s with ⟨_ | a, s'⟩ <;> rw [h] at hends
  · exact hends
  · exact hf a s' hends

theorem pure_bind {a : α} {f : α → Prog σ ε β} {q : β → σ → Prop} (h : Triple pre (f a) err q) :
    Triple pre (pure a >>= f) err q := h

theorem lift_bind {x : Except ε α} {f : α → Prog σ ε β} {q : β → σ → Prop} (herr : ∀ s, pre s → err s)
    (hf : ∀ a, x = .ok a → Triple pre (f a) err q) : Triple pre (Attempt.lift x >>= f) err q := by
  cases x with
  | error e => exact herr
  | ok a => exact hf a rfl

theorem conseq (h : Triple pre p err post) (hpre : ∀ s, pre' s → pre s) (herr : ∀ s, err s → err' s)
    (hpost : ∀ a s, post a s → post' a s) : Triple pre' p err' post' := by
  intro s hs
  have hends : Ends err post (p s) := h s (hpre s hs)
  rcases hp : p s with ⟨_ | a, s'⟩ <;> rw [hp] at hends
  · exact herr s' hends
  · exact hpost a s' hends

theorem and {pre₂ err₂ : σ → Prop} {post₂ : α → σ → Prop} (h : Triple pre p err post) (h₂ : Triple pre₂ p err₂ post₂) :
    Triple (fun s => pre s ∧ pre₂ s) p (fun s => err s ∧ err₂ s) fun a s => post a s ∧ post₂ a s := by
  intro s hs
  have hends : Ends err post (p s) := h s hs.1
  have hends₂ : Ends err₂ post₂ (p s) := h₂ s hs.2
  rcases hp : p s with ⟨_ | a, s'⟩ <;> rw [hp] at hends hends₂ <;> exact ⟨hends, hends₂⟩

theorem weaken (h : Triple pre p err post) (hpre : ∀ s, pre' s → pre s) : Triple pre' p err post :=
  fun s hs => h s (hpre s hs)

theorem ite {c : Prop} [Decidable c] {p' : Prog σ ε α} (h : c → Triple pre p err post)
    (h' : ¬c → Triple pre p' err post) : Triple pre (if c then p else p') err post := by
  by_cases hc : c
  · rw [if_pos hc]
    exact h hc
  · rw [if_neg hc]
    exact h' hc

/-- The undoing takes the state from wherever the part has failed. -/
theorem onError {undo : Prog σ ε Unit} (hp : Triple pre p err' post)
    (hundo : Triple err' undo err fun _ => err) : Triple pre (onError p undo) err post := by
  intro s hs
  have hends : Ends err' post (p s) := hp s hs
  unfold Attempt.onError
  rcases h : p s with ⟨_ | a, s'⟩ <;> rw [h] at hends
  · have hun := hundo s' hends
    dsimp only
    rcases hu : undo s' with ⟨_ | _, s''⟩ <;> rw [hu] at hun <;> exact hun
  · exact hends

/-- A part of the precondition is named before the run. -/
theorem exists_pre {ι : Type} {P : ι → σ → Prop} (h : ∀ i, Triple (P i) p err post) :
    Triple (fun s => ∃ i, P i s) p err post :=
  fun s hs => hs.elim fun i hi => h i s hi

end Triple

/-! ### Failures told apart -/

/-- What holds of a result: `post` of a value, `err` of a failure. -/
def Leaves (err : ε → σ → Prop) (post : α → σ → Prop) : Except ε α × σ → Prop
  | (.ok a, s) => post a s
  | (.error e, s) => err e s

/-- From a state that `pre` holds of, `p` ends as said. -/
def Spec (pre : σ → Prop) (p : Prog σ ε α) (err : ε → σ → Prop) (post : α → σ → Prop) : Prop :=
  ∀ s, pre s → Leaves err post (p s)

namespace Spec
variable {pre pre' : σ → Prop} {p : Prog σ ε α} {err : ε → σ → Prop} {post : α → σ → Prop}

theorem of_error {s s' : σ} {e : ε} (h : Spec pre p err post) (hs : pre s) (hrun : p s = (.error e, s')) : err e s' := by
  have hleaves : Leaves err post (p s) := h s hs
  rwa [hrun] at hleaves

theorem ret {a : α} (h : ∀ s, pre s → post a s) : Spec pre (pure a : Prog σ ε α) err post := h

theorem fail {e : ε} (h : ∀ s, pre s → err e s) : Spec pre (fail e : Prog σ ε α) err post := h

theorem lift {x : Except ε α} (herr : ∀ e, x = .error e → ∀ s, pre s → err e s) (h : ∀ a, x = .ok a → ∀ s, pre s → post a s) :
    Spec pre (lift x) err post := by
  intro s hs
  cases x with
  | error e => exact herr e rfl s hs
  | ok a => exact h a rfl s hs

theorem change {f : σ → σ} {post : Unit → σ → Prop} (h : ∀ s, pre s → post () (f s)) :
    Spec pre (change f : Prog σ ε Unit) err post := h

theorem bind {mid : α → σ → Prop} {f : α → Prog σ ε β} {q : β → σ → Prop} (hp : Spec pre p err mid)
    (hf : ∀ a, Spec (mid a) (f a) err q) : Spec pre (p >>= f) err q := by
  intro s hs
  have hleaves : Leaves err mid (p s) := hp s hs
  rw [run_bind]
  rcases h : p s with ⟨_ | a, s'⟩ <;> rw [h] at hleaves
  · exact hleaves
  · exact hf a s' hleaves

theorem lift_bind {x : Except ε α} {f : α → Prog σ ε β} {q : β → σ → Prop}
    (herr : ∀ e, x = .error e → ∀ s, pre s → err e s) (hf : ∀ a, x = .ok a → Spec pre (f a) err q) :
    Spec pre (Attempt.lift x >>= f) err q := by
  cases x with
  | error e => exact herr e rfl
  | ok a => exact hf a rfl

theorem change_bind {g : σ → σ} {f : Unit → Prog σ ε β} {mid : σ → Prop} {q : β → σ → Prop} (hg : ∀ s, pre s → mid (g s))
    (hf : Spec mid (f ()) err q) : Spec pre (Attempt.change g >>= f) err q :=
  fun s hs => hf (g s) (hg s hs)

/-- What is undone when a part that does not touch the state fails. -/
theorem onError_lift_bind {x : Except ε α} {undo : Prog σ ε Unit} {f : α → Prog σ ε β} {q : β → σ → Prop}
    (herr : ∀ e, x = .error e → ∀ s, pre s → err e (undo s).2) (hf : ∀ a, x = .ok a → Spec pre (f a) err q) :
    Spec pre (onError (Attempt.lift x) undo >>= f) err q := by
  cases x with
  | error e => exact herr e rfl
  | ok a => exact hf a rfl

/-- The state that is fetched is named. -/
theorem fetch_bind {f : σ → Prog σ ε β} {q : β → σ → Prop} (hf : ∀ s, pre s → Leaves err q (f s s)) :
    Spec pre (fetch >>= f) err q := hf

theorem ite {c : Prop} [Decidable c] {p' : Prog σ ε α} (h : c → Spec pre p err post) (h' : ¬c → Spec pre p' err post) :
    Spec pre (if c then p else p') err post := by
  by_cases hc : c
  · rw [if_pos hc]
    exact h hc
  · rw [if_neg hc]
    exact h' hc

theorem weaken (h : Spec pre p err post) (hpre : ∀ s, pre' s → pre s) : Spec pre' p err post :=
  fun s hs => h s (hpre s hs)

theorem imp {err' : ε → σ → Prop} {post' : α → σ → Prop} (h : Spec pre p err post) (herr : ∀ e s, err e s → err' e s)
    (hpost : ∀ a s, post a s → post' a s) : Spec pre p err' post' := by
  intro s hs
  have hleaves : Leaves err post (p s) := h s hs
  rcases hp : p s with ⟨e | a, s'⟩ <;> rw [hp] at hleaves
  · exact herr e s' hleaves
  · exact hpost a s' hleaves

end Spec

end Attempt
