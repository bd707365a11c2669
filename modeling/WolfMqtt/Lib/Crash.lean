import Mathlib.Data.Option.Basic

/-! Programs a crash may cut off, and what holds wherever it does.

A program takes a state to a state and returns a value, or nothing when it was cut off.
`Triple pre p post cut` says what holds of the state when `p` returns and what holds of
it when `p` is cut off; `cut` is the condition the next start of the program finds. -/
namespace Crash

variable {σ α β : Type}

/-- A program: no value means that it was cut off. -/
def Prog (σ α : Type) := σ → Option α × σ

namespace Prog

protected def pure (a : α) : Prog σ α := fun s => (some a, s)

protected def bind (p : Prog σ α) (f : α → Prog σ β) : Prog σ β := fun s =>
  match p s with
  | (some a, s') => f a s'
  | (none, s') => (none, s')

instance : Monad (Prog σ) where
  pure := Prog.pure
  bind := Prog.bind

/-- A step that no crash cuts. -/
def act (f : σ → α × σ) : Prog σ α := fun s => (some (f s).1, (f s).2)

end Prog

/-- What holds of a result: `post` of a value that was returned, `cut` where none was. -/
def Ends (post : α → σ → Prop) (cut : σ → Prop) : Option α × σ → Prop
  | (some a, s) => post a s
  | (none, s) => cut s

def Triple (pre : σ → Prop) (p : Prog σ α) (post : α → σ → Prop) (cut : σ → Prop) : Prop :=
  ∀ s, pre s → Ends post cut (p s)

namespace Triple
variable {pre pre' : σ → Prop} {post post' : α → σ → Prop} {cut cut' : σ → Prop} {p : Prog σ α}

theorem ret {q : α → σ → Prop} (a : α) (h : ∀ s, pre s → q a s) : Triple pre (pure a) q cut := h

theorem act {f : σ → α × σ} (h : ∀ s, pre s → post (f s).1 (f s).2) : Triple pre (Prog.act f) post cut := h

/-- The value of the first part is named and its postcondition is the precondition of the second. -/
theorem bind {f : α → Prog σ β} {q : β → σ → Prop} (hp : Triple pre p post cut)
    (hf : ∀ a, Triple (post a) (f a) q cut) : Triple pre (p >>= f) q cut := by
  intro s hs
  have hends : Ends post cut (p s) := hp s hs
  show Ends q cut (match p s with | (some a, s') => f a s' | (none, s') => (none, s'))
  rcases h : p s with ⟨_ | a, s'⟩ <;> rw [h] at hends
  · exact hends
  · exact hf a s' hends

theorem conseq (h : Triple pre p post cut) (hpre : ∀ s, pre' s → pre s)
    (hpost : ∀ a s, post a s → post' a s) (hcut : ∀ s, cut s → cut' s) : Triple pre' p post' cut' := by
  intro s hs
  have hends : Ends post cut (p s) := h s (hpre s hs)
  rcases h : p s with ⟨_ | a, s'⟩ <;> rw [h] at hends
  · exact hcut s' hends
  · exact hpost a s' hends

theorem weaken (h : Triple pre p post cut) (hpre : ∀ s, pre' s → pre s) : Triple pre' p post cut :=
  h.conseq hpre (fun _ _ h => h) (fun _ h => h)

theorem ite {c : Prop} [Decidable c] {p' : Prog σ α} (h : c → Triple pre p post cut)
    (h' : ¬c → Triple pre p' post cut) : Triple pre (if c then p else p') post cut := by
  by_cases hc : c
  · rw [if_pos hc]
    exact h hc
  · rw [if_neg hc]
    exact h' hc

end Triple

end Crash
