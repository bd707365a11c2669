import Mathlib.Data.List.Basic

/-! A buffer that is filled from the front, a piece at a time.

`writeAt` copies bytes to an offset. A copy that would pass the end makes the list
longer, so a buffer that keeps its length was never written past its end. -/
namespace Buffer

variable {α : Type}

/-- Copy `data` to the cells from `off` on. -/
def writeAt (buf : List α) (off : Nat) (data : List α) : List α :=
  buf.take off ++ data ++ buf.drop (off + data.length)

theorem length_writeAt (buf : List α) (off : Nat) (data : List α) (h : off + data.length ≤ buf.length) :
    (writeAt buf off data).length = buf.length := by
  simp only [writeAt, List.length_append, List.length_take, List.length_drop]
  omega

/-- What was filled before stays, and the new piece stands behind it. -/
theorem take_writeAt (buf : List α) (off : Nat) (data : List α) (h : off ≤ buf.length) :
    (writeAt buf off data).take (off + data.length) = buf.take off ++ data := by
  have hlen : (buf.take off ++ data).length = off + data.length := by
    rw [List.length_append, List.length_take, Nat.min_eq_left h]
  rw [writeAt, ← hlen, List.take_left']
  rfl

end Buffer
