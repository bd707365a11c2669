import WolfMqtt.Lib.BigEndian
import WolfMqtt.Lib.Buffer

/-! Words packed one behind the other, each behind its length. -/
namespace Packed

/-- A word behind its length, in `w` bytes. -/
def item (w : Nat) (x : List UInt8) : List UInt8 := BigEndian.write w x.length ++ x

def pack (w : Nat) (xs : List (List UInt8)) : List UInt8 := xs.flatMap (item w)

variable {w : Nat} {x : List UInt8} {xs : List (List UInt8)}

@[simp]
theorem length_item (w : Nat) (x : List UInt8) : (item w x).length = w + x.length := by
  rw [item, List.length_append, BigEndian.length_write]

@[simp]
theorem pack_nil (w : Nat) : pack w [] = [] := rfl

@[simp]
theorem pack_cons (w : Nat) (x : List UInt8) (xs : List (List UInt8)) : pack w (x :: xs) = item w x ++ pack w xs := rfl

theorem pack_concat (w : Nat) (xs : List (List UInt8)) (x : List UInt8) : pack w (xs ++ [x]) = pack w xs ++ item w x := by
  rw [pack, List.flatMap_append, List.flatMap_singleton]
  rfl

/-- There is room for the length of every word. -/
theorem mul_length_le (w : Nat) (xs : List (List UInt8)) : w * xs.length ≤ (pack w xs).length := by
  induction xs with
  | nil => exact Nat.le_refl _
  | cons x xs ih =>
    rw [pack_cons, List.length_append, length_item, List.length_cons, Nat.mul_add_one]
    omega

/-- What stands at an offset that the words begin at: the length of the first one, and the word. -/
theorem take_drop {buf : List UInt8} {off : Nat} {tail : List UInt8} (h : buf.drop off = pack w (x :: xs) ++ tail) :
    (buf.drop off).take w = BigEndian.write w x.length ∧ (buf.drop (off + w)).take x.length = x ∧
      buf.drop (off + w + x.length) = pack w xs ++ tail := by
  have hsplit : buf.drop off = BigEndian.write w x.length ++ (x ++ (pack w xs ++ tail)) := by
    rw [h, pack_cons, item]
    simp only [List.append_assoc]
  have hword : buf.drop (off + w) = x ++ (pack w xs ++ tail) := by
    rw [← List.drop_drop, hsplit, BigEndian.drop_write]
  refine ⟨by rw [hsplit, BigEndian.take_write], by rw [hword, List.take_left], ?_⟩
  rw [← List.drop_drop, hword, List.drop_left]

end Packed
