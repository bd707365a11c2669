import Mathlib.Data.Nat.ModEq
import Mathlib.Data.List.Basic

/-! Numbers as big-endian bytes of a fixed width. -/
namespace BigEndian

/-- The low `w` bytes of `n`, most significant first. -/
def write : Nat → Nat → List UInt8
  | 0, _ => []
  | w + 1, n => UInt8.ofNat (n / 256 ^ w) :: write w n

def read : List UInt8 → Nat
  | [] => 0
  | b :: bs => b.toNat * 256 ^ bs.length + read bs

@[simp]
theorem length_write (w n : Nat) : (write w n).length = w := by
  induction w with
  | zero => rfl
  | succ w ih => rw [write, List.length_cons, ih]

theorem read_write_mod (w n : Nat) : read (write w n) = n % 256 ^ w := by
  induction w with
  | zero => rw [write, read, pow_zero, Nat.mod_one]
  | succ w ih =>
    have hsplit : n % 256 ^ (w + 1) = n % 256 ^ w + 256 ^ w * (n / 256 ^ w % 256) := Nat.mod_pow_succ
    have hbyte : (UInt8.ofNat (n / 256 ^ w)).toNat = n / 256 ^ w % 256 := UInt8.toNat_ofNat'
    rw [write, read, ih, length_write, hbyte, hsplit, Nat.mul_comm, Nat.add_comm]

theorem read_write {w n : Nat} (h : n < 256 ^ w) : read (write w n) = n := by
  rw [read_write_mod, Nat.mod_eq_of_lt h]

@[simp]
theorem take_write (w n : Nat) (rest : List UInt8) : (write w n ++ rest).take w = write w n :=
  List.take_left' (length_write w n)

@[simp]
theorem drop_write (w n : Nat) (rest : List UInt8) : (write w n ++ rest).drop w = rest :=
  List.drop_left' (length_write w n)

/-- Numbers that fit are told apart by their bytes. -/
theorem write_inj {w m n : Nat} (hm : m < 256 ^ w) (hn : n < 256 ^ w) (h : write w m = write w n) : m = n := by
  rw [← read_write hm, h, read_write hn]

end BigEndian
