import Mathlib.Data.BitVec

/-! Elapsed time in unsigned arithmetic.

A difference of two clock readings wraps when the clock went back. A test that first looks
whether it did is exact: it says what the same test over the natural numbers says. -/
namespace Elapsed

/-- `now >= start && now - start >= interval` in an unsigned type of `w` bits. -/
def reached {w : Nat} (now start interval : BitVec w) : Bool := decide (start ≤ now) && decide (interval ≤ now - start)

/-- `now >= start && now - start > interval` -/
def passed {w : Nat} (now start interval : BitVec w) : Bool := decide (start ≤ now) && decide (interval < now - start)

variable {w : Nat} {now start interval : BitVec w}

theorem reached_iff : reached now start interval = true ↔ start.toNat + interval.toNat ≤ now.toNat := by
  rw [reached, Bool.and_eq_true, decide_eq_true_eq, decide_eq_true_eq]
  constructor
  · rintro ⟨hle, hint⟩
    rw [BitVec.le_def, BitVec.toNat_sub_of_le hle] at hint
    rw [BitVec.le_def] at hle
    omega
  · intro h
    have hle : start ≤ now := by
      rw [BitVec.le_def]
      omega
    rw [BitVec.le_def (y := now - start), BitVec.toNat_sub_of_le hle]
    exact ⟨hle, by omega⟩

theorem passed_iff : passed now start interval = true ↔ start.toNat + interval.toNat < now.toNat := by
  rw [passed, Bool.and_eq_true, decide_eq_true_eq, decide_eq_true_eq]
  constructor
  · rintro ⟨hle, hint⟩
    rw [BitVec.lt_def, BitVec.toNat_sub_of_le hle] at hint
    rw [BitVec.le_def] at hle
    omega
  · intro h
    have hle : start ≤ now := by
      rw [BitVec.le_def]
      omega
    rw [BitVec.lt_def (y := now - start), BitVec.toNat_sub_of_le hle]
    exact ⟨hle, by omega⟩

end Elapsed
