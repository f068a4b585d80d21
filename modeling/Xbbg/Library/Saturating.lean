import Mathlib.Algebra.GroupWithZero.Nat
import Mathlib.Order.Lattice

/-! Arithmetic of machine words of 64 bits that stays at the greatest word instead of wrapping. -/

namespace Xbbg.Library

def usizeMax : ℕ := 2 ^ 64 - 1

/-- The word for a number. -/
def saturate (n : ℕ) : ℕ := min n usizeMax

def satAdd (a b : ℕ) : ℕ := saturate (a + b)

def satMul (a b : ℕ) : ℕ := saturate (a * b)

theorem saturate_le (n : ℕ) : saturate n ≤ usizeMax := min_le_right n usizeMax

theorem saturate_le_self (n : ℕ) : saturate n ≤ n := min_le_left n usizeMax

theorem saturate_mono {m n : ℕ} (h : m ≤ n) : saturate m ≤ saturate n := by
  unfold saturate
  omega

theorem saturate_of_le {n : ℕ} (h : n ≤ usizeMax) : saturate n = n := min_eq_left h

/-- A word below the greatest one is the number itself. -/
theorem le_of_saturate_le {n m : ℕ} (h : saturate n ≤ m) (hm : m < usizeMax) : n ≤ m := by
  unfold saturate at h
  omega

@[simp]
theorem saturate_saturate (n : ℕ) : saturate (saturate n) = saturate n :=
  saturate_of_le (saturate_le n)

@[simp]
theorem saturate_saturate_add (a b : ℕ) : saturate (saturate a + b) = saturate (a + b) := by
  unfold saturate
  omega

@[simp]
theorem saturate_add_saturate (a b : ℕ) : saturate (a + saturate b) = saturate (a + b) := by
  unfold saturate
  omega

theorem length_toString_le {n : ℕ} (h : n ≤ usizeMax) : (Nat.toDigits 10 n).length ≤ 20 := by
  apply (Nat.length_toDigits_le_iff (b := 10) (by decide) (by decide)).mpr
  exact lt_of_le_of_lt h (by decide)

end Xbbg.Library
