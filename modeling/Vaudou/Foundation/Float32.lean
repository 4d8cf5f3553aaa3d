/-
**Single precision on positive integers.**

`roundSignificand n` is the `float` nearest to `n`, ties to even: the number with 24 significant bits.
A product with a constant below 1 is rounded in the same way, scaled by the power of two under the
constant (no exponent is out of range for 32-bit integers).

* `roundSignificand_le`, `le_roundSignificand` — the relative error is at most `2 ^ -24`.
-/

import Mathlib.Algebra.Order.Ring.Nat
import Mathlib.Tactic.Common
import Mathlib.Tactic.Linarith

namespace Vaudou.Float

/-- The unit in the last place of a number. -/
def ulp (n : Nat) : Nat := 2 ^ (n.log2 - 23)

/-- **The nearest number with 24 significant bits**, ties to even. -/
def roundSignificand (n : Nat) : Nat :=
  let q := n / ulp n
  let r := n % ulp n
  if ulp n < 2 * r ∨ (2 * r = ulp n ∧ q % 2 = 1) then (q + 1) * ulp n else q * ulp n

variable {n : Nat}

theorem ulp_pos : 0 < ulp n := Nat.pow_pos Nat.two_pos

/-- The unit is small against the number. -/
theorem ulp_small (large : 2 ≤ ulp n) : 2 ^ 23 * ulp n ≤ n := by
  have exponent : 23 ≤ n.log2 := by
    by_contra small
    rw [ulp, Nat.sub_eq_zero_of_le (by omega), pow_zero] at large
    omega
  have nonzero : n ≠ 0 := by
    rintro rfl
    rw [Nat.log2_zero] at exponent
    omega
  calc 2 ^ 23 * ulp n = 2 ^ n.log2 := by
        rw [ulp, ← Nat.pow_add, Nat.add_sub_cancel' exponent]
    _ ≤ n := Nat.log2_self_le nonzero

/-- The rounded number is within half a unit. -/
theorem roundSignificand_near :
    2 * roundSignificand n ≤ 2 * n + ulp n ∧ 2 * n ≤ 2 * roundSignificand n + ulp n := by
  have split := Nat.div_add_mod n (ulp n)
  have below := Nat.mod_lt n (ulp_pos (n := n))
  rw [Nat.mul_comm] at split
  unfold roundSignificand
  simp only
  split
  · next up =>
    rw [Nat.add_mul, Nat.one_mul]
    omega
  · next down =>
    have half : 2 * (n % ulp n) ≤ ulp n := by
      by_contra more
      exact down (Or.inl (by omega))
    omega

/-- A number with at most 24 bits is a `float`. -/
theorem roundSignificand_exact (unit : ulp n = 1) : roundSignificand n = n := by
  simp [roundSignificand, unit, Nat.mod_one]

/-- **The rounded number is not much larger.** -/
theorem roundSignificand_le : 2 ^ 24 * roundSignificand n ≤ (2 ^ 24 + 1) * n := by
  by_cases large : 2 ≤ ulp n
  · have near := (roundSignificand_near (n := n)).1
    have small := ulp_small large
    omega
  · rw [roundSignificand_exact (Nat.le_antisymm (by omega) ulp_pos)]
    omega

/-- **The rounded number is not much smaller.** -/
theorem le_roundSignificand : (2 ^ 24 - 1) * n ≤ 2 ^ 24 * roundSignificand n := by
  by_cases large : 2 ≤ ulp n
  · have near := (roundSignificand_near (n := n)).2
    have small := ulp_small large
    omega
  · rw [roundSignificand_exact (Nat.le_antisymm (by omega) ulp_pos)]
    omega

end Vaudou.Float
