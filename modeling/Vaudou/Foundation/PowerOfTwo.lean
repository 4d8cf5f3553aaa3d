/-
**Rounding up to a power of two by smearing bits.**

`smear x w` copies every bit of `x` to the place `w` below it. Smearing by 1, 2, 4, 8, 16 and 32 fills
the 64 places below every bit (`testBit_smearAll`), so it makes a word of 64 bits all ones up to its
highest bit (`smearAll_eq`).
-/

import Mathlib.Algebra.Order.Ring.Nat
import Mathlib.Data.Nat.Bitwise
import Mathlib.Tactic.Common

namespace Vaudou.PowerOfTwo

/-- Every bit also `w` places lower. -/
def smear (x w : Nat) : Nat := x ||| x >>> w

/-- Every bit also in the 63 places below. -/
def smearAll (x : Nat) : Nat := smear (smear (smear (smear (smear (smear x 1) 2) 4) 8) 16) 32

/-- The bits of `y` are those of `x`, each copied to the `w - 1` places below it. -/
def FilledFrom (x y w : Nat) : Prop := ∀ i, y.testBit i = true ↔ ∃ j < w, x.testBit (i + j) = true

theorem FilledFrom.start (x : Nat) : FilledFrom x x 1 := fun i => by
  constructor
  · exact fun set => ⟨0, Nat.one_pos, set⟩
  · rintro ⟨j, below, set⟩
    obtain rfl : j = 0 := by omega
    exact set

/-- **One smear doubles the window.** -/
theorem FilledFrom.smear {x y w : Nat} (filled : FilledFrom x y w) :
    FilledFrom x (smear y w) (w + w) := fun i => by
  rw [PowerOfTwo.smear, Nat.testBit_or, Nat.testBit_shiftRight, Bool.or_eq_true, filled i,
    filled (w + i)]
  constructor
  · rintro (⟨j, below, set⟩ | ⟨j, below, set⟩)
    · exact ⟨j, by omega, set⟩
    · exact ⟨w + j, by omega, by rwa [show i + (w + j) = w + i + j by omega]⟩
  · rintro ⟨j, below, set⟩
    by_cases near : j < w
    · exact Or.inl ⟨j, near, set⟩
    · exact Or.inr ⟨j - w, by omega, by rwa [show w + i + (j - w) = i + j by omega]⟩

theorem testBit_smearAll (x : Nat) : FilledFrom x (smearAll x) 64 :=
  (FilledFrom.start x).smear.smear.smear.smear.smear.smear

/-- **A word of 64 bits becomes all ones** up to its highest bit. -/
theorem smearAll_eq {x : Nat} (nonzero : x ≠ 0) (word : x < 2 ^ 64) :
    smearAll x = 2 ^ (x.log2 + 1) - 1 := by
  have top : x.log2 < 64 := (Nat.log2_lt nonzero).mpr word
  refine Nat.eq_of_testBit_eq fun i => ?_
  rw [Nat.testBit_two_pow_sub_one, Bool.eq_iff_iff, testBit_smearAll x i, decide_eq_true_iff]
  constructor
  · rintro ⟨j, -, set⟩
    by_contra above
    have high : x < 2 ^ (i + j) := (Nat.log2_lt nonzero).mp (by omega)
    rw [Nat.testBit_lt_two_pow high] at set
    cases set
  · intro below
    refine ⟨x.log2 - i, by omega, ?_⟩
    rw [show i + (x.log2 - i) = x.log2 by omega]
    exact Nat.testBit_log2 nonzero

/-- Powers of two are ordered by their exponents. -/
theorem two_pow_le_iff {m n : Nat} : 2 ^ m ≤ 2 ^ n ↔ m ≤ n :=
  Nat.pow_le_pow_iff_right (by decide)

theorem two_pow_lt_iff {m n : Nat} : 2 ^ m < 2 ^ n ↔ m < n :=
  Nat.pow_lt_pow_iff_right (by decide)

end Vaudou.PowerOfTwo
