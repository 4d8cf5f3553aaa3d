/-
**Mixing words.**

The steps of a hash that loses nothing: a word xored with its own shift, multiplied by a number that is
odd, or put together from parts that do not overlap, is determined by the result.

* `xorShift_injective`, `mul_mod_injective`, `shiftXor_injective` — the steps.
* `products_near` — two words whose products agree in their upper halves are close together.
* `length_le_of_near` — of distinct numbers that are close together there are few.
-/

import Mathlib.Algebra.Order.Ring.Nat
import Mathlib.Data.Nat.Bitwise
import Mathlib.Data.Nat.ModEq
import Mathlib.Data.Nat.Prime.Basic
import Mathlib.Data.Finset.Max
import Mathlib.Order.Interval.Finset.Nat
import Mathlib.Tactic.Common
import Mathlib.Tactic.Linarith

namespace Vaudou.Mixing

variable {a b m w s : Nat}

/-- **A word xored with its shift** determines the word: the difference of two is its own shift. -/
theorem xorShift_injective (pos : 0 < s) (same : a ^^^ (a >>> s) = b ^^^ (b >>> s)) : a = b := by
  have fixed : a ^^^ b = (a ^^^ b) >>> s := by
    rw [Nat.shiftRight_xor_distrib]
    have cancelled := congrArg (fun x => x ^^^ (a >>> s) ^^^ b) same
    simp only [Nat.xor_assoc, Nat.xor_self, Nat.xor_zero] at cancelled
    calc a ^^^ b = b ^^^ ((b >>> s) ^^^ ((a >>> s) ^^^ b)) := cancelled
      _ = (b ^^^ b) ^^^ ((a >>> s) ^^^ (b >>> s)) := by ac_rfl
      _ = (a >>> s) ^^^ (b >>> s) := by rw [Nat.xor_self, Nat.zero_xor]
  by_contra differ
  have nonzero : a ^^^ b ≠ 0 := fun zero => differ (Nat.xor_eq_zero_iff.mp zero)
  have smaller : (a ^^^ b) >>> s < a ^^^ b := by
    rw [Nat.shiftRight_eq_div_pow]
    exact Nat.div_lt_self (Nat.pos_of_ne_zero nonzero) (Nat.one_lt_two_pow (by omega))
  omega

/-- **Multiplying by an odd number** loses nothing. -/
theorem mul_mod_injective (odd : m % 2 = 1) (below : a < 2 ^ w) (below' : b < 2 ^ w)
    (same : a * m % 2 ^ w = b * m % 2 ^ w) : a = b := by
  have coprime : Nat.Coprime (2 ^ w) m :=
    Nat.Coprime.pow_left _ (Nat.coprime_two_left.mpr (Nat.odd_iff.mpr odd))
  have congruent : a ≡ b [MOD 2 ^ w] := Nat.ModEq.cancel_right_of_coprime coprime same
  exact congruent.eq_of_lt_of_lt below below'

/-- **Parts that do not overlap** are both determined. -/
theorem shiftXor_injective {x y x' y' : Nat} (below : x < 2 ^ s) (below' : x' < 2 ^ s)
    (same : (y <<< s) ^^^ x = (y' <<< s) ^^^ x') : y = y' ∧ x = x' := by
  have low : x = x' := by
    have parts := congrArg (fun n => n % 2 ^ s) same
    simp only [Nat.xor_mod_two_pow, Nat.shiftLeft_eq, Nat.mul_mod_left, Nat.zero_xor,
      Nat.mod_eq_of_lt below, Nat.mod_eq_of_lt below'] at parts
    exact parts
  subst low
  have high := Nat.xor_left_inj.mp same
  rw [Nat.shiftLeft_eq, Nat.shiftLeft_eq] at high
  exact ⟨Nat.eq_of_mul_eq_mul_right (Nat.pow_pos Nat.two_pos) high, rfl⟩

/-- A word keeps its upper part when one that is small is xored to it. -/
theorem xor_div_of_lt {x : Nat} (below : x < 2 ^ s) : (a ^^^ x) / 2 ^ s = a / 2 ^ s := by
  rw [← Nat.shiftRight_eq_div_pow, ← Nat.shiftRight_eq_div_pow, Nat.shiftRight_xor_distrib,
    Nat.shiftRight_eq_div_pow x, Nat.div_eq_of_lt below, Nat.xor_zero]

/-- **Products that agree in their upper parts** belong to words that are close together. -/
theorem products_near {N B : Nat} (order : a ≤ b) (room : (b - a) * m + B ≤ N)
    (same : a * m % N / B = b * m % N / B) (pos : 0 < B) : (b - a) * m < B := by
  have product : b * m = a * m + (b - a) * m := by
    rw [← Nat.add_mul, Nat.add_sub_cancel' order]
  have split := Nat.div_add_mod (a * m % N) B
  have split' := Nat.div_add_mod (b * m % N) B
  have below := Nat.mod_lt (a * m % N) pos
  have below' := Nat.mod_lt (b * m % N) pos
  have inside := Nat.mod_lt (a * m) (show 0 < N by omega)
  rw [← same] at split'
  generalize (b - a) * m = d at product room ⊢
  by_cases wraps : a * m % N + d < N
  · have kept : b * m % N = a * m % N + d := by
      rw [product, Nat.add_mod, Nat.mod_eq_of_lt (show d < N by omega), Nat.mod_eq_of_lt wraps]
    omega
  · have wrapped : b * m % N = a * m % N + d - N := by
      rw [product, Nat.add_mod, Nat.mod_eq_of_lt (show d < N by omega),
        Nat.mod_eq_sub_mod (not_lt.mp wraps), Nat.mod_eq_of_lt (by omega)]
    omega

/-- **Distinct numbers that are close together** are few. -/
theorem length_le_of_near {xs : List Nat} {k : Nat} (distinct : xs.Nodup)
    (near : ∀ x ∈ xs, ∀ y ∈ xs, x ≤ y → y ≤ x + k) : xs.length ≤ k + 1 := by
  by_cases empty : xs = []
  · rw [empty]
    exact Nat.zero_le _
  have nonempty : xs.toFinset.Nonempty := by
    obtain ⟨x, member⟩ := List.exists_mem_of_ne_nil xs empty
    exact ⟨x, List.mem_toFinset.mpr member⟩
  obtain ⟨least, member, minimal⟩ := xs.toFinset.exists_min_image id nonempty
  have inside : xs.toFinset ⊆ Finset.Icc least (least + k) := by
    intro x other
    have above : least ≤ x := minimal x other
    exact Finset.mem_Icc.mpr ⟨above,
      near least (List.mem_toFinset.mp member) x (List.mem_toFinset.mp other) above⟩
  have few := Finset.card_le_card inside
  rw [List.toFinset_card_of_nodup distinct, Nat.card_Icc] at few
  omega

end Vaudou.Mixing
