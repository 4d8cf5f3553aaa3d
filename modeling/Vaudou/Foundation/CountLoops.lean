/-
**Counting loops over an `int`.**

`countLoop` is `for (int i = 0; i < n; ++i)`, or the same with another condition; its body may fail. An
`int` that is computed is `none` when it overflows, which C leaves undefined.

* `countFromZero_eq` — where a loop gets to, from what each of its rounds does.
-/

import Mathlib.Algebra.Order.Ring.Int
import Mathlib.Algebra.Order.Ring.Nat
import Mathlib.Tactic.Common

namespace Vaudou.CountLoop

variable {S : Type}

/-- An `int` that was computed; `none` is an overflow. -/
def cInt (x : Int) : Option Int := if -2 ^ 31 ≤ x ∧ x < 2 ^ 31 then some x else none

/-- `for (int i = ..; continues; ++i)`; `none` is also a loop that has not ended. -/
def countLoop (continues : Int → Bool) (body : Int → S → Option S) : (fuel : Nat) → (i : Int) → S → Option S
  | 0, _, _ => none
  | fuel + 1, i, s =>
    if continues i then
      (body i s).bind fun s => (cInt (i + 1)).bind fun i => countLoop continues body fuel i s
    else some s

/-- No loop makes more rounds. -/
def rounds : Nat := 2 ^ 32

/-- `for (int i = 0; continues; ++i)`. -/
def countFromZero (continues : Int → Bool) (body : Int → S → Option S) (s : S) : Option S :=
  countLoop continues body rounds 0 s

theorem cInt_natCast {n : Nat} (fits : n < 2 ^ 31) : cInt n = some (n : Int) := if_pos (by omega)

theorem cInt_succ {n : Nat} (fits : n + 1 < 2 ^ 31) : cInt ((n : Int) + 1) = some ((n + 1 : Nat) : Int) :=
  cInt_natCast fits

theorem cInt_add {m n : Nat} (fits : m + n < 2 ^ 31) : cInt ((m : Int) + n) = some ((m + n : Nat) : Int) := by
  rw [← Int.natCast_add]
  exact cInt_natCast fits

theorem cInt_mul {m n : Nat} (fits : m * n < 2 ^ 31) : cInt ((m : Int) * n) = some ((m * n : Nat) : Int) := by
  rw [← Int.natCast_mul]
  exact cInt_natCast fits

variable {continues : Int → Bool} {body : Int → S → Option S} {n : Nat}

/-- The condition `i < n`. -/
theorem lt_bound (n i : Nat) : decide ((i : Int) < (n : Int)) = decide (i < n) :=
  decide_eq_decide.mpr (by omega)

/-- The condition `i <= n`. -/
theorem le_bound (n i : Nat) : decide ((i : Int) ≤ (n : Int)) = decide (i < n + 1) :=
  decide_eq_decide.mpr (by omega)

/-- **A counting loop**, from a round on. -/
theorem countLoop_eq (states : Nat → S) (small : n < 2 ^ 31)
    (bound : ∀ i : Nat, continues i = decide (i < n))
    (step : ∀ i < n, body i (states i) = some (states (i + 1))) :
    ∀ left i fuel : Nat, i + left = n → left < fuel →
      countLoop continues body fuel i (states i) = some (states n)
  | _, _, 0, _, enough => absurd enough (Nat.not_lt_zero _)
  | 0, i, fuel + 1, done, _ => by
    obtain rfl : i = n := done
    rw [countLoop, bound, if_neg (by simp)]
  | left + 1, i, fuel + 1, done, enough => by
    have inside : i < n := by omega
    rw [countLoop, bound, if_pos (decide_eq_true inside), step i inside, Option.bind_some,
      cInt_succ (by omega), Option.bind_some]
    exact countLoop_eq states small bound step left (i + 1) fuel (by omega) (Nat.lt_of_succ_lt_succ enough)

/-- **A counting loop from 0 on** goes through the states that its rounds lead to. -/
theorem countFromZero_eq (states : Nat → S) (small : n < 2 ^ 31)
    (bound : ∀ i : Nat, continues i = decide (i < n))
    (step : ∀ i < n, body i (states i) = some (states (i + 1))) :
    countFromZero continues body (states 0) = some (states n) :=
  countLoop_eq states small bound step n 0 rounds (Nat.zero_add n) (by rw [rounds]; omega)

end Vaudou.CountLoop
