/-
**Text as bytes, and decimal numbers.**

`ascii` gives the bytes of a literal. `decimal` and `decimalInt` are the reference rendering of
naturals and integers: no leading zeros, and a minus in front of a negative number.

* `decimal_ten`, `decimal_hundred`: the last digit, or the last two, come off the end.
* `decimal_length_le`: how long a rendering is.
-/

import Mathlib.Data.Nat.Digits.Defs
import Mathlib.Tactic.Common
import Mathlib.Tactic.IntervalCases

namespace Vaudou.Text

/-- The byte of an ASCII character. -/
def charByte (c : Char) : UInt8 := UInt8.ofNat c.toNat

/-- The bytes of a literal. -/
def ascii (s : String) : List UInt8 := s.toList.map charByte

/-- The byte of a digit. -/
def digitByte (d : Nat) : UInt8 := UInt8.ofNat (48 + d)

/-- The decimal representation of a natural. -/
def decimal (n : Nat) : List UInt8 := (Nat.toDigits 10 n).map charByte

/-- The decimal representation of an integer. -/
def decimalInt (v : Int) : List UInt8 :=
  if v < 0 then charByte '-' :: decimal v.natAbs else decimal v.natAbs

section Digits

variable {n k : Nat}

theorem charByte_digitChar {d : Nat} (digit : d < 10) : charByte d.digitChar = digitByte d := by
  interval_cases d <;> rfl

theorem decimal_digit {d : Nat} (digit : d < 10) : decimal d = [digitByte d] := by
  rw [decimal, Nat.toDigits_of_lt_base digit, List.map_singleton, charByte_digitChar digit]

/-- The last digit comes off the end. -/
theorem decimal_ten (large : 10 ≤ n) : decimal n = decimal (n / 10) ++ [digitByte (n % 10)] := by
  rw [decimal, Nat.toDigits_of_base_le (by norm_num) large, List.map_append, List.map_singleton,
    charByte_digitChar (Nat.mod_lt n (by norm_num))]
  rfl

/-- **The last two digits come off the end.** -/
theorem decimal_hundred (large : 100 ≤ n) :
    decimal n = decimal (n / 100) ++ [digitByte (n % 100 / 10), digitByte (n % 100 % 10)] := by
  have tens : n / 10 % 10 = n % 100 / 10 := by omega
  have ones : n % 10 = n % 100 % 10 := by omega
  have rest : n / 10 / 10 = n / 100 := Nat.div_div_eq_div_mul n 10 10
  rw [decimal_ten (by omega), decimal_ten (n := n / 10) (by omega), List.append_assoc, rest, tens,
    ones]
  rfl

theorem decimal_ne_nil : decimal n ≠ [] := by
  intro empty
  exact Nat.toDigits_ne_nil (List.map_eq_nil_iff.mp empty)

theorem decimal_length_pos : 0 < (decimal n).length := List.length_pos_iff.mpr decimal_ne_nil

/-- **A number below `10 ^ k` has at most `k` digits.** -/
theorem decimal_length_le (pos : 0 < k) : (decimal n).length ≤ k ↔ n < 10 ^ k := by
  rw [decimal, List.length_map]
  exact Nat.length_toDigits_le_iff (by norm_num) pos

theorem decimalInt_natCast : decimalInt n = decimal n :=
  if_neg (Int.not_lt.mpr (Int.natCast_nonneg n))

theorem decimalInt_length_pos {v : Int} : 0 < (decimalInt v).length := by
  unfold decimalInt
  split
  · exact Nat.succ_pos _
  · exact decimal_length_pos

end Digits

end Vaudou.Text
