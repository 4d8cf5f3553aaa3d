/-
**Strings of C, and the integers in them.**

A string is the bytes before the first 0. `strlen` measures it in memory; `strtol` and `strtoul` read an
integer from the front of a byte list that stands for the rest of a string, and return the bytes behind
it.

* `strtol_decimal`, `strtoul_decimal`: they read back what `printf` prints.
-/

import Vaudou.Foundation.Decimal
import Vaudou.Foundation.Memory

namespace Vaudou.Text

open Vaudou.Memory

/-! ### Strings in memory -/

/-- `strlen`: the bytes before the first 0. -/
def strlenLoop (mem : Mem) : (fuel : Nat) → (p : Nat) → Option Nat
  | 0, _ => none
  | fuel + 1, p => if mem p = 0 then some 0 else (strlenLoop mem fuel (p + 1)).map Nat.succ

/-- `strlen`; no string is longer than the address space. -/
def strlen (mem : Mem) (p : Nat) : Option Nat := strlenLoop mem (2 ^ 64) p

/-- The string at `p` is `content`. -/
structure IsCString (mem : Mem) (p : Nat) (content : List UInt8) : Prop where
  loaded : mem.load p content.length = content
  nonzero : 0 ∉ content
  terminated : mem (p + content.length) = 0
  short : content.length < 2 ^ 64

instance (mem : Mem) (p : Nat) (content : List UInt8) : Decidable (IsCString mem p content) :=
  decidable_of_iff (mem.load p content.length = content ∧ 0 ∉ content ∧
    mem (p + content.length) = 0 ∧ content.length < 2 ^ 64)
    ⟨fun ⟨loaded, nonzero, terminated, short⟩ => ⟨loaded, nonzero, terminated, short⟩,
      fun ⟨loaded, nonzero, terminated, short⟩ => ⟨loaded, nonzero, terminated, short⟩⟩

section Strings

variable {mem mem' : Mem} {p : Nat} {content : List UInt8}

/-- **The loop finds the terminator.** -/
theorem strlenLoop_spec : ∀ {content : List UInt8} {fuel p : Nat},
    mem.load p content.length = content → 0 ∉ content → mem (p + content.length) = 0 →
      content.length < fuel → strlenLoop mem fuel p = some content.length
  | [], fuel + 1, p, _, _, terminated, _ => if_pos terminated
  | c :: content, fuel + 1, p, loaded, nonzero, terminated, enough => by
    rw [List.length_cons, Nat.add_comm, load_append] at loaded
    have head : mem p = c := by
      have first := congrArg List.head? loaded
      simpa [Mem.load] using first
    have tail : mem.load (p + 1) content.length = content := by
      have later := congrArg (List.drop 1) loaded
      rwa [List.drop_left' load_length, List.drop_one, List.tail_cons] at later
    have char : mem p ≠ 0 := by
      rw [head]
      exact fun zero => nonzero (zero ▸ List.mem_cons_self)
    rw [strlenLoop, if_neg char, strlenLoop_spec tail (fun member => nonzero
      (List.mem_cons_of_mem c member)) (by rw [Nat.add_assoc, Nat.add_comm 1]; exact terminated)
      (Nat.lt_of_succ_lt_succ enough)]
    rfl

theorem IsCString.strlen (is : IsCString mem p content) : strlen mem p = some content.length :=
  strlenLoop_spec is.loaded is.nonzero is.terminated is.short

/-- The string at an address is determined. -/
theorem IsCString.unique {content' : List UInt8} (is : IsCString mem p content)
    (is' : IsCString mem p content') : content = content' := by
  have lengths : content.length = content'.length := Option.some.inj (is.strlen.symm.trans is'.strlen)
  rw [← is.loaded, ← is'.loaded, lengths]

/-- A string depends on its own bytes only. -/
theorem IsCString.congr (is : IsCString mem p content)
    (same : Same mem mem' p (content.length + 1)) : IsCString mem' p content where
  loaded := (load_congr (same.part le_rfl (Nat.le_succ _))).trans is.loaded
  nonzero := is.nonzero
  terminated := (same _ (Nat.le_add_right _ _) (Nat.lt_succ_self _)).trans is.terminated
  short := is.short

/-- A string that is stored with its terminator is there. -/
theorem isCString_store (mem : Mem) (p : Nat) (nonzero : 0 ∉ content)
    (short : content.length < 2 ^ 64) : IsCString (mem.store p (content ++ [0])) p content := by
  have stored := load_store_same mem p (content ++ [0])
  rw [List.length_append, List.length_singleton, load_append] at stored
  obtain ⟨front, last⟩ := List.append_inj stored load_length
  exact ⟨front, nonzero, by simpa [Mem.load] using last, short⟩

end Strings

/-! ### Integers in text -/

/-- `isspace`. -/
def isSpace (c : UInt8) : Bool := c == 32 || (9 ≤ c && c ≤ 13)

/-- `isdigit`. -/
def isDigit (c : UInt8) : Bool := 48 ≤ c && c ≤ 57

/-- The number that the digits denote. -/
def digitsValue (digits : List UInt8) : Nat :=
  digits.foldl (fun value c => 10 * value + (c.toNat - 48)) 0

/-- An optional sign: whether it is a minus, and the bytes behind it. -/
def readSign : List UInt8 → Bool × List UInt8
  | [] => (false, [])
  | c :: rest =>
    if c = charByte '-' then (true, rest)
    else if c = charByte '+' then (false, rest)
    else (false, c :: rest)

/-- Sign, magnitude and rest of the integer at the front, behind white space; `none` without digits. -/
def readInteger (s : List UInt8) : Option (Bool × Nat × List UInt8) :=
  let signed := readSign (s.dropWhile isSpace)
  let digits := signed.2.takeWhile isDigit
  if digits = [] then none
  else some (signed.1, digitsValue digits, signed.2.dropWhile isDigit)

/-- `strtol` with base 10 at a type of `bits` bits: a value out of range becomes the nearest bound, and
the end is the start if there is no number. -/
def strtol (bits : Nat) (s : List UInt8) : Int × List UInt8 :=
  match readInteger s with
  | none => (0, s)
  | some (negative, magnitude, rest) =>
    let value : Int := if negative then -magnitude else magnitude
    (max (-(2 ^ (bits - 1) : Int)) (min value (2 ^ (bits - 1) - 1)), rest)

/-- `strtoul` with base 10 at a type of `bits` bits: a minus negates in the type. -/
def strtoul (bits : Nat) (s : List UInt8) : Nat × List UInt8 :=
  match readInteger s with
  | none => (0, s)
  | some (negative, magnitude, rest) =>
    if 2 ^ bits ≤ magnitude then (2 ^ bits - 1, rest)
    else (if negative then (2 ^ bits - magnitude) % 2 ^ bits else magnitude, rest)

section Integers

variable {n : Nat} {v : Int} {rest : List UInt8}

theorem digitByte_toNat {d : Nat} (digit : d < 10) : (digitByte d).toNat = 48 + d := by
  interval_cases d <;> rfl

theorem isDigit_digitByte {d : Nat} (digit : d < 10) : isDigit (digitByte d) = true := by
  interval_cases d <;> rfl

/-- **The digits of a number denote it.** -/
theorem digitsValue_decimal (n : Nat) : digitsValue (decimal n) = n := by
  induction n using Nat.strong_induction_on with
  | _ n ih =>
    by_cases small : n < 10
    · rw [decimal_digit small]
      simp [digitsValue, digitByte_toNat small]
    · have last : n % 10 < 10 := Nat.mod_lt n (by norm_num)
      have front := ih (n / 10) (by omega)
      rw [decimal_ten (by omega), digitsValue, List.foldl_append]
      show 10 * digitsValue (decimal (n / 10)) + ((digitByte (n % 10)).toNat - 48) = n
      rw [front, digitByte_toNat last]
      omega

theorem decimal_digits (n : Nat) : ∀ c ∈ decimal n, isDigit c = true := by
  induction n using Nat.strong_induction_on with
  | _ n ih =>
    intro c member
    by_cases small : n < 10
    · rw [decimal_digit small] at member
      rw [List.mem_singleton.mp member]
      exact isDigit_digitByte small
    · rw [decimal_ten (by omega)] at member
      rcases List.mem_append.mp member with front | last
      · exact ih (n / 10) (by omega) c front
      · rw [List.mem_singleton.mp last]
        exact isDigit_digitByte (Nat.mod_lt n (by norm_num))

/-- What stands behind a number does not go on with a digit. -/
def Ends (rest : List UInt8) : Prop := ∀ c ∈ rest.head?, isDigit c = false

theorem span_decimal (ends : Ends rest) :
    (decimal n ++ rest).takeWhile isDigit = decimal n ∧
      (decimal n ++ rest).dropWhile isDigit = rest := by
  rw [List.takeWhile_append_of_pos (decimal_digits n), List.dropWhile_append_of_pos (decimal_digits n)]
  cases rest with
  | nil => simp
  | cons c rest =>
    have stop : ¬ isDigit c = true := by
      rw [ends c rfl]
      exact Bool.false_ne_true
    rw [List.takeWhile_cons_of_neg stop, List.dropWhile_cons_of_neg stop, List.append_nil]
    exact ⟨rfl, rfl⟩

/-- A digit is no space and no sign. -/
theorem digit_plain {c : UInt8} (digit : isDigit c = true) :
    isSpace c = false ∧ c ≠ charByte '-' ∧ c ≠ charByte '+' := by
  have minus : charByte '-' = 45 := rfl
  have plus : charByte '+' = 43 := rfl
  rw [minus, plus]
  simp only [isDigit, isSpace, Bool.and_eq_true, decide_eq_true_eq] at digit ⊢
  grind

/-- **An integer is read back as its sign and magnitude.** -/
theorem readInteger_decimalInt (ends : Ends rest) :
    readInteger (decimalInt v ++ rest) = some (decide (v < 0), v.natAbs, rest) := by
  obtain ⟨taken, dropped⟩ := span_decimal (n := v.natAbs) ends
  have nonempty : decimal v.natAbs ≠ [] := decimal_ne_nil
  unfold readInteger
  by_cases negative : v < 0
  · have minus : isSpace (charByte '-') = false := rfl
    rw [decimalInt, if_pos negative, List.cons_append, List.dropWhile_cons_of_neg (by simp [minus])]
    simp only [readSign, if_true, taken, if_neg nonempty, dropped, digitsValue_decimal,
      decide_eq_true negative]
  · obtain ⟨c, digits, split⟩ := List.exists_cons_of_ne_nil nonempty
    have digit : isDigit c = true := decimal_digits v.natAbs c (split ▸ List.mem_cons_self)
    obtain ⟨space, minus, plus⟩ := digit_plain digit
    have sign : readSign (decimal v.natAbs ++ rest) = (false, decimal v.natAbs ++ rest) := by
      rw [split, List.cons_append, readSign, if_neg minus, if_neg plus]
    have front : (decimal v.natAbs ++ rest).dropWhile isSpace = decimal v.natAbs ++ rest := by
      rw [split, List.cons_append, List.dropWhile_cons_of_neg (by simp [space])]
    rw [decimalInt, if_neg negative, front, sign]
    simp only [taken, if_neg nonempty, dropped, digitsValue_decimal, decide_eq_false negative]

/-- **`strtol` reads back** an integer of its type. -/
theorem strtol_decimalInt {bits : Nat} (low : -(2 ^ (bits - 1) : Int) ≤ v)
    (high : v < 2 ^ (bits - 1)) (ends : Ends rest) :
    strtol bits (decimalInt v ++ rest) = (v, rest) := by
  have value : (if decide (v < 0) = true then -(v.natAbs : Int) else v.natAbs) = v := by
    split
    next negative =>
      have := of_decide_eq_true negative
      omega
    next nonneg =>
      have : ¬ v < 0 := fun negative => nonneg (decide_eq_true negative)
      omega
  rw [strtol, readInteger_decimalInt ends]
  simp only [value]
  rw [min_eq_left (by omega), max_eq_right low]

/-- **`strtoul` reads back** a natural of its type. -/
theorem strtoul_decimal {bits : Nat} (small : n < 2 ^ bits) (ends : Ends rest) :
    strtoul bits (decimal n ++ rest) = (n, rest) := by
  have nonneg : ¬ ((n : Int) < 0) := Int.not_lt.mpr (Int.natCast_nonneg n)
  have read := readInteger_decimalInt (v := n) ends
  rw [decimalInt_natCast, decide_eq_false nonneg, Int.natAbs_natCast] at read
  rw [strtoul, read]
  simp only [if_neg (Nat.not_le.mpr small), Bool.false_eq_true, if_false]

end Integers

end Vaudou.Text
