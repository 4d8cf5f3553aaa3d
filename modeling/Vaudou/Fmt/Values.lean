/-
**Which values the integer conversions render.**

Every unsigned value is rendered. The signed conversions negate and double in the type of the value: the
minimum of a type has no negation, and twice a number from 64 to 99 is negative in `int8_t`, so that the
digit table is read in front of its start.

* `unsigned_exact` — all values of the unsigned types.
* `signed_exact_iff` — exactly which values of the signed types.
-/

import Vaudou.Fmt.Rendering

namespace Vaudou

open Vaudou.Memory Vaudou.Text

/-- The value is not the minimum of its type, and the table has what an `int8_t` looks up. -/
def IntSpec.Handles (spec : IntSpec) (v : Int) : Prop :=
  (spec.conversion.issigned = true → v ≠ -(2 ^ (spec.conversion.bits - 1) : Int)) ∧
    (spec = .i8 → ¬ (64 ≤ v.natAbs ∧ v.natAbs < 100))

instance (spec : IntSpec) (v : Int) : Decidable (spec.Handles v) :=
  inferInstanceAs (Decidable ((_ → _ ≠ _) ∧ (_ → ¬ _)))

section Texts

variable {c : IntConversion} {spec : IntSpec} {v : Int} {out n : Nat} {mem : Mem} {rest : List FmtArg}

/-- The text goes where it should exactly if it is the one that it should be. -/
theorem putText_exact {bytes wanted : List UInt8} (room : wanted.length ≤ n) :
    putText out n mem rest bytes = (⟨mem.store out wanted, rest⟩, wanted.length) ↔ bytes = wanted := by
  unfold putText
  constructor
  · intro same
    split at same
    · rename_i short
      have length := (Prod.mk.inj same).2
      omega
    · obtain ⟨state, length⟩ := Prod.mk.inj same
      have stored := (FmtState.mk.inj state).1
      have loaded := load_store_same mem out bytes
      rw [stored, length, load_store_same] at loaded
      exact loaded.symm
  · rintro rfl
    rw [if_neg (Nat.not_lt.mpr room)]

/-- **A conversion is exact** exactly if its text is the decimal representation. -/
theorem IntSpec.toStr_exact (range : WordRange spec.conversion.bits spec.conversion.issigned v)
    (enough : spec.conversion.maxdigits ≤ n) :
    spec.conversion.toStr out n ⟨mem, .word spec.conversion.argBits v :: rest⟩ =
        some (⟨mem.store out (decimalInt v), rest⟩, (decimalInt v).length) ↔
      spec.conversion.text v = some (decimalInt v) := by
  have read : vaArgInt spec.conversion.argBits spec.conversion.issigned
      (.word spec.conversion.argBits v :: rest) = some (v, rest) :=
    if_pos ⟨rfl, IntSpec.argRange range⟩
  have room := (IntSpec.digits_le range).trans enough
  rw [IntConversion.toStr_read ((Nat.sub_le _ 1).trans enough) read]
  cases spec.conversion.text v with
  | none => simp
  | some bytes =>
    rw [Option.map_some, Option.some.injEq, Option.some.injEq]
    exact putText_exact room

attribute [local simp] WordRange IntSpec.conversion int8Conversion int16Conversion int32Conversion
  int64Conversion uint8Conversion uint16Conversion uint32Conversion uint64Conversion

/-- The parts of two digits of a handled value. -/
theorem IntSpec.Handles.pairs (handles : spec.Handles v)
    (range : WordRange spec.conversion.bits spec.conversion.issigned v) :
    spec.conversion.DoublesPairs v.natAbs := by
  intro k
  refine IntConversion.wrap_eq spec.bits_pos ?_
  have small : v.natAbs / 100 ^ k % 100 < 100 := Nat.mod_lt _ (by norm_num)
  by_cases narrow : spec = .i8
  · -- two digits below 64, or a hundred and at most 27
    have table := handles.2 narrow
    subst narrow
    simp at range
    have few : v.natAbs / 100 ^ k % 100 < 64 := by
      cases k with
      | zero => simp; omega
      | succ k =>
        have rest : v.natAbs / 100 ^ (k + 1) ≤ v.natAbs / 100 :=
          Nat.div_le_div_left (by rw [Nat.pow_succ]; exact Nat.le_mul_of_pos_left _ (by positivity))
            (by norm_num)
        have below := Nat.mod_le (v.natAbs / 100 ^ (k + 1)) 100
        omega
    generalize v.natAbs / 100 ^ k % 100 = pair at few
    simp
    omega
  · generalize v.natAbs / 100 ^ k % 100 = pair at small
    cases spec <;> simp at narrow ⊢ <;> omega

/-- **The text of a handled value** is its decimal representation. -/
theorem IntSpec.Handles.text (handles : spec.Handles v)
    (range : WordRange spec.conversion.bits spec.conversion.issigned v) :
    spec.conversion.text v = some (decimalInt v) :=
  IntConversion.text_spec (IntConversion.wrap_eq spec.bits_pos range)
    (IntSpec.negated range handles.1) (handles.pairs range) (IntSpec.digits_le range) spec.scratch

/-- The minimum of a type is negated to itself, or overflows. -/
theorem text_minimum (spec : IntSpec) (signed : spec.conversion.issigned = true) :
    spec.conversion.text (-(2 ^ (spec.conversion.bits - 1) : Int)) ≠
      some (decimalInt (-(2 ^ (spec.conversion.bits - 1) : Int))) := by
  cases spec with
  | i8 => decide +kernel
  | i16 => decide +kernel
  | i32 => decide +kernel
  | i64 => decide +kernel
  | _ => cases signed

/-- An `int8_t` from 64 to 99 reads in front of the table. -/
theorem text_narrow : ∀ m < 36, int8Conversion.text (64 + m : Nat) = none ∧
    int8Conversion.text (-(64 + m : Nat)) = none := by
  decide +kernel

/-- **The text is the decimal representation** exactly for the handled values. -/
theorem IntSpec.text_iff (range : WordRange spec.conversion.bits spec.conversion.issigned v) :
    spec.conversion.text v = some (decimalInt v) ↔ spec.Handles v := by
  refine ⟨fun exact_ => ⟨fun signed => ?_, fun narrow => ?_⟩, fun handles => handles.text range⟩
  · rintro rfl
    exact text_minimum spec signed exact_
  · subst narrow
    rintro ⟨low, high⟩
    obtain ⟨positive, negative⟩ := text_narrow (v.natAbs - 64) (by omega)
    rw [Nat.add_sub_cancel' low] at positive negative
    have undefined : int8Conversion.text v = none := by
      rcases Int.natAbs_eq v with same | same
      · rw [same]
        exact positive
      · rw [same]
        exact negative
    exact absurd (undefined.symm.trans exact_) (by simp)

end Texts

/-! ### The conversions -/

section Conversions

/-- **Unsigned formatting is exact.** For every value of an unsigned type and every buffer of the maximum
digit count or more, the procedure is defined, writes the decimal representation, and returns its
length. -/
theorem unsigned_exact (spec : IntSpec) (unsigned : spec.conversion.issigned = false) (v : Nat)
    (range : v < 2 ^ spec.conversion.bits) (out n : Nat) (enough : spec.conversion.maxdigits ≤ n)
    (mem : Mem) (rest : List FmtArg) :
    spec.conversion.toStr out n ⟨mem, .word spec.conversion.argBits v :: rest⟩ =
      some (⟨mem.store out (decimal v), rest⟩, (decimal v).length) := by
  have range' : WordRange spec.conversion.bits spec.conversion.issigned v := by
    rw [unsigned]
    exact ⟨Int.natCast_nonneg v, by exact_mod_cast range⟩
  have handles : spec.Handles v := by
    refine ⟨fun signed => ?_, ?_⟩
    · rw [unsigned] at signed
      cases signed
    · rintro rfl
      cases unsigned
  rw [← decimalInt_natCast]
  exact (IntSpec.toStr_exact range' enough).mpr (handles.text range')

/-- The largest `uint64_t`, in a buffer of 20. -/
theorem unsigned_exact_largest :
    uint64Conversion.toStr 100 20 ⟨fun _ => 0, [.word 64 ((2 ^ 64 - 1 : Nat) : Int)]⟩ =
      some (⟨Mem.store (fun _ => 0) 100 (decimal (2 ^ 64 - 1)), []⟩, (decimal (2 ^ 64 - 1)).length) :=
  unsigned_exact .u64 rfl (2 ^ 64 - 1) (by decide) 100 20 (by decide) _ []

/-- **Signed formatting is exact** for a value of a signed type, in a buffer of the maximum length or more,
if and only if the value is not the minimum of its type and, for `int8_t`, its magnitude is not from 64
to 99. -/
theorem signed_exact_iff (spec : IntSpec) (signed : spec.conversion.issigned = true) (v : Int)
    (range : WordRange spec.conversion.bits true v) (out n : Nat)
    (enough : spec.conversion.maxdigits ≤ n) (mem : Mem) (rest : List FmtArg) :
    spec.conversion.toStr out n ⟨mem, .word spec.conversion.argBits v :: rest⟩ =
        some (⟨mem.store out (decimalInt v), rest⟩, (decimalInt v).length) ↔
      spec.Handles v := by
  rw [← signed] at range
  exact (IntSpec.toStr_exact range enough).trans (IntSpec.text_iff range)

/-- The smallest `int8_t` but one, in a buffer of 4. -/
theorem signed_exact_iff_smallest :
    int8Conversion.toStr 100 4 ⟨fun _ => 0, [.word 32 (-127)]⟩ =
      some (⟨Mem.store (fun _ => 0) 100 (decimalInt (-127)), []⟩, (decimalInt (-127)).length) :=
  (signed_exact_iff .i8 rfl (-127) (by decide) 100 4 (by decide) _ []).mpr (by decide)

/-- **64 as an `int8_t`** reads the digit table at a negative index. -/
theorem signed_narrow_undefined :
    ¬ ∀ (spec : IntSpec) (v : Int), spec.conversion.issigned = true →
      WordRange spec.conversion.bits true v → ∀ (out n : Nat), spec.conversion.maxdigits ≤ n →
        ∀ (mem : Mem) (rest : List FmtArg),
          spec.conversion.toStr out n ⟨mem, .word spec.conversion.argBits v :: rest⟩ =
            some (⟨mem.store out (decimalInt v), rest⟩, (decimalInt v).length) := by
  intro claimed
  have written := claimed .i8 64 rfl (by decide) 100 4 (by decide) (fun _ => 0) []
  have undefined : (int8Conversion.toStr 100 4 ⟨fun _ => 0, [.word 32 64]⟩).isNone = true := by
    decide +kernel
  rw [Option.isNone_iff_eq_none] at undefined
  cases undefined.symm.trans written

end Conversions

end Vaudou
