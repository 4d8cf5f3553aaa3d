/-
**Integers that the parser reads.**

A value of an integer type is a token that `strtol` or `strtoul` reads to its end. What is stored is the
number that the token denotes (`integerToken`), wherever the type can hold it (`MetaPrimitiveType.Fits`); a
number that it cannot hold is clamped to the type of the procedure and cut to the width.

* `read_number` — a value that is read to an integer is a number of the text, and what is in memory is this
  number if and only if it fits.
-/

import Vaudou.Meta.Provenance
import Vaudou.Meta.Reading

namespace Vaudou

open Vaudou.Memory Vaudou.Text

/-! ### Numbers -/

/-- The number that a token denotes. -/
def integerToken (token : List UInt8) : Option Int :=
  match readInteger token with
  | some (negative, magnitude, []) => some (if negative then -magnitude else magnitude)
  | _ => none

/-- The number that a value is. -/
def Json.number : Json → Option Int
  | .scalar token => integerToken token.bytes
  | _ => none

/-- An integer type. -/
def MetaPrimitiveType.isInteger : MetaPrimitiveType → Bool
  | .f32 | .f64 | .char8 => false
  | _ => true

/-- A signed integer type. -/
def MetaPrimitiveType.isSigned : MetaPrimitiveType → Bool
  | .i8 | .i16 | .i32 | .i64 => true
  | _ => false

/-- The integer of a type in memory. -/
def MetaPrimitiveType.integerAt (kind : MetaPrimitiveType) (mem : Mem) (x : Nat) : Int :=
  if kind.isSigned then mem.readInt x kind.width else mem.readNat x kind.width

/-- **The type can hold the number.** -/
def MetaPrimitiveType.Fits (kind : MetaPrimitiveType) (v : Int) : Prop :=
  if kind.isSigned then -((256 ^ kind.width : Nat) : Int) ≤ 2 * v ∧ 2 * v < ((256 ^ kind.width : Nat) : Int)
  else 0 ≤ v ∧ v < ((256 ^ kind.width : Nat) : Int)

/-- The bits of the number that is read for a type, a `long` or 64 bits. -/
def MetaPrimitiveType.bits (longBits : Nat) : MetaPrimitiveType → Nat
  | .i64 | .u64 => 64
  | _ => longBits

section Tokens

variable {bits width x : Nat} {mem : Mem} {token : List UInt8} {v : Int} {kind : MetaPrimitiveType}

/-- Bytes of a width are below a type of at least as many bits. -/
theorem width_le_bits (enough : 8 * width ≤ bits) : 256 ^ width ≤ 2 ^ bits := by
  rw [show (256 : Nat) = 2 ^ 8 from rfl, ← pow_mul]
  exact Nat.pow_le_pow_right (by norm_num) enough

/-- **`strtol` reads a token to its end**: the number that it denotes, or the nearest bound. -/
theorem strtol_token (nonempty : token ≠ []) (whole : (strtol bits token).2 = []) :
    ∃ v, integerToken token = some v ∧
      (strtol bits token).1 = max (-(2 ^ (bits - 1) : Int)) (min v (2 ^ (bits - 1) - 1)) := by
  unfold strtol at whole ⊢
  unfold integerToken
  cases read : readInteger token with
  | none =>
    rw [read] at whole
    exact absurd whole nonempty
  | some number =>
    obtain ⟨negative, magnitude, rest⟩ := number
    rw [read] at whole
    obtain rfl : rest = [] := whole
    exact ⟨_, rfl, rfl⟩

/-- **A clamped number is stored as itself** exactly where it fits. -/
theorem readInt_clamped (pos : 0 < width) (enough : 8 * width ≤ bits) :
    (mem.writeInt x width (max (-(2 ^ (bits - 1) : Int)) (min v (2 ^ (bits - 1) - 1)))).readInt x width = v ↔
      -((256 ^ width : Nat) : Int) ≤ 2 * v ∧ 2 * v < ((256 ^ width : Nat) : Int) := by
  constructor
  · intro same
    have range := readInt_range (mem.writeInt x width (max (-(2 ^ (bits - 1) : Int)) (min v (2 ^ (bits - 1) - 1))))
      x width
    rwa [same] at range
  · rintro ⟨low, high⟩
    have half : (2 : Int) ^ bits = 2 * 2 ^ (bits - 1) := by
      rw [← pow_succ']
      congr 1
      omega
    have bound : ((256 ^ width : Nat) : Int) ≤ 2 ^ bits := by exact_mod_cast width_le_bits enough
    have inside : max (-(2 ^ (bits - 1) : Int)) (min v (2 ^ (bits - 1) - 1)) = v := by
      rw [min_eq_left (by omega), max_eq_right (by omega)]
    rw [inside]
    exact readInt_writeInt low high

/-- **`strtoul` reads a token to its end**, and what is stored is the number exactly where it fits. -/
theorem strtoul_token (enough : 8 * width ≤ bits) (nonempty : token ≠ [])
    (whole : (strtoul bits token).2 = []) : ∃ v, integerToken token = some v ∧
      ((((mem.writeNat x width (strtoul bits token).1).readNat x width : Nat) : Int) = v ↔
        0 ≤ v ∧ v < ((256 ^ width : Nat) : Int)) := by
  rw [readNat_writeNat]
  have bound := width_le_bits enough
  unfold strtoul at whole ⊢
  unfold integerToken
  cases read : readInteger token with
  | none =>
    rw [read] at whole
    exact absurd whole nonempty
  | some number =>
    obtain ⟨negative, magnitude, rest⟩ := number
    rw [read] at whole
    simp only at whole ⊢
    have ended : rest = [] := by
      split at whole <;> exact whole
    subst ended
    refine ⟨_, rfl, fun same => ?_, fun fits => ?_⟩
    · rw [← same]
      exact ⟨Int.natCast_nonneg _, by exact_mod_cast Nat.mod_lt _ (Nat.pow_pos (by norm_num))⟩
    · cases negative with
      | true =>
        simp only [if_true] at fits ⊢
        obtain rfl : magnitude = 0 := by omega
        have small : ¬ 2 ^ bits ≤ 0 := Nat.not_le.mpr (Nat.pow_pos (by norm_num))
        rw [if_neg small, Nat.sub_zero, Nat.mod_self, Nat.zero_mod]
        rfl
      | false =>
        simp only [Bool.false_eq_true, if_false] at fits ⊢
        have less : magnitude < 256 ^ width := by exact_mod_cast fits.2
        rw [if_neg (by omega), Nat.mod_eq_of_lt less]

theorem parsePrimitive_signed {P : MetaParser} (signed : kind.isSigned = true) :
    parsePrimitive P mem token x kind =
      (mem.writeInt x kind.width (strtol (kind.bits P.longBits) token).1,
        (strtol (kind.bits P.longBits) token).2) := by
  cases kind with
  | i8 | i16 | i32 | i64 => rfl
  | _ => cases signed

theorem parsePrimitive_unsigned {P : MetaParser} (integer : kind.isInteger = true)
    (unsigned : kind.isSigned = false) :
    parsePrimitive P mem token x kind =
      (mem.writeNat x kind.width (strtoul (kind.bits P.longBits) token).1,
        (strtoul (kind.bits P.longBits) token).2) := by
  cases kind with
  | u8 | u16 | u32 | u64 => rfl
  | i8 | i16 | i32 | i64 => cases unsigned
  | f32 | f64 | char8 => cases integer

/-- An integer type is not wider than what its procedure reads. -/
theorem width_enough {longBits : Nat} (long : 32 ≤ longBits) (integer : kind.isInteger = true) :
    0 < kind.width ∧ 8 * kind.width ≤ kind.bits longBits := by
  cases kind with
  | f32 | f64 | char8 => cases integer
  | i64 | u64 => exact ⟨by decide, le_rfl⟩
  | i8 | u8 | i16 | u16 | i32 | u32 => exact ⟨by decide, le_trans (b := 32) (by decide) long⟩

/-- **An integer that is read to the end of its token.** -/
theorem parsePrimitive_integer {P : MetaParser} (long : 32 ≤ P.longBits) (integer : kind.isInteger = true)
    (nonempty : token ≠ []) (whole : (parsePrimitive P mem token x kind).2 = []) :
    ∃ v, integerToken token = some v ∧
      (kind.integerAt (parsePrimitive P mem token x kind).1 x = v ↔ kind.Fits v) := by
  obtain ⟨pos, enough⟩ := width_enough long integer
  unfold MetaPrimitiveType.integerAt MetaPrimitiveType.Fits
  cases signed : kind.isSigned with
  | true =>
    rw [parsePrimitive_signed signed] at whole ⊢
    obtain ⟨v, denotes, stored⟩ := strtol_token nonempty whole
    refine ⟨v, denotes, ?_⟩
    rw [if_pos rfl, if_pos rfl, stored]
    exact readInt_clamped pos enough
  | false =>
    rw [parsePrimitive_unsigned integer signed] at whole ⊢
    obtain ⟨v, denotes, stored⟩ := strtoul_token enough nonempty whole
    refine ⟨v, denotes, ?_⟩
    rw [if_neg Bool.false_ne_true, if_neg Bool.false_ne_true]
    exact stored

end Tokens

section Values

variable {P : MetaParser} {field : MetaField} {heap heap' : BlockHeap} {object : Nat} {descriptor : MetaDescriptor}

/-- No members are read to a type without fields. -/
theorem JsonMembers.read_fieldless (members : JsonMembers) (fieldless : descriptor.fields = []) :
    members.read P descriptor heap object = none := by
  have missing : ∀ name, findField descriptor name = none := fun name => by
    rw [findField, fieldless]
    rfl
  induction members using JsonMembers.inductionOn with
  | last key value behind =>
    rw [JsonMembers.read, missing]
    rfl
  | more key value behind before members ih =>
    rw [JsonMembers.read, missing]
    exact ih

/-- What is read of a string to a number is nothing. -/
theorem readToken_quoted (found : metaGetDescriptor P.reg field.type = some descriptor)
    (kind : descriptor.typeClass = .primitive) (integer : descriptor.primitive.isInteger = true)
    (body : List UInt8) : readToken P field.type heap (quoted body) object = none := by
  have brace : peekChar (charByte '\x7b') (quoted body) = false := rfl
  have sign : readInteger (quoted body) = none := rfl
  rw [readToken, found, parseToken, parseJsonDescriptor, brace, if_neg Bool.false_ne_true, Option.bind_some, kind]
  simp only
  cases signed : descriptor.primitive.isSigned with
  | true =>
    simp only [parsePrimitive_signed signed, strtol, sign]
    rfl
  | false =>
    simp only [parsePrimitive_unsigned integer signed, strtoul, sign]
    rfl

/-- **A value that is read to an integer** is a number of the text, and what is in memory is this number if
and only if it fits. -/
theorem read_number (long : 32 ≤ P.longBits) (bare : P.reg.FieldsOfObjects)
    (found : metaGetDescriptor P.reg field.type = some descriptor) (kind : descriptor.typeClass = .primitive)
    (integer : descriptor.primitive.isInteger = true) {value : Json}
    (read : value.read P field true heap object = some heap') :
    ∃ v, value.number = some v ∧
      (descriptor.primitive.integerAt heap'.mem object = v ↔ descriptor.primitive.Fits v) := by
  cases value with
  | scalar token =>
    have brace : peekChar (charByte '\x7b') token.bytes = false := peekChar_false fun c head =>
      (isScalarByte_plain (token.plain c (List.mem_of_mem_head? head))).2.2.2.2.2.1
    rw [Json.read, readToken, found, parseToken, parseJsonDescriptor, brace, if_neg Bool.false_ne_true,
      Option.bind_some, kind] at read
    simp only at read
    have whole : (parsePrimitive P heap.mem token.bytes object descriptor.primitive).2 = [] := by
      split at read
      · next same => exact Except.ok.inj (Prod.mk.inj (Option.some.inj same)).2
      · cases read
    rw [whole] at read
    obtain rfl := Option.some.inj read
    exact parsePrimitive_integer long integer token.nonempty whole
  | string token =>
    rw [Json.read, readToken_quoted found kind integer] at read
    cases read
  | emptyArray | array =>
    rw [Json.read, if_pos (Or.inl rfl)] at read
    cases read
  | emptyObject => cases read
  | object before members =>
    rw [Json.read, found, Option.bind_some, members.read_fieldless (bare _ _ found (by rw [kind]; decide))] at read
    cases read

end Values

end Vaudou
