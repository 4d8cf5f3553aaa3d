/-
**`vd_snfmt` against the reference rendering.**

A format is a list of items: literal text, and specifiers with their arguments. `rendering` is what the
string should be.

The measuring pass gives every integer procedure no room, and there it returns before it reads its
argument. A string specifier behind an integer specifier then reads the integer's argument. And the
length of the string is cut to 32 bits, and the index of the path loop is an `int`. `Renderable` says
that none of the three happens.
-/

import Vaudou.Fmt.Format
import Vaudou.Fmt.Integers

namespace Vaudou

open Vaudou.Memory Vaudou.Text

/-- The integer specifiers. -/
inductive IntSpec where
  | i8 | i16 | i32 | i64 | u8 | u16 | u32 | u64
deriving DecidableEq, Repr

/-- The specifiers of strings. -/
inductive StrSpec where
  | stru32 | stru64 | cstr | pathu32
deriving DecidableEq, Repr

def IntSpec.name : IntSpec → List UInt8
  | i8 => ascii "i8"
  | i16 => ascii "i16"
  | i32 => ascii "i32"
  | i64 => ascii "i64"
  | u8 => ascii "u8"
  | u16 => ascii "u16"
  | u32 => ascii "u32"
  | u64 => ascii "u64"

def IntSpec.conversion : IntSpec → IntConversion
  | i8 => int8Conversion
  | i16 => int16Conversion
  | i32 => int32Conversion
  | i64 => int64Conversion
  | u8 => uint8Conversion
  | u16 => uint16Conversion
  | u32 => uint32Conversion
  | u64 => uint64Conversion

def StrSpec.name : StrSpec → List UInt8
  | stru32 => ascii "stru32"
  | stru64 => ascii "stru64"
  | cstr => ascii "cstr"
  | pathu32 => ascii "pathu32"

def StrSpec.proc : StrSpec → FmtProcFmt
  | stru32 => stringSliceToStr 32
  | stru64 => stringSliceToStr 64
  | cstr => fmtCstr
  | pathu32 => pathu32ToStr

/-- The argument of a string specifier for the bytes at `data`. -/
def StrSpec.arg (data len : Nat) : StrSpec → FmtArg
  | stru32 => .slice 32 data len
  | stru64 => .slice 64 data len
  | cstr => .pointer data
  | pathu32 => .slice 32 data len

/-- How a string is rendered: a path with slashes. -/
def StrSpec.rendering (content : List UInt8) : StrSpec → List UInt8
  | pathu32 => content.map slashed
  | _ => content

/-- Literal text, or a specifier and its argument: an integer, or the bytes of a string and where they
are. -/
inductive FmtItem where
  | text (bytes : List UInt8)
  | int (spec : IntSpec) (v : Int)
  | str (spec : StrSpec) (data : Nat) (content : List UInt8)
  | null
deriving DecidableEq, Repr

namespace FmtItem

/-- The item in the format string. -/
def format : FmtItem → List UInt8
  | text bytes => bytes
  | int spec _ => specifier spec.name
  | str spec _ _ => specifier spec.name
  | null => specifier (ascii "null")

/-- The arguments of the item. -/
def args : FmtItem → List FmtArg
  | text _ => []
  | int spec v => [.word spec.conversion.argBits v]
  | str spec data content => [spec.arg data content.length]
  | null => []

/-- **The reference rendering.** -/
def rendering : FmtItem → List UInt8
  | text bytes => bytes
  | int _ v => decimalInt v
  | str spec _ content => spec.rendering content
  | null => [0]

/-- What the measuring pass counts. -/
def measure : FmtItem → Nat
  | text bytes => bytes.length
  | int spec _ => spec.conversion.maxdigits
  | str _ _ content => content.length
  | null => 1

def isInt : FmtItem → Bool
  | int _ _ => true
  | _ => false

def isStr : FmtItem → Bool
  | str _ _ _ => true
  | _ => false

/-- The loop over a path keeps its index within an `int`. -/
def Short : FmtItem → Prop
  | str .pathu32 _ content => content.length < 2 ^ 31
  | _ => True

end FmtItem

/-- The values of the claim: above the minimum of the type, and below 64 in magnitude for `i8`. -/
def IntSpec.Admits (spec : IntSpec) (v : Int) : Prop :=
  WordRange spec.conversion.bits spec.conversion.issigned v ∧
    (spec.conversion.issigned = true → v ≠ -(2 ^ (spec.conversion.bits - 1) : Int)) ∧
    (spec = .i8 → v.natAbs < 64)

/-- The bytes at `data` are the string; a C string ends with a 0 and has no other. -/
def StrSpec.Holds (mem : Mem) (data : Nat) (content : List UInt8) (spec : StrSpec) : Prop :=
  mem.load data content.length = content ∧ match spec with
  | stru32 => content.length < 2 ^ 32
  | stru64 => content.length < 2 ^ 64
  | cstr => IsCString mem data content
  | pathu32 => content.length < 2 ^ 32

/-- The bytes that a string takes, with the terminator of a C string. -/
def StrSpec.extent (content : List UInt8) : StrSpec → Nat
  | cstr => content.length + 1
  | _ => content.length

/-- The item's text has no percent sign, and its argument matches its specifier. A string is not among
the addresses from `low` to `high`, which are for the result. -/
def FmtItem.Matches (mem : Mem) (low high : Nat) : FmtItem → Prop
  | text bytes => ∀ c ∈ bytes, c ≠ charByte '%' ∧ c ≠ 0
  | int spec v => spec.Admits v
  | str spec data content => spec.Holds mem data content ∧
    (data + spec.extent content ≤ low ∨ high ≤ data)
  | null => True

instance (spec : IntSpec) (v : Int) : Decidable (spec.Admits v) :=
  inferInstanceAs (Decidable (_ ∧ (_ → _ ≠ _) ∧ (_ → _ < _)))

instance (mem : Mem) (data : Nat) (content : List UInt8) :
    ∀ spec : StrSpec, Decidable (spec.Holds mem data content)
  | .stru32 => inferInstanceAs (Decidable (_ = _ ∧ _ < _))
  | .stru64 => inferInstanceAs (Decidable (_ = _ ∧ _ < _))
  | .cstr => inferInstanceAs (Decidable (_ = _ ∧ IsCString _ _ _))
  | .pathu32 => inferInstanceAs (Decidable (_ = _ ∧ _ < _))

instance (mem : Mem) (low high : Nat) : ∀ item : FmtItem, Decidable (item.Matches mem low high)
  | .text bytes => inferInstanceAs (Decidable (∀ c ∈ bytes, c ≠ _ ∧ c ≠ _))
  | .int spec v => inferInstanceAs (Decidable (spec.Admits v))
  | .str spec data content => inferInstanceAs (Decidable (spec.Holds mem data content ∧ (_ ∨ _)))
  | .null => inferInstanceAs (Decidable True)

/-- The format string of the items. -/
def itemsFormat (items : List FmtItem) : List UInt8 := items.flatMap FmtItem.format

/-- The arguments of the items. -/
def itemsArgs (items : List FmtItem) : List FmtArg := items.flatMap FmtItem.args

/-- The reference rendering of the items. -/
def itemsRendering (items : List FmtItem) : List UInt8 := items.flatMap FmtItem.rendering

/-- What the measuring pass counts over the items. -/
def itemsMeasure (items : List FmtItem) : Nat := (items.map FmtItem.measure).sum

section Items

variable (item : FmtItem) (items : List FmtItem)

theorem itemsFormat_cons : itemsFormat (item :: items) = item.format ++ itemsFormat items := rfl

theorem itemsArgs_cons : itemsArgs (item :: items) = item.args ++ itemsArgs items := rfl

theorem itemsRendering_cons :
    itemsRendering (item :: items) = item.rendering ++ itemsRendering items := rfl

theorem itemsMeasure_cons : itemsMeasure (item :: items) = item.measure + itemsMeasure items := rfl

end Items

/-- **No string specifier stands behind an integer specifier**, the length fits the string's field, and
every path fits the loop's index. -/
def Renderable (items : List FmtItem) : Prop :=
  items.Pairwise (fun first second => first.isInt = true → second.isStr = false) ∧
    (itemsRendering items).length < 2 ^ 32 ∧ ∀ item ∈ items, item.Short

/-! ### The table -/

section Table

variable (printed : Nat → List UInt8)

theorem fmtDefLut_int (spec : IntSpec) :
    (fmtDefLut printed).find? (fun entry => entry.s == spec.name) =
      some ⟨spec.name, some spec.conversion.toStr⟩ := by
  cases spec <;> rfl

theorem fmtDefLut_str (spec : StrSpec) :
    (fmtDefLut printed).find? (fun entry => entry.s == spec.name) =
      some ⟨spec.name, some spec.proc⟩ := by
  cases spec <;> rfl

theorem fmtDefLut_null :
    (fmtDefLut printed).find? (fun entry => entry.s == ascii "null") =
      some ⟨ascii "null", some nullToStr⟩ := rfl

theorem IntSpec.name_closed (spec : IntSpec) : ∀ c ∈ spec.name, c ≠ charByte '\x7d' := by
  cases spec <;> decide +kernel

theorem StrSpec.name_closed (spec : StrSpec) : ∀ c ∈ spec.name, c ≠ charByte '\x7d' := by
  cases spec <;> decide +kernel

theorem null_closed : ∀ c ∈ ascii "null", c ≠ charByte '\x7d' := by decide +kernel

end Table

/-! ### Admitted integers -/

section Admitted

variable {c : IntConversion} {spec : IntSpec} {v : Int}

/-- A value of the type is what its conversion to the type gives. -/
theorem IntConversion.wrap_eq (pos : 0 < c.bits) (range : WordRange c.bits c.issigned v) :
    c.wrap v = v := by
  obtain ⟨k, width⟩ : ∃ k, c.bits = k + 1 := ⟨c.bits - 1, by omega⟩
  unfold IntConversion.wrap
  unfold WordRange at range
  rw [width] at range ⊢
  split
  next signed =>
    rw [if_pos signed, Nat.add_sub_cancel] at range
    refine Int.bmod_eq_of_le ?_ ?_ <;>
    · have doubled : 2 ^ (k + 1) = 2 * 2 ^ k := Nat.pow_succ'
      have cast : ((2 ^ k : Nat) : Int) = 2 ^ k := by norm_num
      omega
  next unsigned =>
    rw [if_neg unsigned] at range
    exact Int.emod_eq_of_lt range.1 range.2

/-- An integer of at most `k` digits has at most `k` bytes, and one more for the sign. -/
theorem decimalInt_length_le {k : Nat} (pos : 0 < k) (small : v.natAbs < 10 ^ k) :
    (decimalInt v).length ≤ if v < 0 then k + 1 else k := by
  have digits := (decimal_length_le pos).mpr small
  split
  next negative =>
    rw [decimalInt_neg negative, List.length_cons]
    exact Nat.succ_le_succ digits
  next nonneg => rwa [decimalInt_nonneg nonneg]

/-- The digits of the largest magnitude of the type. -/
def IntConversion.magnitudeDigits (c : IntConversion) : Nat :=
  if c.issigned then c.maxdigits - 1 else c.maxdigits

attribute [local simp] WordRange IntSpec.conversion int8Conversion int16Conversion int32Conversion
  int64Conversion uint8Conversion uint16Conversion uint32Conversion uint64Conversion
  IntConversion.magnitudeDigits

theorem IntSpec.bits_pos (spec : IntSpec) : 0 < spec.conversion.bits := by cases spec <;> decide

theorem IntSpec.scratch (spec : IntSpec) : spec.conversion.maxdigits ≤ 21 := by cases spec <;> decide

/-- A value of the type is one of the type of its argument. -/
theorem IntSpec.argRange (range : WordRange spec.conversion.bits spec.conversion.issigned v) :
    WordRange spec.conversion.argBits spec.conversion.issigned v := by
  cases spec <;> simp at range ⊢ <;> omega

/-- A negative value above the minimum is negated. -/
theorem IntSpec.negated (range : WordRange spec.conversion.bits spec.conversion.issigned v)
    (above : spec.conversion.issigned = true → v ≠ -(2 ^ (spec.conversion.bits - 1) : Int))
    (negative : v < 0) : spec.conversion.issigned = true ∧ spec.conversion.negate v = some (-v) := by
  have signed : spec.conversion.issigned = true := by
    cases spec <;> simp at range ⊢ <;> omega
  have opposite : WordRange spec.conversion.bits spec.conversion.issigned (-v) := by
    cases spec <;> simp at range above ⊢ <;> omega
  refine ⟨signed, ?_⟩
  rw [IntConversion.negate, if_neg fun minimum => above signed minimum.2,
    IntConversion.wrap_eq spec.bits_pos opposite]

/-- **The digits of every value** are at most those of the type. -/
theorem IntSpec.digits_le (range : WordRange spec.conversion.bits spec.conversion.issigned v) :
    (decimalInt v).length ≤ spec.conversion.maxdigits := by
  have few : v.natAbs < 10 ^ spec.conversion.magnitudeDigits := by
    cases spec <;> simp at range ⊢ <;> omega
  have signed : v < 0 → spec.conversion.issigned = true := by
    cases spec <;> simp at range ⊢ <;> omega
  have length := decimalInt_length_le (by cases spec <;> decide) few
  refine length.trans ?_
  unfold IntConversion.magnitudeDigits
  split
  next negative =>
    rw [if_pos (signed negative)]
    exact (Nat.sub_add_cancel (by cases spec <;> decide)).le
  next => split <;> omega

/-- **The admitted values are those that the procedures handle.** -/
theorem IntSpec.Admits.renders (admits : spec.Admits v) : spec.conversion.Renders v := by
  obtain ⟨range, above, narrow⟩ := admits
  have twice : ∀ d < 100, d ≤ v.natAbs →
      WordRange spec.conversion.bits spec.conversion.issigned (d * 2 : Nat) := by
    cases spec <;> simp at range narrow ⊢ <;> omega
  exact ⟨IntSpec.argRange range, IntConversion.wrap_eq spec.bits_pos range, IntSpec.negated range above,
    fun d small below => IntConversion.wrap_eq spec.bits_pos (twice d small below),
    IntSpec.digits_le range, spec.scratch⟩

end Admitted

end Vaudou
