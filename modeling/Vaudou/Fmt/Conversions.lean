/-
**The conversion procedures of `vd_fmt.h`.**

A `VD_FmtProcFmt` gets the place behind what was written, the bytes that are left there, and the
variable arguments. It returns the number of bytes it has written, or would need. `va_list *` is the
list of the arguments that are not read yet. `none` is undefined behaviour: an argument of another type,
an index outside the digit table or the scratch buffer, or an overflow of a signed integer.

What `snprintf` makes of a `double` under `"%f"` is a parameter.
-/

import Vaudou.Foundation.CString

namespace Vaudou

open Vaudou.Memory Vaudou.Text

/-- An argument behind the `...`, after the default argument promotions: an integer of 32 or 64 bits,
a slice with a length of 32 or 64 bits, a `char *`, or a `double`. -/
inductive FmtArg where
  | word (bits : Nat) (value : Int)
  | slice (bits data len : Nat)
  | pointer (p : Nat)
  | double (bits : Nat)
deriving DecidableEq, Repr

/-- The memory, and the arguments that are not read yet. -/
structure FmtState where
  mem : Mem
  args : List FmtArg

/-- `VD_FmtProcFmt`. -/
abbrev FmtProcFmt := (out n : Nat) → FmtState → Option (FmtState × Nat)

/-! ### Integers -/

/-- The values of an integer type. -/
def WordRange (bits : Nat) (issigned : Bool) (value : Int) : Prop :=
  if issigned then -(2 ^ (bits - 1) : Int) ≤ value ∧ value < 2 ^ (bits - 1)
  else 0 ≤ value ∧ value < 2 ^ bits

instance (bits : Nat) (issigned : Bool) (value : Int) : Decidable (WordRange bits issigned value) :=
  inferInstanceAs (Decidable (ite _ _ _))

/-- `va_arg` at an integer type. A value that both types have may be read at either signedness. -/
def vaArgInt (bits : Nat) (issigned : Bool) : List FmtArg → Option (Int × List FmtArg)
  | .word argBits value :: rest =>
    if argBits = bits ∧ WordRange bits issigned value then some (value, rest) else none
  | _ => none

/-- The parameters of one `VD_FMT__X(intname, issigned, maxdigits, argcast)`. -/
structure IntConversion where
  bits : Nat
  issigned : Bool
  maxdigits : Nat
  argBits : Nat
deriving DecidableEq, Repr

/-- The conversion of a value to `intname`. -/
def IntConversion.wrap (c : IntConversion) (value : Int) : Int :=
  if c.issigned then Int.bmod value (2 ^ c.bits) else value % 2 ^ c.bits

/-- `v = -v`: narrow types are promoted to `int` first, and the minimum of a wide type overflows. -/
def IntConversion.negate (c : IntConversion) (v : Int) : Option Int :=
  if 32 ≤ c.bits ∧ v = -(2 ^ (c.bits - 1) : Int) then none else some (c.wrap (-v))

/-- `if (issigned && (v < 0)) v = -v`, where `sgn` is the condition. -/
def IntConversion.magnitude (c : IntConversion) (sgn : Bool) (v : Int) : Option Int :=
  if sgn then c.negate v else some v

/-- A difference of two `size_t`. -/
def sizeSub (a b : Nat) : Nat := (a + (2 ^ 64 - b)) % 2 ^ 64

/-- `VD_FMT__Digits_Lut`, with its terminator. -/
def digitsLut : List UInt8 :=
  ascii "0001020304050607080910111213141516171819" ++
  ascii "2021222324252627282930313233343536373839" ++
  ascii "4041424344454647484950515253545556575859" ++
  ascii "6061626364656667686970717273747576777879" ++
  ascii "8081828384858687888990919293949596979899" ++ [0]

/-- `VD_FMT__Digits_Lut[i]`. -/
def digitsLutAt (i : Int) : Option UInt8 := if 0 ≤ i then digitsLut[i.toNat]? else none

/-- `wr[i] = byte`, in `char wr[21]`. -/
def wrSet (wr : Mem) (i : Nat) (byte : UInt8) : Option Mem :=
  if i < 21 then some (Function.update wr i byte) else none

section Integers

variable (c : IntConversion)

/-- The loop that writes two digits a round. -/
def digitsLoop : (fuel : Nat) → (v : Int) → (next : Nat) → (wr : Mem) → Option (Int × Nat × Mem)
  | 0, _, _, _ => none
  | fuel + 1, v, next, wr =>
    if 100 ≤ v then do
      let i := c.wrap (v % 100 * 2)
      let wr ← wrSet wr next (← digitsLutAt (i + 1))
      let wr ← wrSet wr (sizeSub next 1) (← digitsLutAt i)
      digitsLoop fuel (v / 100) (sizeSub next 2) wr
    else some (v, next, wr)

/-- The last one or two digits. -/
def digitsTail (v : Int) (next : Nat) (wr : Mem) : Option (Nat × Mem) :=
  if v < 10 then do
    let wr ← wrSet wr next (UInt8.ofInt (48 + v))
    some (next, wr)
  else do
    let i := c.wrap (v * 2)
    let wr ← wrSet wr next (← digitsLutAt (i + 1))
    let wr ← wrSet wr (sizeSub next 1) (← digitsLutAt i)
    some (sizeSub next 1, wr)

/-- `if (sgn) wr[--next] = '-'`. -/
def signTail (sgn : Bool) (next : Nat) (wr : Mem) : Option (Nat × Mem) :=
  if sgn then do
    let wr ← wrSet wr (sizeSub next 1) (charByte '-')
    some (sizeSub next 1, wr)
  else some (next, wr)

/-- The procedure that `VD_FMT__X` defines. A small `n` returns before the argument is read. -/
def IntConversion.toStr : FmtProcFmt := fun out n state =>
  let length := c.maxdigits
  let next := length - 1
  if n < next then some (state, length)
  else do
    let (arg, args) ← vaArgInt c.argBits c.issigned state.args
    let v := c.wrap arg
    let sgn := c.issigned && v < 0
    let v ← c.magnitude sgn v
    let (v, next, wr) ← digitsLoop c length v next fun _ => 0
    let (next, wr) ← digitsTail c v next wr
    let (next, wr) ← signTail sgn next wr
    let used := sizeSub length next
    if n < used then some ({ state with args := args }, used)
    else some (⟨state.mem.store out (wr.load next used), args⟩, used)

end Integers

/-- `vd_fmt__uint64_t_to_str`. -/
def uint64Conversion : IntConversion := ⟨64, false, 20, 64⟩

/-- `vd_fmt__int64_t_to_str`. -/
def int64Conversion : IntConversion := ⟨64, true, 21, 64⟩

/-- `vd_fmt__uint32_t_to_str`. -/
def uint32Conversion : IntConversion := ⟨32, false, 10, 32⟩

/-- `vd_fmt__int32_t_to_str`. -/
def int32Conversion : IntConversion := ⟨32, true, 11, 32⟩

/-- `vd_fmt__uint16_t_to_str`. -/
def uint16Conversion : IntConversion := ⟨16, false, 5, 32⟩

/-- `vd_fmt__int16_t_to_str`. -/
def int16Conversion : IntConversion := ⟨16, true, 6, 32⟩

/-- `vd_fmt__uint8_t_to_str`. -/
def uint8Conversion : IntConversion := ⟨8, false, 3, 32⟩

/-- `vd_fmt__int8_t_to_str`. -/
def int8Conversion : IntConversion := ⟨8, true, 4, 32⟩

/-! ### Strings -/

/-- `va_arg` at a slice type. -/
def vaArgSlice (bits : Nat) : List FmtArg → Option ((Nat × Nat) × List FmtArg)
  | .slice argBits data len :: rest => if argBits = bits then some ((data, len), rest) else none
  | _ => none

/-- `va_arg` at `const char *`. -/
def vaArgPointer : List FmtArg → Option (Nat × List FmtArg)
  | .pointer p :: rest => some (p, rest)
  | _ => none

/-- The end of the string procedures: `if (n < len) return len; memcpy(out, data, len); return len`. -/
def copyString (out n data len : Nat) (state : FmtState) : FmtState × Nat :=
  if n < len then (state, len)
  else ({ state with mem := state.mem.store out (state.mem.load data len) }, len)

/-- `VD_FMT__string_slice_to_str##lentype`. -/
def stringSliceToStr (bits : Nat) : FmtProcFmt := fun out n state =>
  (vaArgSlice bits state.args).map fun (v, args) => copyString out n v.1 v.2 ⟨state.mem, args⟩

/-- `vd_fmt__cstr`. -/
def fmtCstr : FmtProcFmt := fun out n state => do
  let (s, args) ← vaArgPointer state.args
  let len ← strlen state.mem s
  some (copyString out n s len ⟨state.mem, args⟩)

/-- A byte of a path is written with a slash for a backslash. -/
def slashed (c : UInt8) : UInt8 := if c = charByte '\\' then charByte '/' else c

/-- The loop of `vd_fmt__pathu32_to_str`; its `i` is an `int`. -/
def pathLoop (out data : Nat) : (rounds i : Nat) → Mem → Option Mem
  | 0, _, mem => some mem
  | rounds + 1, i, mem =>
    let mem := mem.store (out + i) [slashed (mem (data + i))]
    if i + 1 < 2 ^ 31 then pathLoop out data rounds (i + 1) mem else none

/-- `vd_fmt__pathu32_to_str`. -/
def pathu32ToStr : FmtProcFmt := fun out n state => do
  let (v, args) ← vaArgSlice 32 state.args
  if n < v.2 then some (⟨state.mem, args⟩, v.2)
  else (pathLoop out v.1 v.2 0 state.mem).map fun mem => (⟨mem, args⟩, v.2)

/-- `vd_fmt__null_to_str`. -/
def nullToStr : FmtProcFmt := fun out n state =>
  if n < 1 then some (state, 1) else some ({ state with mem := state.mem.store out [0] }, 1)

/-! ### Floating point -/

/-- `vd_fmt__f32_to_str`: no argument has type `float` after the promotions. -/
def f32ToStr : FmtProcFmt := fun _ _ _ => none

/-- `vd_fmt__f64_to_str`. `snprintf` writes as much of the text as fits, and a 0. -/
def f64ToStr (printed : Nat → List UInt8) : FmtProcFmt := fun out n state =>
  match state.args with
  | .double bits :: args =>
    let text := printed bits
    some (⟨if n = 0 then state.mem else state.mem.store out (text.take (n - 1) ++ [0]), args⟩,
      text.length)
  | _ => none

/-! ### The table -/

/-- `VD_FmtTable`; some entries have no procedure. -/
structure FmtTable where
  s : List UInt8
  p : Option FmtProcFmt

/-- `_VD_Fmt_Def_Lut`. -/
def fmtDefLut (printed : Nat → List UInt8) : List FmtTable :=
  [⟨ascii "i8", some int8Conversion.toStr⟩,
   ⟨ascii "i16", some int16Conversion.toStr⟩,
   ⟨ascii "i32", some int32Conversion.toStr⟩,
   ⟨ascii "i64", some int64Conversion.toStr⟩,
   ⟨ascii "u8", some uint8Conversion.toStr⟩,
   ⟨ascii "u16", some uint16Conversion.toStr⟩,
   ⟨ascii "u32", some uint32Conversion.toStr⟩,
   ⟨ascii "u64", some uint64Conversion.toStr⟩,
   ⟨ascii "f32", some f32ToStr⟩,
   ⟨ascii "f64", some (f64ToStr printed)⟩,
   ⟨ascii "stru32", some (stringSliceToStr 32)⟩,
   ⟨ascii "stru64", some (stringSliceToStr 64)⟩,
   ⟨ascii "cstr", some fmtCstr⟩,
   ⟨ascii "ptr", none⟩,
   ⟨ascii "ptrdiff", none⟩,
   ⟨ascii "size", none⟩,
   ⟨ascii "usize", none⟩,
   ⟨ascii "bool", none⟩,
   ⟨ascii "char", none⟩,
   ⟨ascii "void", none⟩,
   ⟨ascii "pathu32", some pathu32ToStr⟩,
   ⟨ascii "null", some nullToStr⟩]

end Vaudou
