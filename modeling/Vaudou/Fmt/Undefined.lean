/-
**The formatter where undefined steps go on.**

A procedure is undefined (`none`) where it reads an argument of another type, indexes outside the digit
table, negates the minimum of a type, or measures a string without an end. On a machine such a step
yields something. `UndefinedReads` is any choice of what it yields, and `FmtProcs.resolved` are the
procedures under that choice. Where the argument behind an integer specifier was not read, this is what
runs.

* `vsnfmt_resolved`: a defined run is the run under every choice.
-/

import Vaudou.Fmt.Rendering

namespace Vaudou

open Vaudou.Memory Vaudou.Text

/-- Every slice among the arguments is shorter than `2 ^ 31` bytes. -/
def ShortSlices (args : List FmtArg) : Prop := ∀ bits data len, .slice bits data len ∈ args → len < 2 ^ 31

/-- **What the undefined steps yield**: `va_arg` at another type a value and what is left of the arguments,
the negation of a minimum some integer, the places beside the digit table some bytes, and `strlen` of a
string without an end some length. -/
structure UndefinedReads where
  int : List FmtArg → Int
  slice : List FmtArg → Nat × Nat
  pointer : List FmtArg → Nat
  double : List FmtArg → Nat
  left : List FmtArg → List FmtArg
  negation : Int → Int
  beside : Int → UInt8
  endless : Mem → Nat → Nat
  slice_short : ∀ args, (slice args).2 < 2 ^ 31
  left_short : ∀ args, ShortSlices args → ShortSlices (left args)

/-- `va_arg` at `double`. -/
def vaArgDouble : List FmtArg → Option (Nat × List FmtArg)
  | .double bits :: rest => some (bits, rest)
  | _ => none

/-! ### The resolved procedures -/

namespace UndefinedReads

variable (r : UndefinedReads)

def vaArgInt (bits : Nat) (issigned : Bool) (args : List FmtArg) : Int × List FmtArg :=
  (Vaudou.vaArgInt bits issigned args).getD (r.int args, r.left args)

def vaArgSlice (bits : Nat) (args : List FmtArg) : (Nat × Nat) × List FmtArg :=
  (Vaudou.vaArgSlice bits args).getD (r.slice args, r.left args)

def vaArgPointer (args : List FmtArg) : Nat × List FmtArg :=
  (Vaudou.vaArgPointer args).getD (r.pointer args, r.left args)

def vaArgDouble (args : List FmtArg) : Nat × List FmtArg :=
  (Vaudou.vaArgDouble args).getD (r.double args, r.left args)

/-- `VD_FMT__Digits_Lut[i]`, also beside the table. -/
def digitsLutAt (i : Int) : UInt8 := (Vaudou.digitsLutAt i).getD (r.beside i)

/-- `if (issigned && (v < 0)) v = -v`; an overflow yields a value of the type. -/
def magnitude (c : IntConversion) (sgn : Bool) (v : Int) : Int :=
  (c.magnitude sgn v).getD (c.wrap (r.negation v))

def strlen (mem : Mem) (s : Nat) : Nat := (Text.strlen mem s).getD (r.endless mem s)

/-- `digitsLoop`; its writes to `wr` stay checked. -/
def digitsLoop (c : IntConversion) :
    (fuel : Nat) → (v : Int) → (next : Nat) → (wr : Mem) → Option (Int × Nat × Mem)
  | 0, _, _, _ => none
  | fuel + 1, v, next, wr =>
    if 100 ≤ v then do
      let i := c.wrap (v % 100 * 2)
      let wr ← wrSet wr next (r.digitsLutAt (i + 1))
      let wr ← wrSet wr (sizeSub next 1) (r.digitsLutAt i)
      digitsLoop c fuel (v / 100) (sizeSub next 2) wr
    else some (v, next, wr)

/-- `digitsTail`. -/
def digitsTail (c : IntConversion) (v : Int) (next : Nat) (wr : Mem) : Option (Nat × Mem) :=
  if v < 10 then do
    let wr ← wrSet wr next (UInt8.ofInt (48 + v))
    some (next, wr)
  else do
    let i := c.wrap (v * 2)
    let wr ← wrSet wr next (r.digitsLutAt (i + 1))
    let wr ← wrSet wr (sizeSub next 1) (r.digitsLutAt i)
    some (sizeSub next 1, wr)

/-- `IntConversion.text`. -/
def text (c : IntConversion) (arg : Int) : Option (List UInt8) := do
  let v := c.wrap arg
  let sgn := c.issigned && v < 0
  let (v, next, wr) ← r.digitsLoop c c.maxdigits (r.magnitude c sgn v) (c.maxdigits - 1) fun _ => 0
  let (next, wr) ← r.digitsTail c v next wr
  let (next, wr) ← signTail sgn next wr
  some (wr.load next (sizeSub c.maxdigits next))

/-- `IntConversion.toStr`. -/
def toStr (c : IntConversion) : FmtProcFmt := fun out n state =>
  if n < c.maxdigits - 1 then some (state, c.maxdigits)
  else
    let (arg, args) := r.vaArgInt c.argBits c.issigned state.args
    (r.text c arg).map (putText out n state.mem args)

/-- `stringSliceToStr`. -/
def stringSliceToStr (bits : Nat) : FmtProcFmt := fun out n state =>
  let (v, args) := r.vaArgSlice bits state.args
  some (copyString out n v.1 v.2 ⟨state.mem, args⟩)

/-- `fmtCstr`. -/
def fmtCstr : FmtProcFmt := fun out n state =>
  let (s, args) := r.vaArgPointer state.args
  some (copyString out n s (r.strlen state.mem s) ⟨state.mem, args⟩)

/-- `pathu32ToStr`; its index stays checked. -/
def pathu32ToStr : FmtProcFmt := fun out n state =>
  let (v, args) := r.vaArgSlice 32 state.args
  if n < v.2 then some (⟨state.mem, args⟩, v.2)
  else (pathLoop out v.1 v.2 0 state.mem).map fun mem => (⟨mem, args⟩, v.2)

/-- `snprintf(out, n, "%f", f)`. -/
def printDouble (printed : Nat → List UInt8) (bits out n : Nat) (mem : Mem) (args : List FmtArg) :
    FmtState × Nat :=
  (⟨if n = 0 then mem else mem.store out ((printed bits).take (n - 1) ++ [0]), args⟩,
    (printed bits).length)

/-- `f32ToStr`: `va_arg` at `float` is undefined at every argument. -/
def f32ToStr (printed : Nat → List UInt8) : FmtProcFmt := fun out n state =>
  some (printDouble printed (r.double state.args) out n state.mem (r.left state.args))

/-- `f64ToStr`. -/
def f64ToStr (printed : Nat → List UInt8) : FmtProcFmt := fun out n state =>
  let (bits, args) := r.vaArgDouble state.args
  some (printDouble printed bits out n state.mem args)

end UndefinedReads

/-- The procedures of a table with the names of `_VD_Fmt_Def_Lut`. -/
structure FmtProcs where
  int : IntConversion → FmtProcFmt
  f32 : FmtProcFmt
  f64 : FmtProcFmt
  slice : Nat → FmtProcFmt
  cstr : FmtProcFmt
  path : FmtProcFmt

namespace FmtProcs

/-- The procedures of the source. -/
def source (printed : Nat → List UInt8) : FmtProcs :=
  ⟨IntConversion.toStr, Vaudou.f32ToStr, Vaudou.f64ToStr printed, Vaudou.stringSliceToStr,
    Vaudou.fmtCstr, Vaudou.pathu32ToStr⟩

/-- The procedures under a choice of what undefined steps yield. -/
def resolved (r : UndefinedReads) (printed : Nat → List UInt8) : FmtProcs :=
  ⟨r.toStr, r.f32ToStr printed, r.f64ToStr printed, r.stringSliceToStr, r.fmtCstr, r.pathu32ToStr⟩

/-- The table of the procedures. -/
def lut (procs : FmtProcs) : List FmtTable :=
  [⟨ascii "i8", some (procs.int int8Conversion)⟩,
   ⟨ascii "i16", some (procs.int int16Conversion)⟩,
   ⟨ascii "i32", some (procs.int int32Conversion)⟩,
   ⟨ascii "i64", some (procs.int int64Conversion)⟩,
   ⟨ascii "u8", some (procs.int uint8Conversion)⟩,
   ⟨ascii "u16", some (procs.int uint16Conversion)⟩,
   ⟨ascii "u32", some (procs.int uint32Conversion)⟩,
   ⟨ascii "u64", some (procs.int uint64Conversion)⟩,
   ⟨ascii "f32", some procs.f32⟩,
   ⟨ascii "f64", some procs.f64⟩,
   ⟨ascii "stru32", some (procs.slice 32)⟩,
   ⟨ascii "stru64", some (procs.slice 64)⟩,
   ⟨ascii "cstr", some procs.cstr⟩,
   ⟨ascii "ptr", none⟩,
   ⟨ascii "ptrdiff", none⟩,
   ⟨ascii "size", none⟩,
   ⟨ascii "usize", none⟩,
   ⟨ascii "bool", none⟩,
   ⟨ascii "char", none⟩,
   ⟨ascii "void", none⟩,
   ⟨ascii "pathu32", some procs.path⟩,
   ⟨ascii "null", some nullToStr⟩]

theorem source_lut (printed : Nat → List UInt8) : (source printed).lut = fmtDefLut printed := rfl

end FmtProcs

/-! ### Refinement -/

section Related

variable {α β : Type*} {R : α → β → Prop} {b : Option β}

theorem rel_none (rel : Option.Rel R none b) : b = none := by
  cases rel
  rfl

theorem rel_some {a : α} (rel : Option.Rel R (some a) b) : ∃ b', b = some b' ∧ R a b' := by
  cases rel with
  | some same => exact ⟨_, rfl, same⟩

theorem rel_isSome {a : Option α} (rel : Option.Rel R a b) : a.isSome = b.isSome := by
  cases rel <;> rfl

end Related

/-- Where the first procedure is defined, the second one does the same. -/
def ProcRefines (p p' : FmtProcFmt) : Prop :=
  ∀ out n state result, p out n state = some result → p' out n state = some result

/-- The entries have one name, and procedures of which the second refines the first, or none. -/
def EntryRefines (entry entry' : FmtTable) : Prop :=
  entry.s = entry'.s ∧ Option.Rel ProcRefines entry.p entry'.p

section Procs

variable {r : UndefinedReads} {c : IntConversion} {printed : Nat → List UInt8}

theorem digitsLutAt_resolved {i : Int} {byte : UInt8} (found : digitsLutAt i = some byte) :
    r.digitsLutAt i = byte := by
  simp [UndefinedReads.digitsLutAt, found]

theorem digitsLoop_resolved : ∀ (fuel : Nat) {v : Int} {next : Nat} {wr : Mem}
    {result : Int × Nat × Mem}, digitsLoop c fuel v next wr = some result →
      r.digitsLoop c fuel v next wr = some result
  | fuel + 1, v, next, wr, result, ran => by
    rw [digitsLoop] at ran
    rw [UndefinedReads.digitsLoop]
    generalize sizeSub next 1 = before at ran ⊢
    generalize sizeSub next 2 = next' at ran ⊢
    split at ran
    next large =>
      rw [if_pos large]
      simp only [Option.bind_eq_bind, Option.bind_eq_some_iff] at ran ⊢
      obtain ⟨ones, foundOnes, first, wroteOnes, tens, foundTens, second, wroteTens, ran⟩ := ran
      rw [digitsLutAt_resolved foundOnes, digitsLutAt_resolved foundTens]
      exact ⟨first, wroteOnes, second, wroteTens, digitsLoop_resolved fuel ran⟩
    next small => rwa [if_neg small]

theorem digitsTail_resolved {v : Int} {next : Nat} {wr : Mem} {result : Nat × Mem}
    (ran : digitsTail c v next wr = some result) : r.digitsTail c v next wr = some result := by
  unfold digitsTail at ran
  unfold UndefinedReads.digitsTail
  generalize sizeSub next 1 = before at ran ⊢
  split at ran
  next digit => rwa [if_pos digit]
  next two =>
    rw [if_neg two]
    simp only [Option.bind_eq_bind, Option.bind_eq_some_iff] at ran ⊢
    obtain ⟨ones, foundOnes, first, wroteOnes, tens, foundTens, second, wroteTens, same⟩ := ran
    rw [digitsLutAt_resolved foundOnes, digitsLutAt_resolved foundTens]
    exact ⟨first, wroteOnes, second, wroteTens, same⟩

/-- **A text that is defined** is the text under every choice. -/
theorem text_resolved {arg : Int} {bytes : List UInt8} (defined : c.text arg = some bytes) :
    r.text c arg = some bytes := by
  unfold IntConversion.text at defined
  simp only [Option.bind_eq_bind, Option.bind_eq_some_iff] at defined
  obtain ⟨v, negated, looped, loop, tailed, tail, signed, sign, same⟩ := defined
  have magnitude : r.magnitude c (c.issigned && decide (c.wrap arg < 0)) (c.wrap arg) = v := by
    simp [UndefinedReads.magnitude, negated]
  unfold UndefinedReads.text
  simp only [magnitude, Option.bind_eq_bind, digitsLoop_resolved _ loop, digitsTail_resolved tail, sign,
    Option.bind_some, same]

theorem toStr_resolved : ProcRefines c.toStr (r.toStr c) := by
  intro out n state result ran
  unfold UndefinedReads.toStr
  split
  next short => rwa [IntConversion.toStr_short short] at ran
  next enough =>
    cases read : vaArgInt c.argBits c.issigned state.args with
    | none =>
      rw [IntConversion.toStr, if_neg enough, read] at ran
      cases ran
    | some value =>
      rw [IntConversion.toStr_read (Nat.le_of_not_lt enough) read] at ran
      obtain ⟨bytes, defined, same⟩ := Option.map_eq_some_iff.mp ran
      simp only [UndefinedReads.vaArgInt, read, Option.getD_some]
      rw [text_resolved defined, Option.map_some, same]

theorem stringSliceToStr_resolved (bits : Nat) :
    ProcRefines (stringSliceToStr bits) (r.stringSliceToStr bits) := by
  intro out n state result ran
  obtain ⟨value, read, same⟩ := Option.map_eq_some_iff.mp ran
  simp only [UndefinedReads.stringSliceToStr, UndefinedReads.vaArgSlice, read, Option.getD_some]
  exact congrArg some same

theorem fmtCstr_resolved : ProcRefines fmtCstr r.fmtCstr := by
  intro out n state result ran
  unfold fmtCstr at ran
  simp only [Option.bind_eq_bind, Option.bind_eq_some_iff] at ran
  obtain ⟨value, read, len, measured, same⟩ := ran
  simp only [UndefinedReads.fmtCstr, UndefinedReads.vaArgPointer, UndefinedReads.strlen, read, measured,
    Option.getD_some, same]

theorem pathu32ToStr_resolved : ProcRefines pathu32ToStr r.pathu32ToStr := by
  intro out n state result ran
  unfold pathu32ToStr at ran
  simp only [Option.bind_eq_bind, Option.bind_eq_some_iff] at ran
  obtain ⟨value, read, ran⟩ := ran
  simp only [UndefinedReads.pathu32ToStr, UndefinedReads.vaArgSlice, read, Option.getD_some]
  exact ran

theorem f32ToStr_resolved : ProcRefines f32ToStr (r.f32ToStr printed) := by
  intro out n state result ran
  cases ran

theorem f64ToStr_resolved : ProcRefines (f64ToStr printed) (r.f64ToStr printed) := by
  intro out n state result ran
  unfold f64ToStr at ran
  split at ran
  next bits args read =>
    simp only [UndefinedReads.f64ToStr, UndefinedReads.vaArgDouble, vaArgDouble, read, Option.getD_some]
    exact ran
  next => cases ran

variable (r printed) in
/-- **The resolved table refines that of the source.** -/
theorem fmtDefLut_resolved :
    List.Forall₂ EntryRefines (fmtDefLut printed) (FmtProcs.resolved r printed).lut := by
  have refl : ProcRefines nullToStr nullToStr := fun _ _ _ _ ran => ran
  rw [← FmtProcs.source_lut]
  simp only [FmtProcs.lut, FmtProcs.source, FmtProcs.resolved, List.forall₂_cons, EntryRefines,
    List.Forall₂.nil, Option.rel_some_some, Option.rel_none_none, and_true, toStr_resolved,
    f32ToStr_resolved, f64ToStr_resolved, stringSliceToStr_resolved, fmtCstr_resolved,
    pathu32ToStr_resolved, refl]

end Procs

section Formatter

variable {lut lut' : List FmtTable} {out n : Nat}

/-- A name is found in both tables or in none. -/
theorem find_refines (name : List UInt8) : ∀ {lut lut' : List FmtTable},
    List.Forall₂ EntryRefines lut lut' →
      Option.Rel EntryRefines (lut.find? fun entry => entry.s == name)
        (lut'.find? fun entry => entry.s == name)
  | _, _, .nil => .none
  | entry :: lut, entry' :: lut', .cons head tail => by
    rw [List.find?_cons, List.find?_cons, ← head.1]
    cases entry.s == name with
    | true => exact .some head
    | false => exact find_refines name tail

/-- **A defined run of the formatter** is the run with the table that refines its own. -/
theorem vsnfmtLoop_refines (refines : List.Forall₂ EntryRefines lut lut') :
    ∀ (fuel : Nat) {cf : List UInt8} {nwrite : Nat} {state : FmtState} {result : FmtState × Nat},
      vsnfmtLoop lut out n fuel cf nwrite state = some result →
        vsnfmtLoop lut' out n fuel cf nwrite state = some result
  | 0, [], _, _, _, ran => ran
  | _ + 1, [], _, _, _, ran => ran
  | fuel + 1, c :: rest, nwrite, state, result, ran => by
    rw [vsnfmtLoop] at ran ⊢
    split at ran
    next specifier =>
      rw [if_pos specifier]
      split at ran
      next unfinished => simpa only [unfinished] using ran
      next behind closed =>
        have found := find_refines (rest.tail.takeWhile (· != charByte '\x7d')) refines
        split at ran
        next missing =>
          rw [missing] at found
          rw [rel_none found]
          exact ran
        next entry here =>
          rw [here] at found
          simp only [Option.bind_eq_bind, Option.bind_eq_some_iff] at ran
          obtain ⟨p, proc, used, called, ran⟩ := ran
          obtain ⟨entry', here', -, procs⟩ := rel_some found
          rw [proc] at procs
          obtain ⟨p', proc', refined⟩ := rel_some procs
          simp only [here', proc', refined _ _ _ _ called, Option.bind_eq_bind, Option.bind_some]
          exact vsnfmtLoop_refines refines fuel ran
    next plain =>
      rw [if_neg plain]
      exact vsnfmtLoop_refines refines fuel ran

/-- **A defined run is the run under every choice** of what undefined steps yield. -/
theorem vsnfmt_resolved (r : UndefinedReads) {printed : Nat → List UInt8} {fmt : List UInt8}
    {state : FmtState} {result : FmtState × Nat}
    (ran : vsnfmt (fmtDefLut printed) out n fmt state = some result) :
    vsnfmt (FmtProcs.resolved r printed).lut out n fmt state = some result :=
  vsnfmtLoop_refines (fmtDefLut_resolved r printed) fmt.length ran

end Formatter

end Vaudou
