/-
**The character level of the C lexer of `vd_c.h`, and its positions.**

`vd_c__get` reads a character and counts lines and columns; `vd_c__unget` is to take it back. It takes
back the index in any case, but

* after a newline its loop looks for the start of the line without ever moving the index: it does not
  end unless the line is empty (`ungetLoop_stuck`),
* after any other character it leaves the column as it is (`unget_get_other`).

A `char` is signed, so that a byte of 255 reads like the end of the text. Lines and columns wrap as
two's complement integers of 32 bits. The stash of tokens is left out.
-/

import Vaudou.Foundation.Decimal

namespace Vaudou

open Vaudou.Text

/-- The `lex` of a `VD__CParserInstance`, without the stash; `len` is the length of the text. -/
structure CLexer where
  str : List UInt8
  i : Nat
  line : Int32
  column : Int32
deriving DecidableEq, Repr

/-- The lexer at the start of a text. -/
def CLexer.start (str : List UInt8) : CLexer := ⟨str, 0, 1, 1⟩

/-- A `char`, as an `int`. -/
def charInt (c : UInt8) : Int := c.toInt8.toInt

/-- `'\n'`. -/
def lineFeed : UInt8 := 10

/-- `vd_c__getchar`. -/
def cGetchar (inst : CLexer) : Int × CLexer :=
  match inst.str[inst.i]? with
  | none => (-1, inst)
  | some c => (charInt c, { inst with i := inst.i + 1 })

/-- `vd_c__peekchar`. -/
def cPeekchar (inst : CLexer) : Int :=
  match inst.str[inst.i]? with
  | none => -1
  | some c => charInt c

/-- `vd_c__retchar`; `none` is the assertion. -/
def cRetchar (inst : CLexer) : Option (Int × CLexer) :=
  if inst.i ≠ 0 then
    let inst := { inst with i := inst.i - 1 }
    some (cPeekchar inst, inst)
  else none

/-- `vd_c__get`. -/
def cGet (inst : CLexer) : Int × CLexer :=
  let (c, inst) := cGetchar inst
  if c = charInt lineFeed then (c, { inst with line := inst.line + 1, column := 1 })
  else if c ≠ -1 then (c, { inst with column := inst.column + 1 })
  else (c, inst)

/-- The loop of `vd_c__unget`; `none` is a loop that has not ended. -/
def ungetLoop (str : List UInt8) (i : Int) : (fuel : Nat) → (col : Int32) → Option Int32
  | 0, _ => none
  | fuel + 1, col =>
    if 0 ≤ i ∧ str[i.toNat]? ≠ some lineFeed then ungetLoop str i fuel (col + 1) else some col

/-- `vd_c__unget`. -/
def cUnget (fuel : Nat) (inst : CLexer) : Option CLexer :=
  (cRetchar inst).bind fun (c, inst) =>
    if c = charInt lineFeed then
      (ungetLoop inst.str (inst.i - 1) fuel 1).map fun col =>
        { inst with line := inst.line - 1, column := col }
    else some inst

/-- The lexer after so many calls of `vd_c__get`. -/
def cGets : (calls : Nat) → CLexer → CLexer
  | 0, inst => inst
  | calls + 1, inst => cGets calls (cGet inst).2

/-- `vd_c__unget` after `vd_c__get` returns, and the lexer is as it was. -/
def Restores (inst : CLexer) : Prop := ∃ fuel, cUnget fuel (cGet inst).2 = some inst

/-- The next character is a newline, and there is nothing else on its line. -/
def OnEmptyLine (inst : CLexer) : Prop :=
  inst.str[inst.i]? = some lineFeed ∧ (inst.i = 0 ∨ inst.str[inst.i - 1]? = some lineFeed)

instance (inst : CLexer) : Decidable (OnEmptyLine inst) := inferInstanceAs (Decidable (_ ∧ _))

/-! ### Single characters -/

variable {str : List UInt8} {inst : CLexer} {c : UInt8}

theorem charInt_eq_lineFeed : charInt c = charInt lineFeed ↔ c = lineFeed :=
  Int8.toInt_inj.trans
    ⟨fun same => by simpa using congrArg Int8.toUInt8 same, fun same => congrArg UInt8.toInt8 same⟩

theorem lineFeed_ne_end : (-1 : Int) ≠ charInt lineFeed := by decide

/-- What a character does to the lexer. -/
theorem cGet_some (here : inst.str[inst.i]? = some c) :
    cGet inst =
      if c = lineFeed then (charInt c, ⟨inst.str, inst.i + 1, inst.line + 1, 1⟩)
      else if charInt c ≠ -1 then (charInt c, ⟨inst.str, inst.i + 1, inst.line, inst.column + 1⟩)
      else (charInt c, ⟨inst.str, inst.i + 1, inst.line, inst.column⟩) := by
  unfold cGet cGetchar
  simp only [here, charInt_eq_lineFeed]

theorem cGet_none (ended : inst.str[inst.i]? = none) : cGet inst = (-1, inst) := by
  unfold cGet cGetchar
  simp only [ended]
  rw [if_neg lineFeed_ne_end, if_neg (not_not_intro rfl)]

/-- The character is read again. -/
theorem cRetchar_succ {i : Nat} {line column : Int32} (here : str[i]? = some c) :
    cRetchar ⟨str, i + 1, line, column⟩ = some (charInt c, ⟨str, i, line, column⟩) := by
  unfold cRetchar cPeekchar
  simp only [ne_eq, Nat.succ_ne_zero, not_false_eq_true, if_true, Nat.add_sub_cancel, here]

/-- **The loop does not end** where it does not end at once. -/
theorem ungetLoop_stuck {i : Int} (inside : 0 ≤ i) (other : str[i.toNat]? ≠ some lineFeed) :
    ∀ (fuel : Nat) (col : Int32), ungetLoop str i fuel col = none
  | 0, _ => rfl
  | fuel + 1, col => by
    rw [ungetLoop, if_pos ⟨inside, other⟩]
    exact ungetLoop_stuck inside other fuel (col + 1)

/-- The loop, from the newline at `i` back: it ends exactly if the line is empty. -/
theorem ungetLoop_iff {i : Nat} {col : Int32} :
    (∃ fuel, ungetLoop str ((i : Int) - 1) fuel 1 = some col) ↔
      (i = 0 ∨ str[i - 1]? = some lineFeed) ∧ col = 1 := by
  by_cases empty : i = 0 ∨ str[i - 1]? = some lineFeed
  · have stops : ¬ (0 ≤ (i : Int) - 1 ∧ str[((i : Int) - 1).toNat]? ≠ some lineFeed) := by
      rintro ⟨inside, other⟩
      rcases empty with first | before
      · omega
      · exact other (by rwa [show ((i : Int) - 1).toNat = i - 1 by omega])
    constructor
    · rintro ⟨fuel, ended⟩
      cases fuel with
      | zero => cases ended
      | succ fuel =>
        rw [ungetLoop, if_neg stops] at ended
        exact ⟨empty, (Option.some.inj ended).symm⟩
    · rintro ⟨-, rfl⟩
      exact ⟨1, if_neg stops⟩
  · refine iff_of_false ?_ (fun both => empty both.1)
    rintro ⟨fuel, ended⟩
    have later : i ≠ 0 := fun first => empty (Or.inl first)
    have other : str[((i : Int) - 1).toNat]? ≠ some lineFeed := by
      rw [show ((i : Int) - 1).toNat = i - 1 by omega]
      exact fun before => empty (Or.inr before)
    rw [ungetLoop_stuck (by omega) other] at ended
    cases ended

/-! ### Back and forth -/

/-- **A newline** comes back exactly if its line is empty and the column is that of a line's start. -/
theorem unget_get_newline (here : inst.str[inst.i]? = some lineFeed) :
    Restores inst ↔ (inst.i = 0 ∨ inst.str[inst.i - 1]? = some lineFeed) ∧ inst.column = 1 := by
  obtain ⟨str, i, line, column⟩ := inst
  have here : str[i]? = some lineFeed := here
  have again : line + 1 - 1 = line := by grind
  have ungot : ∀ fuel, cUnget fuel (cGet ⟨str, i, line, column⟩).2 =
      (ungetLoop str ((i : Int) - 1) fuel 1).map fun col => ⟨str, i, line, col⟩ := fun fuel => by
    rw [cGet_some here, if_pos rfl, cUnget, cRetchar_succ here, Option.bind_some]
    dsimp only
    rw [if_pos rfl, again]
  have same : ∀ fuel, cUnget fuel (cGet ⟨str, i, line, column⟩).2 = some ⟨str, i, line, column⟩ ↔
      ungetLoop str ((i : Int) - 1) fuel 1 = some column := fun fuel => by
    rw [ungot, Option.map_eq_some_iff]
    constructor
    · rintro ⟨col, ended, rest⟩
      cases rest
      exact ended
    · exact fun ended => ⟨column, ended, rfl⟩
  exact (exists_congr same).trans ungetLoop_iff

/-- **Any other character** leaves the column behind. -/
theorem unget_get_other (here : inst.str[inst.i]? = some c) (other : c ≠ lineFeed)
    (got : charInt c ≠ -1) : ¬ Restores inst := by
  rintro ⟨fuel, restored⟩
  obtain ⟨str, i, line, column⟩ := inst
  have here : str[i]? = some c := here
  have moved : column + 1 ≠ column := by grind
  rw [cGet_some here, if_neg other, if_pos got, cUnget, cRetchar_succ here, Option.bind_some] at restored
  dsimp only at restored
  rw [if_neg (fun same => other (charInt_eq_lineFeed.mp same))] at restored
  exact moved (congrArg CLexer.column (Option.some.inj restored))

/-! ### Positions that are reached -/

/-- The text is the same, and the column at the start of a line is 1. -/
structure CLexer.AtLine (str : List UInt8) (inst : CLexer) : Prop where
  text : inst.str = str
  column : inst.i = 0 ∨ str[inst.i - 1]? = some lineFeed → inst.column = 1

/-- A line starts at the start of the text, or behind a newline. -/
theorem CLexer.AtLine.get (atLine : inst.AtLine str) : (cGet inst).2.AtLine str := by
  obtain ⟨rfl, first⟩ := atLine
  cases here : inst.str[inst.i]? with
  | none =>
    rw [cGet_none here]
    exact ⟨rfl, first⟩
  | some c =>
    rw [cGet_some here]
    by_cases ends : c = lineFeed
    · rw [if_pos ends]
      exact ⟨rfl, fun _ => rfl⟩
    · have inLine : ¬ (inst.i + 1 = 0 ∨ inst.str[inst.i + 1 - 1]? = some lineFeed) := by
        rintro (zero | before)
        · exact Nat.succ_ne_zero _ zero
        · rw [Nat.add_sub_cancel, here] at before
          exact ends (Option.some.inj before)
      rw [if_neg ends]
      split
      · exact ⟨rfl, fun starts => absurd starts inLine⟩
      · exact ⟨rfl, fun starts => absurd starts inLine⟩

theorem CLexer.AtLine.gets : ∀ (calls : Nat) {inst : CLexer}, inst.AtLine str → (cGets calls inst).AtLine str
  | 0, _, atLine => atLine
  | calls + 1, _, atLine => gets calls atLine.get

theorem CLexer.AtLine.start (str : List UInt8) : (CLexer.start str).AtLine str := ⟨rfl, fun _ => rfl⟩

/-- **`vd_c__unget` takes back a character exactly if it is the newline of an empty line**, at every
position that the lexer gets to. -/
theorem unget_restores_iff (str : List UInt8) (calls : Nat)
    (got : (cGet (cGets calls (.start str))).1 ≠ -1) :
    Restores (cGets calls (.start str)) ↔ OnEmptyLine (cGets calls (.start str)) := by
  obtain ⟨text, column⟩ := CLexer.AtLine.gets calls (CLexer.AtLine.start str)
  generalize cGets calls (.start str) = inst at got text column ⊢
  subst text
  cases here : inst.str[inst.i]? with
  | none =>
    rw [cGet_none here] at got
    exact absurd rfl got
  | some c =>
    by_cases ends : c = lineFeed
    · subst ends
      rw [unget_get_newline here, OnEmptyLine]
      exact ⟨fun both => ⟨here, both.1⟩, fun both => ⟨both.2, column both.2⟩⟩
    · have got : charInt c ≠ -1 := by
        intro final
        rw [cGet_some here, if_neg ends] at got
        split at got <;> exact got final
      refine iff_of_false (unget_get_other here ends got) ?_
      rintro ⟨feed, -⟩
      rw [here] at feed
      exact ends (Option.some.inj feed)

/-- The second newline of a text that starts with two. -/
theorem unget_restores_iff_second :
    Restores (cGets 1 (.start (ascii "\n\nint"))) ↔ OnEmptyLine (cGets 1 (.start (ascii "\n\nint"))) :=
  unget_restores_iff (ascii "\n\nint") 1 (by decide +kernel)

/-- A newline behind a character, and a character. -/
theorem unget_not_restored :
    ¬ ∀ (str : List UInt8) (calls : Nat), (cGet (cGets calls (.start str))).1 ≠ -1 →
      Restores (cGets calls (.start str)) := by
  intro restored
  have here : (cGets 1 (.start (ascii "a\n"))).str[(cGets 1 (.start (ascii "a\n"))).i]? = some lineFeed := by
    decide +kernel
  obtain ⟨empty, -⟩ := (unget_get_newline here).mp (restored (ascii "a\n") 1 (by decide +kernel))
  revert empty
  decide +kernel

end Vaudou
