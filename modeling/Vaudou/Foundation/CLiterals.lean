/-
**String literals of C, from the bytes of a source file on.**

`denotes` reads a source as a sequence of adjacent string literals, by the phases of translation: ends of
lines and trigraphs, lines that are continued, tokens, escapes, and the concatenation of adjacent literals.
What it yields is the text of the C string, up to its terminator, and the rest of the source.

Only the simple escapes are read (`'\n'`, `'\\'` and their like); `none` is a source that is not
well-formed, and one with an octal, hexadecimal or universal escape.

* `physicalLines_eq`, `replaceTrigraphs_eq`, `spliceLines_eq` — the sources that the first phases leave.
* `readStrings_inside`, `readStrings_outside` — what the last ones do with a byte.
-/

import Mathlib.Tactic.Common

namespace Vaudou.CLiteral

/-! ### Bytes -/

/-- `"`. -/
def quote : UInt8 := 34

/-- `\`. -/
def backslash : UInt8 := 92

/-- A line feed. -/
def newline : UInt8 := 10

/-- A carriage return. -/
def carriageReturn : UInt8 := 13

/-- White space: space, tabs, line feed and form feed. -/
def isWhite (c : UInt8) : Bool := c == 32 || c == 9 || c == 10 || c == 11 || c == 12

/-! ### Characters and lines -/

/-- A carriage return in front of a line feed belongs to the end of the line. -/
def physicalLines : List UInt8 → List UInt8
  | [] => []
  | c :: rest =>
    if c = carriageReturn ∧ rest.head? = some newline then physicalLines rest
    else c :: physicalLines rest

/-- What a trigraph stands for that ends with the byte. -/
def trigraph (c : UInt8) : Option UInt8 :=
  if c = 61 then some 35 else if c = 47 then some 92 else if c = 39 then some 94
  else if c = 40 then some 91 else if c = 41 then some 93 else if c = 33 then some 124
  else if c = 60 then some 123 else if c = 62 then some 125 else if c = 45 then some 126
  else none

/-- The trigraph that a source starts with. -/
def leadingTrigraph : List UInt8 → Option UInt8
  | a :: b :: c :: _ => if a = 63 ∧ b = 63 then trigraph c else none
  | _ => none

/-- Trigraphs are replaced; `skip` bytes belong to one. -/
def replaceTrigraphs : (skip : Nat) → List UInt8 → List UInt8
  | _, [] => []
  | skip + 1, _ :: rest => replaceTrigraphs skip rest
  | 0, c :: rest =>
    match leadingTrigraph (c :: rest) with
    | some replaced => replaced :: replaceTrigraphs 2 rest
    | none => c :: replaceTrigraphs 0 rest

/-- There is a trigraph. -/
def hasTrigraph : List UInt8 → Bool
  | [] => false
  | c :: rest => (leadingTrigraph (c :: rest)).isSome || hasTrigraph rest

/-- A line that ends with a backslash is continued. -/
def spliceLines : List UInt8 → List UInt8
  | [] => []
  | [c] => [c]
  | c :: d :: rest =>
    if c = backslash ∧ d = newline then spliceLines rest else c :: spliceLines (d :: rest)

/-- There is a line that is continued. -/
def hasSplice : List UInt8 → Bool
  | [] => false
  | [_] => false
  | c :: d :: rest => (c == backslash && d == newline) || hasSplice (d :: rest)

/-! ### Literals -/

/-- What a simple escape stands for. -/
def simpleEscape (c : UInt8) : Option UInt8 :=
  if c = 39 ∨ c = 34 ∨ c = 63 ∨ c = 92 then some c
  else if c = 97 then some 7 else if c = 98 then some 8 else if c = 102 then some 12
  else if c = 110 then some 10 else if c = 114 then some 13 else if c = 116 then some 9
  else if c = 118 then some 11 else none

/-- A byte in front of what is read. -/
def push (c : UInt8) (read : List UInt8 × List UInt8) : List UInt8 × List UInt8 := (c :: read.1, read.2)

/-- The text of the string literals that follow each other, inside or outside of one, and what comes
behind them. -/
def readStrings : (inside : Bool) → List UInt8 → Option (List UInt8 × List UInt8)
  | true, [] => none
  | true, [c] => if c = quote then some ([], []) else none
  | true, c :: d :: rest =>
    if c = quote then readStrings false (d :: rest)
    else if c = newline then none
    else if c = backslash then (simpleEscape d).bind fun value => (readStrings true rest).map (push value)
    else (readStrings true (d :: rest)).map (push c)
  | false, [] => some ([], [])
  | false, c :: rest =>
    if isWhite c then readStrings false rest
    else if c = quote then readStrings true rest
    else some ([], c :: rest)

/-- The same for a source that starts with a literal. -/
def readLiterals (source : List UInt8) : Option (List UInt8 × List UInt8) :=
  match source.dropWhile isWhite with
  | [] => none
  | c :: rest => if c = quote then readStrings true rest else none

/-- **The C string that a source denotes**, and the rest of the source. -/
def denotes (source : List UInt8) : Option (List UInt8 × List UInt8) :=
  (readLiterals (spliceLines (replaceTrigraphs 0 (physicalLines source)))).map fun read =>
    ((read.1 ++ [0]).takeWhile (· ≠ 0), read.2)

/-! ### The first phases -/

variable {c d : UInt8} {rest source : List UInt8}

/-- Without carriage returns the lines are what they are. -/
theorem physicalLines_eq : ∀ {source : List UInt8}, carriageReturn ∉ source → physicalLines source = source
  | [], _ => rfl
  | c :: rest, without => by
    rw [List.mem_cons, not_or] at without
    rw [physicalLines, if_neg (fun both => without.1 both.1.symm), physicalLines_eq without.2]

/-- Without trigraphs there is nothing to replace. -/
theorem replaceTrigraphs_eq : ∀ {source : List UInt8}, hasTrigraph source = false →
    replaceTrigraphs 0 source = source
  | [], _ => rfl
  | c :: rest, without => by
    rw [hasTrigraph, Bool.or_eq_false_iff, Option.isSome_eq_false_iff, Option.isNone_iff_eq_none] at without
    rw [replaceTrigraphs, without.1]
    exact congrArg (c :: ·) (replaceTrigraphs_eq without.2)

/-- Without backslashes at the ends of lines none is continued. -/
theorem spliceLines_eq : ∀ {source : List UInt8}, hasSplice source = false → spliceLines source = source
  | [], _ => rfl
  | [_], _ => rfl
  | c :: d :: rest, without => by
    rw [hasSplice, Bool.or_eq_false_iff] at without
    have apart : ¬ (c = backslash ∧ d = newline) := by
      rintro ⟨rfl, rfl⟩
      exact absurd without.1 (by decide)
    rw [spliceLines, if_neg apart, spliceLines_eq without.2]

theorem hasTrigraph_other (other : c ≠ 63) : hasTrigraph (c :: rest) = hasTrigraph rest := by
  have lead : leadingTrigraph (c :: rest) = none := by
    match rest with
    | [] => rfl
    | [_] => rfl
    | a :: b :: rest => exact if_neg (fun both => other both.1)
  rw [hasTrigraph, lead]
  rfl

/-- A trigraph starts with two question marks. -/
theorem leadingTrigraph_second {a : UInt8} (other : c ≠ 63) : leadingTrigraph (a :: c :: rest) = none := by
  cases rest with
  | nil => rfl
  | cons d rest => exact if_neg (fun both => other both.2)

/-- Three bytes make a trigraph. -/
theorem leadingTrigraph_third {a b : UInt8} (rest rest' : List UInt8)
    (without : leadingTrigraph (a :: b :: c :: rest) = none) :
    leadingTrigraph (a :: b :: c :: rest') = none := without

theorem hasSplice_other (other : c ≠ backslash) : hasSplice (c :: rest) = hasSplice rest := by
  cases rest with
  | nil => rfl
  | cons d rest => rw [hasSplice, beq_false_of_ne other, Bool.false_and, Bool.false_or]

theorem hasSplice_next (next : rest.head? ≠ some newline) : hasSplice (c :: rest) = hasSplice rest := by
  cases rest with
  | nil => rfl
  | cons d rest =>
    have other : d ≠ newline := fun same => next (congrArg some same)
    rw [hasSplice, beq_false_of_ne other, Bool.and_false, Bool.false_or]

/-! ### The last phases -/

/-- A plain byte of a literal. -/
theorem readStrings_plain (noQuote : c ≠ quote) (noNewline : c ≠ newline) (noBackslash : c ≠ backslash)
    (more : rest ≠ []) : readStrings true (c :: rest) = (readStrings true rest).map (push c) := by
  obtain ⟨d, rest, rfl⟩ := List.exists_cons_of_ne_nil more
  rw [readStrings, if_neg noQuote, if_neg noNewline, if_neg noBackslash]

/-- An escape. -/
theorem readStrings_escape : readStrings true (backslash :: d :: rest) =
    (simpleEscape d).bind fun value => (readStrings true rest).map (push value) := by
  rw [readStrings, if_neg (by decide), if_neg (by decide), if_pos rfl]

/-- The end of a literal. -/
theorem readStrings_close : readStrings true (quote :: rest) = readStrings false rest := by
  cases rest with
  | nil => rfl
  | cons d rest => rw [readStrings, if_pos rfl]

/-- The start of the next literal. -/
theorem readStrings_open : readStrings false (quote :: rest) = readStrings true rest := by
  rw [readStrings, if_neg (by decide), if_pos rfl]

theorem readStrings_white (white : isWhite c = true) :
    readStrings false (c :: rest) = readStrings false rest := by
  rw [readStrings, if_pos white]

/-- **A C string** ends at its terminator. -/
theorem takeWhile_terminated {text : List UInt8} (nonzero : 0 ∉ text) :
    (text ++ [0]).takeWhile (· ≠ 0) = text := by
  rw [List.takeWhile_append_of_pos]
  · simp
  · intro c member
    exact decide_eq_true fun zero => nonzero (zero ▸ member)

end Vaudou.CLiteral
