/-
**The script `cv_text_to_literal.lua`.**

The script turns a text file into a file that is included where C expects a string literal: it escapes
backslashes, then quotes, and then ends a literal and starts another one at every newline.

* `textToLiteral_eq` — the three substitutions, one after the other, are one escape for each byte.
* `readStrings_escaped` — reading the literals undoes it.
* `denotes_textToLiteral` — the file denotes the text.

Files are lists of bytes; a file that is opened as text is read and written as it is.
-/

import Vaudou.Foundation.CLiterals
import Vaudou.Foundation.Decimal

namespace Vaudou

open Vaudou.CLiteral Vaudou.Text

/-- `content:gsub(pattern, replacement)` with a pattern of one byte that stands for itself, and nothing
special in the replacement. -/
def gsub (content : List UInt8) (pattern : UInt8) (replacement : List UInt8) : List UInt8 :=
  content.flatMap fun c => if c = pattern then replacement else [c]

/-- What `cv_text_to_literal.lua` writes for a content. -/
def textToLiteral (content : List UInt8) : List UInt8 :=
  let content := gsub content backslash (ascii "\\\\")
  let content := gsub content quote (ascii "\\\"")
  let content := gsub content newline (ascii "\\n\"\n\"")
  ascii "\"" ++ content ++ ascii "\";\n"

/-- A text without NUL bytes, carriage returns and trigraphs. -/
structure PlainText (text : List UInt8) : Prop where
  nul : 0 ∉ text
  carriageReturn : carriageReturn ∉ text
  trigraph : hasTrigraph text = false

instance (text : List UInt8) : Decidable (PlainText text) :=
  decidable_of_iff (0 ∉ text ∧ CLiteral.carriageReturn ∉ text ∧ hasTrigraph text = false)
    ⟨fun all => ⟨all.1, all.2.1, all.2.2⟩, fun plain => ⟨plain.nul, plain.carriageReturn, plain.trigraph⟩⟩

/-! ### One escape for each byte -/

/-- What a byte of the text becomes. -/
def escape (c : UInt8) : List UInt8 :=
  if c = backslash then [backslash, backslash]
  else if c = quote then [backslash, quote]
  else if c = newline then [backslash, 110, quote, newline, quote]
  else [c]

variable {c : UInt8} {text rest : List UInt8}

theorem escape_plain (noBackslash : c ≠ backslash) (noQuote : c ≠ quote) (noNewline : c ≠ newline) :
    escape c = [c] := by
  rw [escape, if_neg noBackslash, if_neg noQuote, if_neg noNewline]

/-- A byte is one of the three that are escaped, or it is left as it is. -/
theorem escape_cases (c : UInt8) : c = backslash ∨ c = quote ∨ c = newline ∨
    (c ≠ backslash ∧ c ≠ quote ∧ c ≠ newline ∧ escape c = [c]) := by
  by_cases isBackslash : c = backslash
  · exact Or.inl isBackslash
  · by_cases isQuote : c = quote
    · exact Or.inr (Or.inl isQuote)
    · by_cases isNewline : c = newline
      · exact Or.inr (Or.inr (Or.inl isNewline))
      · exact Or.inr (Or.inr (Or.inr
          ⟨isBackslash, isQuote, isNewline, escape_plain isBackslash isQuote isNewline⟩))

/-- **The three substitutions**: none of them touches what an earlier one has put in, except for what
it leaves as it was. -/
theorem gsubs_eq (content : List UInt8) :
    gsub (gsub (gsub content backslash (ascii "\\\\")) quote (ascii "\\\"")) newline (ascii "\\n\"\n\"") =
      content.flatMap escape := by
  rw [gsub, gsub, gsub, List.flatMap_assoc, List.flatMap_assoc]
  refine congrArg content.flatMap ?_
  funext c
  rcases escape_cases c with rfl | rfl | rfl | ⟨noBackslash, noQuote, noNewline, plain⟩
  · decide
  · decide
  · decide
  · rw [plain, if_neg noBackslash, List.flatMap_singleton, if_neg noQuote, List.flatMap_singleton,
      if_neg noNewline]

theorem textToLiteral_eq (content : List UInt8) :
    textToLiteral content = quote :: (content.flatMap escape ++ [quote, 59, newline]) := by
  rw [textToLiteral, gsubs_eq]
  rfl

/-! ### Reading -/

/-- **Reading the literals undoes the escapes.** -/
theorem readStrings_escaped (rest : List UInt8) : ∀ text : List UInt8,
    readStrings true (text.flatMap escape ++ quote :: rest) =
      (readStrings false rest).map fun read => (text ++ read.1, read.2)
  | [] => by
    rw [List.flatMap_nil, List.nil_append, readStrings_close]
    exact Option.map_id'.symm
  | c :: text => by
    have later := readStrings_escaped rest text
    have more : text.flatMap escape ++ quote :: rest ≠ [] :=
      List.append_ne_nil_of_right_ne_nil _ (List.cons_ne_nil _ _)
    have pushed : ((readStrings false rest).map fun read => (text ++ read.1, read.2)).map (push c) =
        (readStrings false rest).map fun read => (c :: text ++ read.1, read.2) := by
      rw [Option.map_map]
      rfl
    rw [List.flatMap_cons, List.append_assoc]
    rcases escape_cases c with rfl | rfl | rfl | ⟨noBackslash, noQuote, noNewline, plain⟩
    · show readStrings true (backslash :: backslash :: (text.flatMap escape ++ quote :: rest)) = _
      rw [readStrings_escape, later]
      exact pushed
    · show readStrings true (backslash :: quote :: (text.flatMap escape ++ quote :: rest)) = _
      rw [readStrings_escape, later]
      exact pushed
    · show readStrings true
        (backslash :: 110 :: quote :: newline :: quote :: (text.flatMap escape ++ quote :: rest)) = _
      rw [readStrings_escape, readStrings_close, readStrings_white rfl, readStrings_open, later]
      exact pushed
    · rw [plain]
      show readStrings true (c :: (text.flatMap escape ++ quote :: rest)) = _
      rw [readStrings_plain noQuote noNewline noBackslash more, later]
      exact pushed

/-! ### Lines and trigraphs -/

/-- What is written for a text does not start with a newline. -/
theorem escaped_head_ne (text rest : List UInt8) :
    (text.flatMap escape ++ quote :: rest).head? ≠ some newline := by
  cases text with
  | nil =>
    show some quote ≠ some newline
    decide
  | cons c text =>
    rw [List.flatMap_cons]
    rcases escape_cases c with rfl | rfl | rfl | ⟨-, -, noNewline, plain⟩
    · show some backslash ≠ some newline
      decide
    · show some backslash ≠ some newline
      decide
    · show some backslash ≠ some newline
      decide
    · rw [plain]
      exact fun same => noNewline (Option.some.inj same)

theorem escaped_carriageReturn (without : carriageReturn ∉ text) :
    carriageReturn ∉ text.flatMap escape := by
  intro member
  obtain ⟨c, inText, inEscape⟩ := List.mem_flatMap.mp member
  rcases escape_cases c with rfl | rfl | rfl | ⟨-, -, -, plain⟩
  · exact absurd inEscape (by decide)
  · exact absurd inEscape (by decide)
  · exact absurd inEscape (by decide)
  · rw [plain, List.mem_singleton] at inEscape
    exact without (inEscape ▸ inText)

/-- **No line is continued**: no backslash is written in front of the end of a line. -/
theorem escaped_hasSplice : ∀ text : List UInt8,
    hasSplice (text.flatMap escape ++ [quote, 59, newline]) = false
  | [] => by decide
  | c :: text => by
    have later := escaped_hasSplice text
    have head := escaped_head_ne text [59, newline]
    rw [List.flatMap_cons, List.append_assoc]
    rcases escape_cases c with rfl | rfl | rfl | ⟨noBackslash, -, -, plain⟩
    · show hasSplice (backslash :: backslash :: (text.flatMap escape ++ [quote, 59, newline])) = false
      rw [hasSplice_next (by simp [backslash, newline]), hasSplice_next head, later]
    · show hasSplice (backslash :: quote :: (text.flatMap escape ++ [quote, 59, newline])) = false
      rw [hasSplice_next (by simp [quote, newline]), hasSplice_other (by decide), later]
    · show hasSplice (backslash :: 110 :: quote :: newline :: quote ::
        (text.flatMap escape ++ [quote, 59, newline])) = false
      rw [hasSplice_next (by simp [newline]), hasSplice_other (by decide), hasSplice_other (by decide),
        hasSplice_other (by decide), hasSplice_other (by decide), later]
    · rw [plain]
      show hasSplice (c :: (text.flatMap escape ++ [quote, 59, newline])) = false
      rw [hasSplice_other noBackslash, later]

/-- A trigraph that is written behind a question mark is one of the text. -/
theorem escaped_leadingTrigraph (text rest : List UInt8)
    (without : leadingTrigraph (63 :: text) = none) :
    leadingTrigraph (63 :: (text.flatMap escape ++ quote :: rest)) = none := by
  cases text with
  | nil => exact leadingTrigraph_second (by decide)
  | cons c text =>
    rw [List.flatMap_cons, List.append_assoc]
    rcases escape_cases c with rfl | rfl | rfl | ⟨-, -, -, plain⟩
    · exact leadingTrigraph_second (by decide)
    · exact leadingTrigraph_second (by decide)
    · exact leadingTrigraph_second (by decide)
    · rw [plain]
      by_cases mark : c = 63
      · subst mark
        cases text with
        | nil => exact leadingTrigraph_third [] _ (by decide)
        | cons d text =>
          rw [List.flatMap_cons, List.append_assoc]
          rcases escape_cases d with rfl | rfl | rfl | ⟨-, -, -, plain'⟩
          · exact leadingTrigraph_third [] _ (by decide)
          · exact leadingTrigraph_third [] _ (by decide)
          · exact leadingTrigraph_third [] _ (by decide)
          · rw [plain']
            exact leadingTrigraph_third text _ without
      · exact leadingTrigraph_second mark

/-- **No trigraph comes up** that the text does not have. -/
theorem escaped_hasTrigraph : ∀ {text : List UInt8}, hasTrigraph text = false →
    hasTrigraph (text.flatMap escape ++ [quote, 59, newline]) = false
  | [], _ => by decide
  | c :: text, without => by
    rw [hasTrigraph, Bool.or_eq_false_iff, Option.isSome_eq_false_iff, Option.isNone_iff_eq_none] at without
    have later := escaped_hasTrigraph without.2
    rw [List.flatMap_cons, List.append_assoc]
    rcases escape_cases c with rfl | rfl | rfl | ⟨-, -, -, plain⟩
    · show hasTrigraph (backslash :: backslash :: (text.flatMap escape ++ [quote, 59, newline])) = false
      rw [hasTrigraph_other (by decide), hasTrigraph_other (by decide), later]
    · show hasTrigraph (backslash :: quote :: (text.flatMap escape ++ [quote, 59, newline])) = false
      rw [hasTrigraph_other (by decide), hasTrigraph_other (by decide), later]
    · show hasTrigraph (backslash :: 110 :: quote :: newline :: quote ::
        (text.flatMap escape ++ [quote, 59, newline])) = false
      rw [hasTrigraph_other (by decide), hasTrigraph_other (by decide), hasTrigraph_other (by decide),
        hasTrigraph_other (by decide), hasTrigraph_other (by decide), later]
    · rw [plain]
      show hasTrigraph (c :: (text.flatMap escape ++ [quote, 59, newline])) = false
      by_cases mark : c = 63
      · subst mark
        rw [hasTrigraph, escaped_leadingTrigraph text [59, newline] without.1, later]
        rfl
      · rw [hasTrigraph_other mark, later]

/-! ### The file -/

/-- **The file that the script writes denotes the text**, and a semicolon is left. -/
theorem denotes_textToLiteral (text : List UInt8) (plain : PlainText text) :
    denotes (textToLiteral text) = some (text, ascii ";\n") := by
  have noReturn : carriageReturn ∉ quote :: (text.flatMap escape ++ [quote, 59, newline]) := by
    rw [List.mem_cons, List.mem_append, not_or, not_or]
    exact ⟨by decide, escaped_carriageReturn plain.carriageReturn, by decide⟩
  have noTrigraph : hasTrigraph (quote :: (text.flatMap escape ++ [quote, 59, newline])) = false := by
    rw [hasTrigraph_other (by decide), escaped_hasTrigraph plain.trigraph]
  have noSplice : hasSplice (quote :: (text.flatMap escape ++ [quote, 59, newline])) = false := by
    rw [hasSplice_other (by decide), escaped_hasSplice]
  have read : readLiterals (quote :: (text.flatMap escape ++ [quote, 59, newline])) =
      some (text, [59, newline]) := by
    show readStrings true _ = _
    rw [readStrings_escaped]
    show some (text ++ [], _) = _
    rw [List.append_nil]
  rw [denotes, textToLiteral_eq, physicalLines_eq noReturn, replaceTrigraphs_eq noTrigraph,
    spliceLines_eq noSplice, read, Option.map_some, takeWhile_terminated plain.nul]
  rfl

/-- A quote behind a backslash, question marks, two newlines and a backslash at the end. -/
theorem denotes_textToLiteral_mixed :
    denotes (textToLiteral (ascii "a\\\"?? \n\n\\")) = some (ascii "a\\\"?? \n\n\\", ascii ";\n") :=
  denotes_textToLiteral (ascii "a\\\"?? \n\n\\") (by decide)

example : textToLiteral (ascii "\"\n") = ascii "\"\\\"\\n\"\n\"\";\n" := by decide

end Vaudou
