/-
**The parser on the tokens that the writer writes.**

Names and plain strings in quotes are read back, the value of the type-name member is skipped, and the
number of an integer kind is read back from what is printed for it.
-/

import Vaudou.Meta.Parser

namespace Vaudou

open Vaudou.Memory Vaudou.Text

variable {rest content name : List UInt8} {c : UInt8}

/-! ### Characters -/

/-- A letter, a digit or an underscore. -/
def isIdentifierByte (c : UInt8) : Bool :=
  (65 ≤ c && c ≤ 90) || (97 ≤ c && c ≤ 122) || (48 ≤ c && c ≤ 57) || c == 95

/-- A name made of letters, digits and underscores. -/
structure IdentifierLike (name : List UInt8) : Prop where
  nonempty : name ≠ []
  bytes : ∀ c ∈ name, isIdentifierByte c = true

instance (name : List UInt8) : Decidable (IdentifierLike name) :=
  decidable_of_iff (name.isEmpty = false ∧ name.all isIdentifierByte = true)
    ⟨fun both => ⟨List.isEmpty_eq_false_iff.mp both.1, List.all_eq_true.mp both.2⟩,
      fun identifier => ⟨List.isEmpty_eq_false_iff.mpr identifier.nonempty,
        List.all_eq_true.mpr identifier.bytes⟩⟩

/-- A string without quotes and backslashes. -/
def PlainContent (content : List UInt8) : Prop :=
  ∀ c ∈ content, c ≠ charByte '"' ∧ c ≠ charByte '\\'

/-- An identifier has no character that the parser looks for. -/
theorem identifier_plain (identifier : isIdentifierByte c = true) :
    c ≠ charByte '"' ∧ c ≠ charByte '\\' ∧ c ≠ 0 ∧ c ≠ charByte '[' ∧ c ≠ charByte ']' ∧
      c ≠ charByte '\x7b' ∧ c ≠ charByte '\x7d' ∧ c ≠ charByte ',' ∧ c ≠ charByte '-' := by
  refine ⟨?_, ?_, ?_, ?_, ?_, ?_, ?_, ?_, ?_⟩ <;>
  · rintro rfl
    revert identifier
    decide

theorem IdentifierLike.plain (identifier : IdentifierLike name) : PlainContent name :=
  fun c member => ⟨(identifier_plain (identifier.bytes c member)).1,
    (identifier_plain (identifier.bytes c member)).2.1⟩

theorem IdentifierLike.nonzero (identifier : IdentifierLike name) : 0 ∉ name :=
  fun member => (identifier_plain (identifier.bytes 0 member)).2.2.1 rfl

/-- The type-name key is no identifier: it has minus signs. -/
theorem IdentifierLike.ne_typeNameKey (identifier : IdentifierLike name) : name ≠ typeNameKey := by
  rintro rfl
  have minus : charByte '-' ∈ typeNameKey := by decide
  exact (identifier_plain (identifier.bytes _ minus)).2.2.2.2.2.2.2.2 rfl

/-! ### Scanning -/

theorem expectChar_cons : expectChar c (c :: rest) = some rest := if_pos rfl

theorem expectChar_ne {d : UInt8} (ne : d ≠ c) : expectChar c (d :: rest) = none := if_neg ne

theorem expectChar_some {s : List UInt8} (expected : expectChar c s = some rest) : s = c :: rest := by
  cases s with
  | nil => cases expected
  | cons d s =>
    rw [expectChar] at expected
    split at expected
    next same => rw [same, Option.some.inj expected]
    next => cases expected

theorem skipWhitespace_cons (visible : isWhitespace c = false) :
    skipWhitespace (c :: rest) = c :: rest :=
  List.dropWhile_cons_of_neg (by simp [visible])

theorem quoted_append : quoted content ++ rest = charByte '"' :: (content ++ charByte '"' :: rest) := by
  rw [quoted, List.cons_append, List.append_assoc, List.singleton_append]

theorem skipWhitespace_quoted : skipWhitespace (quoted content ++ rest) = quoted content ++ rest := by
  rw [quoted_append]
  exact skipWhitespace_cons (by decide)

/-- The type-name key is read as it is. -/
theorem typeNameKey_plain : PlainContent typeNameKey := by
  unfold PlainContent
  decide +kernel

theorem typeNameKey_nonzero : 0 ∉ typeNameKey := by decide +kernel

/-- **A plain string is pushed as it is.** -/
theorem parseStringBody_plain : ∀ {content : List UInt8}, PlainContent content → 0 ∉ content →
    parseStringBody false (content ++ charByte '"' :: rest) = some (content, rest)
  | [], _, _ => by
    rw [List.nil_append, parseStringBody, if_pos rfl]
  | c :: content, plain, nonzero => by
    obtain ⟨quote, backslash⟩ := plain c List.mem_cons_self
    have char : c ≠ 0 := fun zero => nonzero (zero ▸ List.mem_cons_self)
    rw [List.cons_append, parseStringBody, if_neg quote, if_neg char, if_neg backslash,
      parseStringBody_plain (fun d member => plain d (List.mem_cons_of_mem c member))
        fun member => nonzero (List.mem_cons_of_mem c member)]
    rfl

theorem takeWhile_nonzero (nonzero : 0 ∉ content) : content.takeWhile (· != 0) = content := by
  have kept : ∀ c ∈ content, (c != 0) = true := fun c member =>
    bne_iff_ne.mpr fun zero => nonzero (zero ▸ member)
  have whole : (content ++ []).takeWhile (· != 0) = content ++ [].takeWhile (· != 0) :=
    List.takeWhile_append_of_pos kept
  rwa [List.append_nil, List.takeWhile_nil, List.append_nil] at whole

/-- **A plain string in quotes is read back.** -/
theorem parseJsonString_quoted (plain : PlainContent content) (nonzero : 0 ∉ content) :
    parseJsonString (quoted content ++ rest) = some (content, rest) := by
  rw [parseJsonString, quoted_append, expectChar_cons, Option.bind_some,
    parseStringBody_plain plain nonzero, Option.map_some, takeWhile_nonzero nonzero]

theorem parseKey_quoted {unset : List UInt8} (plain : PlainContent content) (nonzero : 0 ∉ content) :
    parseKey unset (quoted content ++ rest) = (content, rest) := by
  rw [parseKey, parseJsonString_quoted plain nonzero, Option.getD_some]

/-- Nothing that the skipper counts or stops at. -/
def Skipped (bytes : List UInt8) : Prop :=
  ∀ c ∈ bytes, c ≠ 0 ∧ c ≠ charByte '[' ∧ c ≠ charByte ']' ∧ c ≠ charByte '\x7b' ∧
    c ≠ charByte '\x7d' ∧ c ≠ charByte ','

theorem jsonSkipValue_skipped : ∀ {bytes : List UInt8}, Skipped bytes →
    jsonSkipValue (bytes ++ charByte ',' :: rest) = (true, rest)
  | [], _ => rfl
  | c :: bytes, skipped => by
    obtain ⟨zero, open_, close, brace, end_, comma⟩ := skipped c List.mem_cons_self
    have later := jsonSkipValue_skipped fun d member => skipped d (List.mem_cons_of_mem c member)
    rw [jsonSkipValue] at later ⊢
    rw [List.cons_append, jsonSkipLoop, if_neg zero, if_neg open_, if_neg close, if_neg brace,
      if_neg end_, if_neg fun both => comma both.1]
    exact later

/-- **The name of a type is skipped**, up to its comma. -/
theorem jsonSkipValue_name (identifier : IdentifierLike name) :
    jsonSkipValue (quoted name ++ charByte ',' :: rest) = (true, rest) := by
  refine jsonSkipValue_skipped fun c member => ?_
  have quote : c = charByte '"' → c ≠ 0 ∧ c ≠ charByte '[' ∧ c ≠ charByte ']' ∧
      c ≠ charByte '\x7b' ∧ c ≠ charByte '\x7d' ∧ c ≠ charByte ',' := by
    rintro rfl
    decide
  rcases List.mem_cons.mp member with here | member
  · exact quote here
  · rcases List.mem_append.mp member with inside | last
    · obtain ⟨-, -, zero, open_, close, brace, end_, comma, -⟩ :=
        identifier_plain (identifier.bytes c inside)
      exact ⟨zero, open_, close, brace, end_, comma⟩
    · exact quote (List.mem_singleton.mp last)

/-! ### Numbers -/

/-- A member or an object ends here. -/
def Separated (rest : List UInt8) : Prop := ∀ c ∈ rest.head?, c = charByte ',' ∨ c = charByte '\x7d'

theorem Separated.ends (separated : Separated rest) : Ends rest := by
  intro c head
  rcases separated c head with rfl | rfl <;> rfl

/-- What is printed for an integer of at most 64 bits is not cut off. -/
theorem snprintf32_decimal {n : Nat} (small : n < 2 ^ 64) : snprintf32 (decimal n) = decimal n := by
  have digits : (decimal n).length ≤ 20 :=
    (decimal_length_le (by norm_num)).mpr (small.trans (by norm_num))
  exact List.take_of_length_le (by omega)

theorem snprintf32_decimalInt {v : Int} (small : v.natAbs < 2 ^ 64) :
    snprintf32 (decimalInt v) = decimalInt v := by
  have digits : (decimal v.natAbs).length ≤ 20 :=
    (decimal_length_le (by norm_num)).mpr (small.trans (by norm_num))
  refine List.take_of_length_le ?_
  unfold decimalInt
  split
  · rw [List.length_cons]
    omega
  · omega

end Vaudou
