/-
**Documents that declare the fields of a type.**

`Json.Declares` says that a tree is a value of a type: an object has the type's name in front, and then
one member for each field, with a value of the field's type, or an array of such values. `TreeOf` is a text
that is such a value and well-formed JSON.

The texts that the writer puts together are put together from trees: numbers (`JsonNumber.treeOf`), strings
(`treeOf_string`), arrays (`treeOf_array`) and objects (`treeOf_object`).
-/

import Mathlib.Data.List.Forall2
import Vaudou.Meta.ArrayTexts
import Vaudou.Meta.Soundness

namespace Vaudou

open Vaudou.Text

/-- The elements. -/
def JsonItems.values : JsonItems → List Json
  | .last value _ => [value]
  | .more value _ _ rest => value :: rest.values

/-- The elements of an array. -/
def Json.elements : Json → List Json
  | .array _ items => items.values
  | _ => []

/-- The keys with their values. -/
def JsonMembers.list : JsonMembers → List (JsonKey × Json)
  | .last key value _ => [(key, value)]
  | .more key value _ _ rest => (key, value) :: rest.list

/-- An array, with elements or without. -/
def Json.IsArray : Json → Prop
  | .emptyArray _ => True
  | .array _ _ => True
  | _ => False

/-- A number, a word or a string. -/
def Json.IsLeaf : Json → Prop
  | .scalar _ => True
  | .string _ => True
  | _ => False

/-- `field->flags & (FIXED_ARRAY | INTRUSIVE_ARRAY)`. -/
def MetaField.isArray (field : MetaField) : Bool := field.isFixedArray || field.isIntrusiveArray

/-- **The value is one of the type**: it has every field of it, and of every nested object, once. -/
inductive Json.Declares (reg : MetaRegistry) : MetaDescriptor → Json → Prop where
  | leaf {descriptor value} : descriptor.typeClass ≠ .object → value.IsLeaf → Declares reg descriptor value
  | object {descriptor before members key token rest}
      (listed : members.list = (key, .string token) :: rest) (typed : key.name.content = typeNameKey)
      (named : token.content = descriptor.name) (once : descriptor.fields.length = rest.length)
      (keys : ∀ field member, (field, member) ∈ descriptor.fields.zip rest →
        member.1.name.content = field.name)
      (values : ∀ field member type, (field, member) ∈ descriptor.fields.zip rest →
        metaGetDescriptor reg field.type = some type → field.isArray = false → Declares reg type member.2)
      (arrays : ∀ field member, (field, member) ∈ descriptor.fields.zip rest → field.isArray = true →
        member.2.IsArray)
      (elements : ∀ field member type item, (field, member) ∈ descriptor.fields.zip rest →
        metaGetDescriptor reg field.type = some type → field.isArray = true →
          item ∈ member.2.elements → Declares reg type item) :
      Declares reg descriptor (.object before members)

/-- **A text that is a value of the type**, and well-formed. -/
def TreeOf (reg : MetaRegistry) (descriptor : MetaDescriptor) (text : List UInt8) : Prop :=
  ∃ value : Json, text = value.textThen [] ∧ value.Standard ∧ value.Declares reg descriptor

/-- A text that is a value of a field, behind white space. -/
def FieldTreeOf (reg : MetaRegistry) (field : MetaField) (text : List UInt8) : Prop :=
  ∃ (before : Gap) (value : Json), text = before.bytes ++ value.textThen [] ∧ value.Standard ∧
    (field.isArray = true → value.IsArray) ∧ ∀ type, metaGetDescriptor reg field.type = some type →
      (field.isArray = false → value.Declares reg type) ∧
        (field.isArray = true → ∀ item ∈ value.elements, item.Declares reg type)

/-- No control characters, no quotes and no backslashes. -/
def CleanContent (content : List UInt8) : Prop :=
  ∀ c ∈ content, 32 ≤ c ∧ c ≠ charByte '"' ∧ c ≠ charByte '\\'

section Leaves

variable {reg : MetaRegistry} {descriptor : MetaDescriptor} {text content : List UInt8}

theorem CleanContent.nonzero (clean : CleanContent content) : 0 ∉ content :=
  fun member => absurd (clean 0 member).1 (by decide)

theorem CleanContent.body (clean : CleanContent content) : JsonBody content := by
  induction content with
  | nil => exact .nil
  | cons c content ih =>
    obtain ⟨low, quote, backslash⟩ := clean c List.mem_cons_self
    exact .char low quote backslash (ih fun d member => clean d (List.mem_cons_of_mem c member))

/-- A string with such a content, as it is written. -/
def CleanContent.literal (clean : CleanContent content) : Literal :=
  ⟨content, content, by
    rw [← List.append_nil (quoted content)]
    exact parseJsonString_quoted (fun c member => (clean c member).2) clean.nonzero⟩

theorem treeOf_string (kind : descriptor.typeClass ≠ .object) (clean : CleanContent content) :
    TreeOf reg descriptor (quoted content) :=
  ⟨.string clean.literal, (List.append_nil _).symm, clean.body, .leaf kind trivial⟩

/-- The bytes of a number are those of a scalar. -/
theorem JsonNumber.scalar (number : JsonNumber text) : text ≠ [] ∧ ∀ c ∈ text, isScalarByte c = true := by
  obtain ⟨sign, whole, fraction, exponent, rfl, signed, ⟨some_, digits, -⟩, fractional, scaled⟩ := number
  have ofSign : ∀ {sign : List UInt8}, (sign = [] ∨ sign = ascii "-" ∨ sign = ascii "+") →
      ∀ c ∈ sign, isScalarByte c = true := by
    rintro sign (rfl | rfl | rfl) <;> decide +kernel
  refine ⟨fun empty => some_ ?_, fun c member => ?_⟩
  · exact (List.append_eq_nil_iff.mp (List.append_eq_nil_iff.mp empty).2).1
  rcases List.mem_append.mp member with inSign | member
  · exact ofSign (signed.elim Or.inl fun minus => Or.inr (Or.inl minus)) c inSign
  rcases List.mem_append.mp member with inWhole | member
  · exact isScalarByte_digit (digits c inWhole)
  rcases List.mem_append.mp member with inFraction | inExponent
  · rcases fractional with rfl | ⟨digits', rfl, -, digital⟩
    · exact absurd inFraction List.not_mem_nil
    · rcases List.mem_cons.mp inFraction with rfl | inDigits
      · decide
      · exact isScalarByte_digit (digital c inDigits)
  · rcases scaled with rfl | ⟨e, sign', digits', rfl, letter, signed', -, digital⟩
    · exact absurd inExponent List.not_mem_nil
    · rcases List.mem_cons.mp inExponent with rfl | later
      · exact (show ∀ c ∈ ascii "eE", isScalarByte c = true by decide +kernel) c letter
      rcases List.mem_append.mp later with inSign | inDigits
      · exact ofSign signed' c inSign
      · exact isScalarByte_digit (digital c inDigits)

theorem JsonNumber.treeOf (kind : descriptor.typeClass ≠ .object) (number : JsonNumber text) :
    TreeOf reg descriptor text :=
  ⟨.scalar ⟨text, number.scalar.1, number.scalar.2⟩, (List.append_nil _).symm, Or.inl number,
    .leaf kind trivial⟩

/-- The digits of a natural: no leading zeros. -/
theorem decimal_whole (n : Nat) : (∀ c ∈ decimal n, isDigit c = true) ∧
    ((decimal n).head? = some (charByte '0') → (decimal n).length = 1) := by
  induction n using Nat.strong_induction_on with
  | _ n ih =>
    by_cases small : n < 10
    · rw [decimal_digit small]
      refine ⟨fun c member => ?_, fun _ => rfl⟩
      rw [List.mem_singleton.mp member]
      interval_cases n <;> decide
    · have lower : n / 10 < n := Nat.div_lt_self (by omega) (by norm_num)
      obtain ⟨digits, leading⟩ := ih (n / 10) lower
      rw [decimal_ten (by omega)]
      refine ⟨fun c member => ?_, fun zero => ?_⟩
      · rcases List.mem_append.mp member with front | last
        · exact digits c front
        · rw [List.mem_singleton.mp last]
          have digit : n % 10 < 10 := Nat.mod_lt n (by norm_num)
          interval_cases n % 10 <;> decide
      · -- a number with a leading zero would be one digit, and that is 0
        rw [List.head?_append_of_ne_nil _ decimal_ne_nil] at zero
        have one := leading zero
        have few : n / 10 < 10 := by
          have := (decimal_length_le (n := n / 10) (k := 1) (by norm_num)).mp one.le
          omega
        rw [decimal_digit few] at zero
        have pos : 0 < n / 10 := Nat.div_pos (by omega) (by norm_num)
        interval_cases n / 10 <;> simp [digitByte, charByte] at zero

theorem decimalInt_number (v : Int) : JsonNumber (decimalInt v) := by
  obtain ⟨digits, leading⟩ := decimal_whole v.natAbs
  unfold decimalInt
  split
  · exact ⟨ascii "-", decimal v.natAbs, [], [], by simp [ascii], Or.inr rfl,
      ⟨decimal_ne_nil, digits, leading⟩, Or.inl rfl, Or.inl rfl⟩
  · exact ⟨[], decimal v.natAbs, [], [], by simp, Or.inl rfl,
      ⟨decimal_ne_nil, digits, leading⟩, Or.inl rfl, Or.inl rfl⟩

theorem decimal_number (n : Nat) : JsonNumber (decimal n) := by
  rw [← decimalInt_natCast]
  exact decimalInt_number n

end Leaves

/-! ### Arrays -/

section Arrays

variable {reg : MetaRegistry} {descriptor : MetaDescriptor} {pretty : Int} {values : List (List UInt8)}

theorem ifPretty_blank {bytes : List UInt8} (blank : ∀ c ∈ bytes, isWhitespace c = true) :
    ∀ c ∈ ifPretty pretty bytes, isWhitespace c = true := by
  unfold ifPretty
  split
  · exact blank
  · exact fun c member => absurd member List.not_mem_nil

/-- Two pieces of white space. -/
def Gap.append (first second : Gap) : Gap :=
  ⟨first.bytes ++ second.bytes, fun c member =>
    (List.mem_append.mp member).elim (first.blank c) (second.blank c)⟩

/-- The indentation. -/
def Gap.spaces (pretty : Int) : Gap :=
  ⟨Vaudou.spaces pretty, fun c member => by rw [List.eq_of_mem_replicate member]; decide⟩

theorem ascii_newline_white : ∀ c ∈ ascii "\n", isWhitespace c = true := by decide +kernel

theorem ascii_space_white : ∀ c ∈ ascii " ", isWhitespace c = true := by decide +kernel

/-- A newline, unless the text is minified. -/
def Gap.newline (pretty : Int) : Gap := ⟨ifPretty pretty (ascii "\n"), ifPretty_blank ascii_newline_white⟩

/-- A space, unless the text is minified. -/
def Gap.space (pretty : Int) : Gap := ⟨ifPretty pretty (ascii " "), ifPretty_blank ascii_space_white⟩

/-- A newline and the indentation. -/
def Gap.line (pretty indent : Int) : Gap := (Gap.newline pretty).append (.spaces indent)

/-- The text of a value in front of what comes behind it. -/
theorem Json.textThen_apart (value : Json) (rest : List UInt8) :
    value.textThen rest = value.textThen [] ++ rest := by
  rw [← value.textThen_append, List.nil_append]

/-- The elements of an array, from the values. -/
theorem treeOf_elements (pretty : Int) (tail : Gap) : ∀ {values : List (List UInt8)}, values ≠ [] →
    (∀ value ∈ values, TreeOf reg descriptor value) → ∃ items : JsonItems,
      (∀ rest, elementsText pretty values ++ (tail.bytes ++ charByte ']' :: rest) =
        spaces pretty ++ items.textThen rest) ∧
      items.Standard ∧ ∀ item ∈ items.values, item.Declares reg descriptor
  | [value], _, trees => by
    obtain ⟨tree, rfl, standard, declares⟩ := trees value List.mem_cons_self
    refine ⟨.last tree ((Gap.newline pretty).append tail), fun rest => ?_, standard, ?_⟩
    · rw [elementsText, JsonItems.textThen, tree.textThen_apart (Gap.bytes _ ++ _)]
      simp [elementsText, Gap.append, Gap.newline]
    · exact fun item member => List.mem_singleton.mp member ▸ declares
  | value :: next :: later, _, trees => by
    obtain ⟨tree, rfl, standard, declares⟩ := trees value List.mem_cons_self
    obtain ⟨items, text, standardLater, declaresLater⟩ := treeOf_elements pretty tail (List.cons_ne_nil next later)
      fun value member => trees value (List.mem_cons_of_mem _ member)
    refine ⟨.more tree .empty (.line pretty pretty) items, fun rest => ?_, ⟨standard, standardLater⟩, ?_⟩
    · rw [elementsText, JsonItems.textThen, tree.textThen_apart (Gap.empty.bytes ++ _)]
      simp only [List.isEmpty_cons, Bool.false_eq_true, if_false, List.append_assoc, text rest]
      simp [Gap.empty, Gap.line, Gap.append, Gap.newline, Gap.spaces, ascii]
    · intro item member
      rcases List.mem_cons.mp member with rfl | member
      · exact declares
      · exact declaresLater item member

/-- **The text of an array** is a tree, if the values are; a single empty value makes an empty array. -/
theorem treeOf_array (pretty : Int) (trees : values = [[]] ∨ ∀ value ∈ values, TreeOf reg descriptor value) :
    ∃ (before : Gap) (value : Json), arrayText pretty values = before.bytes ++ value.textThen [] ∧
      value.Standard ∧ value.IsArray ∧ ∀ item ∈ value.elements, item.Declares reg descriptor := by
  have empty : ∀ inside : Gap, elementsText (deeper pretty) values = inside.bytes →
      ∃ (before : Gap) (value : Json), arrayText pretty values = before.bytes ++ value.textThen [] ∧
        value.Standard ∧ value.IsArray ∧ ∀ item ∈ value.elements, item.Declares reg descriptor := by
    intro inside blank
    refine ⟨.line pretty pretty, .emptyArray (((Gap.newline pretty).append inside).append (.spaces pretty)),
      ?_, trivial, trivial, fun item member => absurd member List.not_mem_nil⟩
    simp [arrayText, blank, Json.textThen, Gap.line, Gap.append, Gap.newline, Gap.spaces, ascii]
  rcases trees with rfl | trees
  · refine empty ((Gap.spaces (deeper pretty)).append (.newline (deeper pretty))) ?_
    simp [elementsText, Gap.append, Gap.spaces, Gap.newline]
  by_cases none_ : values = []
  · subst none_
    exact empty .empty rfl
  obtain ⟨items, text, standard, declares⟩ := treeOf_elements (deeper pretty) (.spaces pretty) none_ trees
  refine ⟨.line pretty pretty, .array (.line pretty (deeper pretty)) items, ?_, standard, trivial, declares⟩
  have whole := text []
  rw [arrayText, Json.textThen]
  simp only [List.append_assoc]
  simp only [Gap.spaces] at whole
  rw [show ascii "]" = [charByte ']'] from rfl, whole]
  simp [Gap.line, Gap.append, Gap.newline, Gap.spaces, ascii]

end Arrays

/-! ### Objects -/

/-- The members for the fields with these values, the last without a comma behind it. -/
def fieldsText (pretty : Int) : List (MetaField × List UInt8) → List UInt8
  | [] => []
  | (field, value) :: rest =>
    spaces pretty ++ quoted field.name ++ ascii ":" ++ ifPretty pretty (ascii " ") ++ value ++
      (if rest.isEmpty then [] else ascii ",") ++ ifPretty pretty (ascii "\n") ++ fieldsText pretty rest

/-- The text of an object with these fields. -/
def objectFields (pretty : Int) (name fields : List UInt8) : List UInt8 :=
  ascii "\x7b" ++ ifPretty pretty (ascii "\n") ++ spaces (deeper pretty) ++ quoted typeNameKey ++ ascii ":" ++
    ifPretty pretty (ascii " ") ++ quoted name ++ ascii "," ++ ifPretty pretty (ascii "\n") ++ fields ++
      spaces pretty ++ ascii "\x7d"

/-- A member for a field. -/
structure MemberOf (reg : MetaRegistry) (field : MetaField) (member : JsonKey × Json) : Prop where
  key : member.1.name.content = field.name
  standard : JsonBody member.1.name.body ∧ member.2.Standard
  array : field.isArray = true → member.2.IsArray
  value : ∀ type, metaGetDescriptor reg field.type = some type → field.isArray = false →
    member.2.Declares reg type
  elements : ∀ type, metaGetDescriptor reg field.type = some type → field.isArray = true →
    ∀ item ∈ member.2.elements, item.Declares reg type

section Objects

variable {reg : MetaRegistry} {descriptor : MetaDescriptor} {pretty : Int}

/-- The key of a field, with a space behind its colon, and the white space in front of the value. -/
def CleanContent.key {name : List UInt8} (clean : CleanContent name) (pretty : Int) (before : Gap) :
    JsonKey :=
  ⟨clean.literal, .empty, (Gap.space pretty).append before⟩

theorem FieldTreeOf.member {field : MetaField} {text : List UInt8} (clean : CleanContent field.name)
    (tree : FieldTreeOf reg field text) (pretty : Int) : ∃ (before : Gap) (value : Json),
      text = before.bytes ++ value.textThen [] ∧ MemberOf reg field (clean.key pretty before, value) := by
  obtain ⟨before, value, rfl, standard, array, types⟩ := tree
  exact ⟨before, value, rfl, rfl, ⟨clean.body, standard⟩, array, fun type found => (types type found).1,
    fun type found => (types type found).2⟩

/-- The members of an object, from the fields. -/
theorem treeOf_fields (pretty : Int) (tail : Gap) : ∀ {fields : List (MetaField × List UInt8)}, fields ≠ [] →
    (∀ entry ∈ fields, CleanContent entry.1.name ∧ FieldTreeOf reg entry.1 entry.2) →
      ∃ members : JsonMembers, (∀ rest, fieldsText pretty fields ++ (tail.bytes ++ charByte '\x7d' :: rest) =
          spaces pretty ++ members.textThen rest) ∧ members.Standard ∧
        List.Forall₂ (MemberOf reg) (fields.map Prod.fst) members.list
  | [(field, text)], _, trees => by
    obtain ⟨clean, tree⟩ := trees _ List.mem_cons_self
    obtain ⟨before, value, rfl, member⟩ := tree.member clean pretty
    refine ⟨.last (clean.key pretty before) value ((Gap.newline pretty).append tail), fun rest => ?_,
      member.standard, .cons member .nil⟩
    rw [fieldsText, JsonMembers.textThen, value.textThen_apart (Gap.bytes _ ++ _)]
    simp [fieldsText, CleanContent.key, CleanContent.literal, JsonKey.textThen, Gap.append, Gap.newline,
      Gap.empty, Gap.space, ascii]
  | (field, text) :: next :: later, _, trees => by
    obtain ⟨clean, tree⟩ := trees _ List.mem_cons_self
    obtain ⟨before, value, rfl, member⟩ := tree.member clean pretty
    obtain ⟨members, whole, standard, declared⟩ := treeOf_fields pretty tail (List.cons_ne_nil next later)
      fun entry member => trees entry (List.mem_cons_of_mem _ member)
    refine ⟨.more (clean.key pretty before) value .empty (.line pretty pretty) members, fun rest => ?_,
      ⟨member.standard.1, member.standard.2, standard⟩, .cons member declared⟩
    rw [fieldsText, JsonMembers.textThen, value.textThen_apart (Gap.empty.bytes ++ _)]
    simp only [List.isEmpty_cons, Bool.false_eq_true, if_false, List.append_assoc, whole rest]
    simp [CleanContent.key, CleanContent.literal, JsonKey.textThen, Gap.line, Gap.append, Gap.newline,
      Gap.spaces, Gap.empty, Gap.space, ascii]

theorem typeNameKey_clean : CleanContent typeNameKey := by
  unfold CleanContent
  decide +kernel

/-- **The text of an object** is a tree, if there are fields, and the values are trees. -/
theorem treeOf_object (pretty : Int) {fields : List (MetaField × List UInt8)} (some_ : fields ≠ [])
    (are : fields.map Prod.fst = descriptor.fields) (name : CleanContent descriptor.name)
    (trees : ∀ entry ∈ fields, CleanContent entry.1.name ∧ FieldTreeOf reg entry.1 entry.2) :
    ∃ value : Json, objectFields pretty descriptor.name (fieldsText (deeper pretty) fields) =
        value.textThen [] ∧ value.IsObject ∧ value.Standard ∧ value.Declares reg descriptor := by
  obtain ⟨members, text, standard, declared⟩ := treeOf_fields (deeper pretty) (.spaces pretty) some_ trees
  rw [are] at declared
  obtain ⟨once, each⟩ := List.forall₂_iff_zip.mp declared
  refine ⟨.object (.line pretty (deeper pretty)) (.more (typeNameKey_clean.key pretty .empty)
    (.string name.literal) .empty (.line pretty (deeper pretty)) members), ?_, trivial,
    ⟨typeNameKey_clean.body, name.body, standard⟩, .object rfl rfl rfl once
      (fun field member among => (each among).key) (fun field member type among => (each among).value type)
      (fun field member among => (each among).array)
      (fun field member type item among found array inside =>
        (each among).elements type found array item inside)⟩
  have whole := text []
  simp only [Gap.spaces] at whole
  rw [objectFields, show ascii "\x7d" = [charByte '\x7d'] from rfl]
  simp only [List.append_assoc, whole]
  simp [Json.textThen, JsonMembers.textThen, JsonKey.textThen, CleanContent.key, CleanContent.literal,
    Gap.line, Gap.append, Gap.newline, Gap.spaces, Gap.empty, Gap.space, ascii]

end Objects

end Vaudou
