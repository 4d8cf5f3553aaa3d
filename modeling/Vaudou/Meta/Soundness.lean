/-
**What the parser accepts.**

`ObjectSyntax` is the language of the objects that the parser reads for a type, as a grammar over byte
lists. It is wider than JSON: numbers are what `strtol` and its like read, strings are closed by the
first quote that is not escaped, the value of an unknown member is any text in which the counters of the
skipper come back to 0, and a key or a value may be missing.

* `metaParseJson_sound` — a text with code 0 starts with an object of this language.
-/

import Mathlib.Data.List.DropRight
import Mathlib.Data.List.TakeWhile
import Vaudou.Meta.UnknownMembers

namespace Vaudou

open Vaudou.Memory Vaudou.Text

/-! ### The grammar -/

/-- Nothing but white space. -/
def Blank (text : List UInt8) : Prop := ∀ c ∈ text, isWhitespace c = true

/-- An integer of `strtol`: spaces, a sign and digits. -/
def IntegerSyntax (text : List UInt8) : Prop :=
  ∃ spaces sign digits, text = spaces ++ (sign ++ digits) ∧ (∀ c ∈ spaces, isSpace c = true) ∧
    (sign = [] ∨ sign = ascii "-" ∨ sign = ascii "+") ∧ digits ≠ [] ∧ ∀ c ∈ digits, isDigit c = true

/-- A value of a primitive type: an integer, what `strtof` or `strtod` reads, or a byte in quotes. -/
def MetaPrimitiveType.Syntax (floats : CFloat) : MetaPrimitiveType → (text : List UInt8) → Prop
  | .f32, text => ∃ rest, (floats.strtof (text ++ rest)).2 = rest
  | .f64, text => ∃ rest, (floats.strtod (text ++ rest)).2 = rest
  | .char8, text => ∃ c, text = quoted [c]
  | _, text => IntegerSyntax text

section Grammar

variable (P : MetaParser)

/-- A value that is no object: of a primitive type or a `CString`. -/
def LeafSyntax (descriptor : MetaDescriptor) (text : List UInt8) : Prop :=
  match descriptor.typeClass with
  | .primitive => descriptor.primitive.Syntax P.floats text
  | .string => descriptor.string = .cstring ∧ ∃ content, parseJsonString text = some (content, [])
  | .array => False
  | .object => False

/-- A key with its colon and the white space around them. A key that is missing is unset. -/
def KeySyntax (name text : List UInt8) : Prop :=
  ∃ before key between behind, text = before ++ (key ++ (between ++ charByte ':' :: behind)) ∧
    Blank before ∧ Blank between ∧ Blank behind ∧
      (parseJsonString key = some (name, []) ∨ (key = [] ∧ name = P.unset))

mutual

/-- **An object of a type**: an opening brace and the members up to the closing one. -/
inductive ObjectSyntax : (type : Nat) → (text : List UInt8) → Prop where
  | object {type descriptor blank members} : metaGetDescriptor P.reg type = some descriptor →
      Blank blank → MembersSyntax descriptor members →
        ObjectSyntax type (blank ++ charByte '\x7b' :: members)

/-- The members of an object: unknown ones with any value that the skipper passes, and fields. The last
is a field. -/
inductive MembersSyntax : MetaDescriptor → (text : List UInt8) → Prop where
  | unknown {descriptor name key value members} : KeySyntax P name key →
      findField descriptor name = none → skipScan (some (0, 0)) value = some (0, 0) →
        MembersSyntax descriptor members →
          MembersSyntax descriptor (key ++ (value ++ charByte ',' :: members))
  | last {descriptor name key field value behind} : KeySyntax P name key →
      findField descriptor name = some field → FieldSyntax field value → Blank behind →
        MembersSyntax descriptor (key ++ (value ++ (behind ++ [charByte '\x7d'])))
  | more {descriptor name key field value behind members} : KeySyntax P name key →
      findField descriptor name = some field → FieldSyntax field value → Blank behind →
        MembersSyntax descriptor members →
          MembersSyntax descriptor (key ++ (value ++ (behind ++ charByte ',' :: members)))

/-- The value of a field: one value, or for an array field a list of values in brackets. -/
inductive FieldSyntax : MetaField → (text : List UInt8) → Prop where
  | value {field text} : ValueSyntax field.type text → FieldSyntax field text
  | array {field elements} : field.flags ≠ 0 → ElementsSyntax field elements →
      FieldSyntax field (charByte '[' :: elements)

/-- The elements of an array up to the closing bracket. -/
inductive ElementsSyntax : MetaField → (text : List UInt8) → Prop where
  | last {field blank value} : Blank blank → ValueSyntax field.type value →
      ElementsSyntax field (blank ++ (value ++ [charByte ']']))
  | more {field blank value elements} : Blank blank → ValueSyntax field.type value →
      ElementsSyntax field elements → ElementsSyntax field (blank ++ (value ++ charByte ',' :: elements))

/-- A value of a type. It may be missing. -/
inductive ValueSyntax : (type : Nat) → (text : List UInt8) → Prop where
  | leaf {type descriptor text} : metaGetDescriptor P.reg type = some descriptor →
      LeafSyntax P descriptor text → ValueSyntax type text
  | object {type text} : ObjectSyntax type text → ValueSyntax type text
  | missing {type} : ValueSyntax type []

end

end Grammar

/-! ### Tokens -/

section Tokens

variable {P : MetaParser} {s rest : List UInt8}

theorem skipWhitespace_blank (s : List UInt8) : ∃ blank, s = blank ++ skipWhitespace s ∧ Blank blank :=
  ⟨s.takeWhile isWhitespace, List.takeWhile_append_dropWhile.symm, fun _ member =>
    List.mem_takeWhile_imp member⟩

/-- A string that was read is read alone. -/
theorem parseStringBody_alone : ∀ {s : List UInt8} {escaped : Bool} {content r : List UInt8},
    parseStringBody escaped s = some (content, r) →
      ∃ t, s = t ++ r ∧ parseStringBody escaped t = some (content, [])
  | [], escaped, _, _, parsed => by
    cases escaped <;> cases parsed
  | c :: s, true, _, _, parsed => by
    rw [parseStringBody] at parsed
    obtain ⟨⟨later, r⟩, inner, same⟩ := Option.map_eq_some_iff.mp parsed
    obtain ⟨rfl, rfl⟩ := Prod.mk.inj same
    obtain ⟨t, rfl, alone⟩ := parseStringBody_alone inner
    exact ⟨c :: t, rfl, by rw [parseStringBody, alone]; rfl⟩
  | c :: s, false, _, _, parsed => by
    rw [parseStringBody] at parsed
    split_ifs at parsed with quote zero backslash
    · obtain ⟨rfl, rfl⟩ := Prod.mk.inj (Option.some.inj parsed)
      exact ⟨[c], rfl, by rw [parseStringBody, if_pos quote]⟩
    · obtain ⟨t, rfl, alone⟩ := parseStringBody_alone parsed
      exact ⟨c :: t, rfl, by rw [parseStringBody, if_neg quote, if_neg zero, if_pos backslash, alone]⟩
    · obtain ⟨⟨later, r⟩, inner, same⟩ := Option.map_eq_some_iff.mp parsed
      obtain ⟨rfl, rfl⟩ := Prod.mk.inj same
      obtain ⟨t, rfl, alone⟩ := parseStringBody_alone inner
      refine ⟨c :: t, rfl, ?_⟩
      rw [parseStringBody, if_neg quote, if_neg zero, if_neg backslash, alone]
      rfl

theorem parseJsonString_alone {content r : List UInt8} (parsed : parseJsonString s = some (content, r)) :
    ∃ t, s = t ++ r ∧ parseJsonString t = some (content, []) := by
  obtain ⟨inner, opened, parsed⟩ := Option.bind_eq_some_iff.mp parsed
  obtain ⟨⟨whole, r⟩, body, same⟩ := Option.map_eq_some_iff.mp parsed
  obtain ⟨rfl, rfl⟩ := Prod.mk.inj same
  obtain ⟨t, rfl, alone⟩ := parseStringBody_alone body
  refine ⟨charByte '"' :: t, expectChar_some opened, ?_⟩
  rw [parseJsonString, expectChar_cons, Option.bind_some, alone]
  rfl

/-- **The integer that is read** is one of `strtol`. -/
theorem readInteger_syntax {negative : Bool} {n : Nat}
    (read : readInteger s = some (negative, n, rest)) :
    ∃ text, s = text ++ rest ∧ IntegerSyntax text := by
  have signed : ∀ s, ∃ sign, s = sign ++ (readSign s).2 ∧
      (sign = [] ∨ sign = ascii "-" ∨ sign = ascii "+") := by
    intro s
    cases s with
    | nil => exact ⟨[], rfl, Or.inl rfl⟩
    | cons c s =>
      rw [readSign]
      split_ifs with minus plus
      · exact ⟨[c], rfl, Or.inr (Or.inl (by rw [minus]; rfl))⟩
      · exact ⟨[c], rfl, Or.inr (Or.inr (by rw [plus]; rfl))⟩
      · exact ⟨[], rfl, Or.inl rfl⟩
  unfold readInteger at read
  simp only at read
  split at read
  · cases read
  next digits =>
    obtain ⟨-, same⟩ := Prod.mk.inj (Option.some.inj read)
    obtain ⟨-, rfl⟩ := Prod.mk.inj same
    obtain ⟨sign, split, signs⟩ := signed (s.dropWhile isSpace)
    refine ⟨_, ?_, s.takeWhile isSpace, sign, (readSign (s.dropWhile isSpace)).2.takeWhile isDigit, rfl,
      fun _ member => List.mem_takeWhile_imp member, signs, digits,
      fun _ member => List.mem_takeWhile_imp member⟩
    rw [List.append_assoc, List.append_assoc, List.takeWhile_append_dropWhile, ← split,
      List.takeWhile_append_dropWhile]

theorem strtol_syntax (bits : Nat) (s : List UInt8) :
    ∃ text, s = text ++ (strtol bits s).2 ∧ (IntegerSyntax text ∨ text = []) := by
  unfold strtol
  cases read : readInteger s with
  | none => exact ⟨[], rfl, Or.inr rfl⟩
  | some n =>
    obtain ⟨text, split, integer⟩ := readInteger_syntax read
    exact ⟨text, split, Or.inl integer⟩

theorem strtoul_syntax (bits : Nat) (s : List UInt8) :
    ∃ text, s = text ++ (strtoul bits s).2 ∧ (IntegerSyntax text ∨ text = []) := by
  unfold strtoul
  cases read : readInteger s with
  | none => exact ⟨[], rfl, Or.inr rfl⟩
  | some n =>
    obtain ⟨text, split, integer⟩ := readInteger_syntax read
    simp only
    split_ifs <;> exact ⟨text, split, Or.inl integer⟩

/-- **The primitive value that is read** is one of its type, or missing. -/
theorem parsePrimitive_syntax (floats : P.floats.ReadsTokens) (mem : Mem) (s : List UInt8) (object : Nat)
    (kind : MetaPrimitiveType) : ∃ text, s = text ++ (parsePrimitive P mem s object kind).2 ∧
      (kind.Syntax P.floats text ∨ text = []) := by
  cases kind with
  | i8 | i16 | i32 | i64 => exact strtol_syntax _ s
  | u8 | u16 | u32 | u64 => exact strtoul_syntax _ s
  | f32 =>
    obtain ⟨text, split⟩ := floats.strtof.suffix s
    refine ⟨text, split.symm, Or.inl ⟨(P.floats.strtof s).2, ?_⟩⟩
    rw [split]
  | f64 =>
    obtain ⟨text, split⟩ := floats.strtod.suffix s
    refine ⟨text, split.symm, Or.inl ⟨(P.floats.strtod s).2, ?_⟩⟩
    rw [split]
  | char8 =>
    have missing : ∃ text, s = text ++ s ∧ (MetaPrimitiveType.Syntax P.floats .char8 text ∨ text = []) :=
      ⟨[], rfl, Or.inr rfl⟩
    unfold parsePrimitive
    cases opened : expectChar (charByte '"') s with
    | none => exact missing
    | some inner =>
      cases closed : expectChar (charByte '"') (readChar inner).2 with
      | none =>
        simp only [closed]
        exact missing
      | some rest =>
        simp only [closed]
        cases inner with
        | nil => cases closed
        | cons c tail =>
          have behind : tail = charByte '"' :: rest := expectChar_some closed
          refine ⟨quoted [c], ?_, Or.inl ⟨c, rfl⟩⟩
          rw [expectChar_some opened, behind]
          rfl

/-- **The token that is read** is a value of its type, or missing. -/
theorem parseToken_syntax {descriptor : MetaDescriptor} {heap heap' : BlockHeap} {object : Nat}
    (floats : P.floats.ReadsTokens)
    (parsed : parseToken P (some descriptor) heap s object = some (heap', .ok rest)) :
    ∃ text, s = text ++ rest ∧ (LeafSyntax P descriptor text ∨ text = []) := by
  have missing : ∀ {heap'' : BlockHeap} {r : List UInt8},
      some (heap'', Except.ok (ε := Int) r) = some (heap', .ok rest) → r = rest := by
    intro heap'' r same
    exact Except.ok.inj (Prod.mk.inj (Option.some.inj same)).2
  unfold parseToken parseJsonDescriptor at parsed
  split at parsed
  · cases parsed
  · rw [Option.bind_some] at parsed
    cases kind : descriptor.typeClass with
    | primitive =>
      rw [kind] at parsed
      obtain ⟨text, split, syn⟩ := parsePrimitive_syntax floats heap.mem s object descriptor.primitive
      rw [missing parsed] at split
      refine ⟨text, split, syn.imp_left fun syn => ?_⟩
      rw [LeafSyntax, kind]
      exact syn
    | string =>
      rw [kind] at parsed
      cases cstring : descriptor.string with
      | slice =>
        rw [cstring] at parsed
        exact ⟨[], missing parsed, Or.inr rfl⟩
      | cstring =>
        rw [cstring] at parsed
        simp only [parseCString] at parsed
        split at parsed
        · exact ⟨[], missing parsed, Or.inr rfl⟩
        next key r string =>
          obtain ⟨granted, alloc, same⟩ := Option.map_eq_some_iff.mp parsed
          obtain ⟨text, split, alone⟩ := parseJsonString_alone string
          rw [Except.ok.inj (Prod.mk.inj same).2] at split
          refine ⟨text, split, Or.inl ?_⟩
          rw [LeafSyntax, kind]
          exact ⟨cstring, key, alone⟩
    | array | object =>
      rw [kind] at parsed
      exact ⟨[], missing parsed, Or.inr rfl⟩

/-- **A value that was skipped** brings the counters back to 0. -/
theorem jsonSkipLoop_syntax : ∀ {s : List UInt8} {brackets braces : Int} {rest : List UInt8},
    jsonSkipLoop brackets braces s = (true, rest) →
      ∃ value, s = value ++ charByte ',' :: rest ∧ skipScan (some (brackets, braces)) value = some (0, 0)
  | [], _, _, _, skipped => by cases skipped
  | c :: s, brackets, braces, rest, skipped => by
    have later : ∀ {brackets' braces' : Int}, skipStep (some (brackets, braces)) c = some
      (brackets', braces') →
        jsonSkipLoop brackets' braces' s = (true, rest) →
          ∃ value, c :: s = value ++ charByte ',' :: rest ∧
            skipScan (some (brackets, braces)) value = some (0, 0) := by
      intro brackets' braces' stepped inner
      obtain ⟨value, split, scanned⟩ := jsonSkipLoop_syntax inner
      refine ⟨c :: value, by rw [split]; rfl, ?_⟩
      show skipScan (skipStep (some (brackets, braces)) c) value = _
      rw [stepped]
      exact scanned
    cases stepped : skipStep (some (brackets, braces)) c with
    | some counters =>
      rw [jsonSkipLoop_step stepped] at skipped
      exact later stepped skipped
    | none =>
      -- the loop stops here, at the end of the text or at the comma
      rw [skipStep] at stepped
      rw [jsonSkipLoop] at skipped
      split_ifs at stepped skipped
      · cases skipped
      next comma =>
      obtain ⟨rfl, rfl, rfl⟩ := comma
      obtain ⟨-, rfl⟩ := Prod.mk.inj skipped
      exact ⟨[], rfl, rfl⟩

end Tokens

/-! ### The loops -/

section Loops

variable {P : MetaParser} {parseObject : ParseProc} {descriptor : MetaDescriptor} {field : MetaField}
  {heap heap' : BlockHeap} {s rest : List UInt8} {object fuel : Nat}

theorem accepted_eq_some {result : ParseResult} :
    result.accepted = some (heap, rest) ↔ result = some (heap, .ok rest) := by
  constructor
  · intro accepted
    unfold ParseResult.accepted at accepted
    split at accepted
    · obtain ⟨rfl, rfl⟩ := Prod.mk.inj (Option.some.inj accepted)
      rfl
    · cases accepted
  · rintro rfl
    rfl

/-- The objects that are parsed are in the grammar. -/
def SoundObjects (P : MetaParser) (parseObject : ParseProc) : Prop :=
  ∀ {heap heap' : BlockHeap} {s rest : List UInt8} {type object : Nat},
    (parseObject heap s type object).accepted = some (heap', rest) →
      ∃ text, s = text ++ rest ∧ ObjectSyntax P type text

/-- Behind a value stands the closing character, or a comma and more. -/
theorem afterValue_some {close : UInt8} {next : BlockHeap → List UInt8 → Option (BlockHeap × List UInt8)}
    (after : afterValue close next heap s = some (heap', rest)) :
    (s = close :: rest ∧ heap = heap') ∨
      ∃ later, s = charByte ',' :: later ∧ next heap later = some (heap', rest) := by
  unfold afterValue at after
  cases closed : expectChar close s with
  | some r =>
    rw [closed] at after
    obtain ⟨same, rfl⟩ := Prod.mk.inj (Option.some.inj after)
    exact Or.inl ⟨expectChar_some closed, same⟩
  | none =>
    rw [closed] at after
    obtain ⟨later, comma, after⟩ := Option.bind_eq_some_iff.mp after
    exact Or.inr ⟨later, expectChar_some comma, after⟩

/-- **A value that was parsed** is one of its type. -/
theorem parseJsonDescriptor_syntax (floats : P.floats.ReadsTokens) (objects : SoundObjects P parseObject)
    {type : Nat} (parsed : (parseJsonDescriptor P parseObject type (metaGetDescriptor P.reg type) heap s
      object).accepted = some (heap', rest)) : ∃ text, s = text ++ rest ∧ ValueSyntax P type text := by
  by_cases brace : peekChar (charByte '\x7b') s = true
  · rw [parseJsonDescriptor, if_pos brace] at parsed
    obtain ⟨text, split, syn⟩ := objects parsed
    exact ⟨text, split, .object syn⟩
  · rw [parseJsonDescriptor_token (Bool.eq_false_iff.mpr brace)] at parsed
    cases found : metaGetDescriptor P.reg type with
    | none =>
      rw [found, parseToken, parseJsonDescriptor, if_neg brace] at parsed
      cases parsed
    | some descriptor =>
      rw [found] at parsed
      obtain ⟨text, split, syn | rfl⟩ := parseToken_syntax floats (accepted_eq_some.mp parsed)
      · exact ⟨text, split, .leaf found syn⟩
      · exact ⟨[], split, .missing⟩

/-- **The elements that were parsed** are a list up to its bracket. -/
theorem parseElements_syntax (floats : P.floats.ReadsTokens) (objects : SoundObjects P parseObject)
    (array : field.flags = 1 ∨ field.flags = 2) : ∀ {fuel i : Nat} {heap heap' : BlockHeap}
    {s rest : List UInt8}, (parseElements P parseObject field object fuel i heap s).accepted = some
      (heap', rest) →
      ∃ text, s = text ++ rest ∧ ElementsSyntax P field text := by
  intro fuel
  induction fuel with
  | zero => exact fun parsed => nomatch parsed
  | succ fuel ih =>
    intro i heap heap' s rest parsed
    rw [parseElements_round array] at parsed
    obtain ⟨slot, _, parsed⟩ := Option.bind_eq_some_iff.mp parsed
    obtain ⟨⟨inner, behind⟩, value, after⟩ := Option.bind_eq_some_iff.mp parsed
    obtain ⟨blank, split, white⟩ := skipWhitespace_blank s
    obtain ⟨text, value_split, syn⟩ := parseJsonDescriptor_syntax floats objects value
    rcases afterValue_some after with ⟨closed, -⟩ | ⟨later, comma, after⟩
    · refine ⟨_, ?_, .last white syn⟩
      rw [split, value_split, show behind = _ from closed]
      simp only [List.append_assoc, List.singleton_append]
    · obtain ⟨elements, later_split, elements_syn⟩ := ih after
      refine ⟨_, ?_, .more white syn elements_syn⟩
      rw [split, value_split, show behind = _ from comma, later_split]
      simp only [List.append_assoc, List.cons_append]

/-- **The value of a field that was parsed** is one of the field. -/
theorem parseJsonField_syntax (floats : P.floats.ReadsTokens) (objects : SoundObjects P parseObject)
    (flags : field.FlagsValid) (visible : skipWhitespace s = s)
    (parsed : (parseJsonField P parseObject field heap s object).accepted = some (heap', rest)) :
    ∃ text, s = text ++ rest ∧ FieldSyntax P field text := by
  rw [parseJsonField] at parsed
  simp only [visible] at parsed
  cases opened : expectChar (charByte '[') s with
  | some inner =>
    simp only [opened] at parsed
    split_ifs at parsed with plain
    · cases parsed
    · obtain ⟨elements, split, syn⟩ :=
        parseElements_syntax floats objects (flags.resolve_left plain) parsed
      refine ⟨_, ?_, .array plain syn⟩
      rw [expectChar_some opened, split]
      rfl
  | none =>
    simp only [opened] at parsed
    cases found : metaGetDescriptor P.reg field.type with
    | none =>
      rw [found] at parsed
      cases parsed
    | some descriptor =>
      rw [found] at parsed
      have value : (parseJsonDescriptor P parseObject field.type
        (metaGetDescriptor P.reg field.type) heap s
          object).accepted = some (heap', rest) := by
        rw [found]
        exact parsed
      obtain ⟨text, split, syn⟩ := parseJsonDescriptor_syntax floats objects value
      exact ⟨text, split, .value syn⟩

/-- **A key that was parsed**, up to what comes behind its colon. -/
theorem parseKey_syntax {behind : List UInt8}
    (colon : expectChar (charByte ':') (skipWhitespace (parseKey P.unset (skipWhitespace s)).2) =
      some behind) :
    ∃ text, s = text ++ skipWhitespace behind ∧
      KeySyntax P (parseKey P.unset (skipWhitespace s)).1 text := by
  obtain ⟨before, split, white⟩ := skipWhitespace_blank s
  obtain ⟨between, splitKey, whiteKey⟩ := skipWhitespace_blank (parseKey P.unset (skipWhitespace s)).2
  obtain ⟨last, splitColon, whiteColon⟩ := skipWhitespace_blank behind
  have key : ∃ key, skipWhitespace s = key ++ (parseKey P.unset (skipWhitespace s)).2 ∧
      (parseJsonString key = some ((parseKey P.unset (skipWhitespace s)).1, []) ∨
        (key = [] ∧ (parseKey P.unset (skipWhitespace s)).1 = P.unset)) := by
    unfold parseKey
    cases parsed : parseJsonString (skipWhitespace s) with
    | none => exact ⟨[], rfl, Or.inr ⟨rfl, rfl⟩⟩
    | some result =>
      obtain ⟨name, alone⟩ := parseJsonString_alone parsed
      exact ⟨name, alone.1, Or.inl alone.2⟩
  obtain ⟨key, splitName, name⟩ := key
  refine ⟨_, ?_, before, key, between, last, rfl, white, whiteKey, whiteColon, name⟩
  rw [expectChar_some colon] at splitKey
  calc s = before ++ (key ++ (between ++ charByte ':' :: behind)) := by
        rw [← splitKey, ← splitName]
        exact split
    _ = _ := by
        rw [List.append_assoc, List.append_assoc, List.append_assoc, List.cons_append, ← splitColon]

/-- **What a round over a member did**, when the members were accepted: behind the key and its colon a
value was skipped, or it was read into the field of that name. -/
theorem parseMembers_cases {fuel : Nat} {heap heap' : BlockHeap} {s rest : List UInt8}
    (parsed : (parseMembers P parseObject descriptor object (fuel + 1) heap s).accepted =
      some (heap', rest)) :
    ∃ behind, expectChar (charByte ':') (skipWhitespace (parseKey P.unset (skipWhitespace s)).2) =
        some behind ∧
      ((findField descriptor (parseKey P.unset (skipWhitespace s)).1 = none ∧ ∃ later,
          jsonSkipValue (skipWhitespace behind) = (true, later) ∧
          (parseMembers P parseObject descriptor object fuel heap later).accepted =
            some (heap', rest)) ∨
        ∃ field inner between,
          findField descriptor (parseKey P.unset (skipWhitespace s)).1 = some field ∧
          (parseJsonField P parseObject field heap (skipWhitespace behind)
            (object + field.offset)).accepted = some (inner, between) ∧
          ((skipWhitespace between = charByte '\x7d' :: rest ∧ inner = heap') ∨
            ∃ later, skipWhitespace between = charByte ',' :: later ∧
              (parseMembers P parseObject descriptor object fuel inner later).accepted =
                some (heap', rest))) := by
  rw [parseMembers_step] at parsed
  obtain ⟨behind, colon, parsed⟩ := Option.bind_eq_some_iff.mp parsed
  refine ⟨behind, colon, ?_⟩
  cases found : findField descriptor (parseKey P.unset (skipWhitespace s)).1 with
  | none =>
    rw [found] at parsed
    simp only at parsed
    split at parsed
    · cases parsed
    next later skipped => exact Or.inl ⟨rfl, later, skipped, parsed⟩
  | some field =>
    rw [found] at parsed
    simp only [accepted_trimmed] at parsed
    obtain ⟨⟨inner, trimmed⟩, value, after⟩ := Option.bind_eq_some_iff.mp parsed
    obtain ⟨⟨inner', between⟩, fieldValue, same⟩ := Option.map_eq_some_iff.mp value
    obtain ⟨rfl, rfl⟩ := Prod.mk.inj same
    exact Or.inr ⟨field, inner', between, rfl, fieldValue, afterValue_some after⟩

/-- **The members that were parsed** are a list up to its brace. -/
theorem parseMembers_syntax (floats : P.floats.ReadsTokens) (objects : SoundObjects P parseObject)
    (flags : ∀ field ∈ descriptor.fields, field.FlagsValid) : ∀ {fuel : Nat} {heap heap' : BlockHeap}
    {s rest : List UInt8}, (parseMembers P parseObject descriptor object fuel heap s).accepted = some
      (heap', rest) →
      ∃ text, s = text ++ rest ∧ MembersSyntax P descriptor text := by
  intro fuel
  induction fuel with
  | zero => exact fun parsed => nomatch parsed
  | succ fuel ih =>
    intro heap heap' s rest parsed
    obtain ⟨behind, colon, unknown | known⟩ := parseMembers_cases parsed
    · obtain ⟨found, later, skipped, parsed⟩ := unknown
      obtain ⟨key, split, key_syn⟩ := parseKey_syntax colon
      obtain ⟨value, value_split, scanned⟩ := jsonSkipLoop_syntax skipped
      obtain ⟨members, later_split, members_syn⟩ := ih parsed
      refine ⟨_, ?_, .unknown key_syn found scanned members_syn⟩
      rw [split, value_split, later_split]
      simp only [List.append_assoc, List.cons_append]
    · obtain ⟨field, inner, between, found, fieldValue, after⟩ := known
      obtain ⟨key, split, key_syn⟩ := parseKey_syntax colon
      have visible : skipWhitespace (skipWhitespace behind) = skipWhitespace behind :=
        List.dropWhile_idempotent _ _
      obtain ⟨text, value_split, syn⟩ := parseJsonField_syntax floats objects
        (flags field (List.mem_of_find?_eq_some found)) visible fieldValue
      obtain ⟨blank, blank_split, white⟩ := skipWhitespace_blank between
      rcases after with ⟨closed, -⟩ | ⟨later, comma, after⟩
      · refine ⟨_, ?_, .last key_syn found syn white⟩
        rw [split, value_split, blank_split, closed]
        simp only [List.append_assoc, List.singleton_append]
      · obtain ⟨members, later_split, members_syn⟩ := ih after
        refine ⟨_, ?_, .more key_syn found syn white members_syn⟩
        rw [split, value_split, blank_split, comma, later_split]
        simp only [List.append_assoc, List.cons_append]

/-- **The objects that are parsed** are in the grammar. -/
theorem parseJsonObject_syntax (floats : P.floats.ReadsTokens) (valid : P.reg.FlagsValid) : ∀ fuel : Nat,
    SoundObjects P (parseJsonObject P fuel) := by
  intro fuel
  induction fuel with
  | zero => exact fun parsed => nomatch parsed
  | succ fuel ih =>
    intro heap heap' s rest type object parsed
    rw [parseJsonObject] at parsed
    cases found : metaGetDescriptor P.reg type with
    | none =>
      rw [found] at parsed
      cases parsed
    | some descriptor =>
      rw [found] at parsed
      obtain ⟨blank, split, white⟩ := skipWhitespace_blank s
      cases opened : expectChar (charByte '\x7b') (skipWhitespace s) with
      | none =>
        simp only [opened] at parsed
        cases parsed
      | some inner =>
        simp only [opened] at parsed
        obtain ⟨members, members_split, syn⟩ :=
          parseMembers_syntax floats ih (valid type descriptor found) parsed
        refine ⟨_, ?_, .object found white syn⟩
        rw [split, expectChar_some opened, members_split]
        simp only [List.append_assoc, List.cons_append]

/-- **What is accepted.** A text that is parsed with code 0 starts with an object of the grammar, of the
type that is returned. -/
theorem metaParseJson_sound (floats : P.floats.ReadsTokens) (valid : P.reg.FlagsValid) {expected : Nat}
    {json : List UInt8} {parsed : MetaParsed}
      (accepted : metaParseJson P expected heap json = some parsed)
    (success : parsed.ret = 0) : ∃ type consumed rest, parsed.type = some type ∧
      json = consumed ++ rest ∧
      ObjectSyntax P type consumed := by
  have succeeds := (succeeded_eq_some success).mpr accepted
  rw [succeeded_metaParseJson] at succeeds
  obtain ⟨type, _, succeeds⟩ := Option.bind_eq_some_iff.mp succeeds
  obtain ⟨descriptor, _, succeeds⟩ := Option.bind_eq_some_iff.mp succeeds
  obtain ⟨granted, _, succeeds⟩ := Option.bind_eq_some_iff.mp succeeds
  obtain ⟨⟨heap', rest⟩, object, rfl⟩ := Option.map_eq_some_iff.mp succeeds
  obtain ⟨consumed, split, syn⟩ := parseJsonObject_syntax floats valid _ object
  exact ⟨type, consumed, rest, rfl, split, syn⟩

end Loops

/-- The minified row starts with an object of the grammar. -/
theorem metaParseJson_sound_row : ∃ type consumed rest, rowMinified.text = consumed ++ rest ∧
    ObjectSyntax rowParser type consumed := by
  have parses : (metaParseJson rowParser 0 ⟨fun _ => 0, []⟩ rowMinified.text).map (·.ret) = some 0 := by
    decide +kernel
  obtain ⟨parsed, accepted, success⟩ := Option.map_eq_some_iff.mp parses
  have floats : rowParser.floats.ReadsTokens := markFloats_readsTokens
  have valid : rowParser.reg.FlagsValid := rowRegistry_valid
  obtain ⟨type, consumed, rest, -, split, syn⟩ := metaParseJson_sound floats valid accepted success
  exact ⟨type, consumed, rest, split, syn⟩

/-! ### Standard JSON -/

/-- A number of JSON: a sign, a whole part without leading zeros, a fraction and an exponent. -/
def JsonNumber (text : List UInt8) : Prop :=
  ∃ sign whole fraction exponent, text = sign ++ (whole ++ (fraction ++ exponent)) ∧
    (sign = [] ∨ sign = ascii "-") ∧
    (whole ≠ [] ∧ (∀ c ∈ whole, isDigit c = true) ∧
      (whole.head? = some (charByte '0') → whole.length = 1)) ∧
    (fraction = [] ∨ ∃ digits, fraction = charByte '.' :: digits ∧ digits ≠ [] ∧
      ∀ c ∈ digits, isDigit c = true) ∧
    (exponent = [] ∨ ∃ e sign digits, exponent = e :: (sign ++ digits) ∧ e ∈ ascii "eE" ∧
      (sign = [] ∨ sign = ascii "-" ∨ sign = ascii "+") ∧ digits ≠ [] ∧ ∀ c ∈ digits, isDigit c = true)

/-- What stands between the quotes of a JSON string: no control characters, and only the escapes of
JSON. -/
inductive JsonBody : (body : List UInt8) → Prop where
  | nil : JsonBody []
  | char {c body} : 32 ≤ c → c ≠ charByte '"' → c ≠ charByte '\\' → JsonBody body → JsonBody (c :: body)
  | escape {c body} : c ∈ ascii "\"\\/bfnrt" → JsonBody body → JsonBody (charByte '\\' :: c :: body)
  | unicode {digits body} : digits.length = 4 → (∀ c ∈ digits, c ∈ ascii "0123456789abcdefABCDEF") →
      JsonBody body → JsonBody (charByte '\\' :: charByte 'u' :: (digits ++ body))

mutual

/-- **A well-formed JSON value.** -/
def Json.Standard : Json → Prop
  | .scalar token => JsonNumber token.bytes ∨ token.bytes ∈ [ascii "true", ascii "false", ascii "null"]
  | .string token => JsonBody token.body
  | .emptyArray _ => True
  | .array _ items => items.Standard
  | .emptyObject _ => True
  | .object _ members => members.Standard

def JsonItems.Standard : JsonItems → Prop
  | .last value _ => value.Standard
  | .more value _ _ items => value.Standard ∧ items.Standard

def JsonMembers.Standard : JsonMembers → Prop
  | .last key value _ => JsonBody key.name.body ∧ value.Standard
  | .more key value _ _ members => JsonBody key.name.body ∧ value.Standard ∧ members.Standard

end

/-- The vertical tab: white space to `strtol`, but neither to JSON nor to `isWhitespace`. -/
def verticalTab : UInt8 := 11

section Tabs

variable {rest : List UInt8}

theorem Gap.tabless (gap : Gap) : verticalTab ∉ gap.bytes :=
  fun member => absurd (gap.blank _ member) (by decide)

theorem JsonBody.tabless {body : List UInt8} (standard : JsonBody body) : verticalTab ∉ body := by
  induction standard with
  | nil => exact List.not_mem_nil
  | char visible _ _ _ ih =>
    refine List.not_mem_cons_of_ne_of_not_mem ?_ ih
    rintro rfl
    exact absurd visible (by decide)
  | escape member _ ih =>
    refine List.not_mem_cons_of_ne_of_not_mem (by decide) (List.not_mem_cons_of_ne_of_not_mem ?_ ih)
    rintro rfl
    exact absurd member (by decide)
  | unicode _ hex _ ih =>
    refine List.not_mem_cons_of_ne_of_not_mem (by decide)
      (List.not_mem_cons_of_ne_of_not_mem (by decide) ?_)
    exact fun member => (List.mem_append.mp member).elim
      (fun digit => absurd (hex _ digit) (by decide)) ih

theorem Scalar.tabless (token : Scalar) : verticalTab ∉ token.bytes :=
  fun member => absurd (token.plain _ member) (by decide)

theorem quoted_tabless {body : List UInt8} (standard : JsonBody body)
    (member : verticalTab ∈ quoted body ++ rest) : verticalTab ∈ rest := by
  simp only [quoted, List.cons_append, List.mem_cons, List.mem_append, List.not_mem_nil,
    or_false] at member
  rcases member with quote | (inside | quote) | member
  · cases quote
  · exact absurd inside standard.tabless
  · cases quote
  · exact member

theorem Gap.tab_behind (gap : Gap) {c : UInt8} (other : verticalTab ≠ c)
    (member : verticalTab ∈ gap.bytes ++ c :: rest) : verticalTab ∈ rest := by
  rcases List.mem_append.mp member with blank | member
  · exact absurd blank gap.tabless
  · exact (List.mem_cons.mp member).resolve_left other

theorem JsonKey.tab_behind {key : JsonKey} (standard : JsonBody key.name.body)
    (member : verticalTab ∈ key.textThen rest) : verticalTab ∈ rest := by
  have colon := key.behind.tab_behind (by decide) (quoted_tabless standard member)
  exact (List.mem_append.mp colon).resolve_left key.before.tabless

mutual

/-- **There is no vertical tab in a well-formed value.** -/
theorem Json.tab_behind {rest : List UInt8} : ∀ {value : Json}, value.Standard →
    verticalTab ∈ value.textThen rest → verticalTab ∈ rest
  | .scalar token, _, member => (List.mem_append.mp member).resolve_left token.tabless
  | .string _, standard, member => quoted_tabless standard member
  | .emptyArray inside, _, member =>
    inside.tab_behind (by decide) ((List.mem_cons.mp member).resolve_left (by decide))
  | .array before _, standard, member => by
    have inner := (List.mem_cons.mp member).resolve_left (by decide)
    exact JsonItems.tab_behind standard ((List.mem_append.mp inner).resolve_left before.tabless)
  | .emptyObject inside, _, member =>
    inside.tab_behind (by decide) ((List.mem_cons.mp member).resolve_left (by decide))
  | .object before _, standard, member => by
    have inner := (List.mem_cons.mp member).resolve_left (by decide)
    exact JsonMembers.tab_behind standard ((List.mem_append.mp inner).resolve_left before.tabless)

theorem JsonItems.tab_behind {rest : List UInt8} : ∀ {items : JsonItems}, items.Standard →
    verticalTab ∈ items.textThen rest → verticalTab ∈ rest
  | .last _ behind, standard, member => behind.tab_behind (by decide) (Json.tab_behind standard member)
  | .more _ behind before _, standard, member => by
    have later := behind.tab_behind (by decide) (Json.tab_behind standard.1 member)
    exact JsonItems.tab_behind standard.2 ((List.mem_append.mp later).resolve_left before.tabless)

theorem JsonMembers.tab_behind {rest : List UInt8} : ∀ {members : JsonMembers}, members.Standard →
    verticalTab ∈ members.textThen rest → verticalTab ∈ rest
  | .last _ _ behind, standard, member =>
    behind.tab_behind (by decide) (Json.tab_behind standard.2 (JsonKey.tab_behind standard.1 member))
  | .more _ _ behind before _, standard, member => by
    have later := behind.tab_behind (by decide)
      (Json.tab_behind standard.2.1 (JsonKey.tab_behind standard.1 member))
    exact JsonMembers.tab_behind standard.2.2 ((List.mem_append.mp later).resolve_left before.tabless)

end

/-- An object, with members or without. -/
def Json.IsObject : Json → Prop
  | .emptyObject _ => True
  | .object _ _ => True
  | _ => False

theorem Json.mem_textThen (value : Json) {c : UInt8} (member : c ∈ rest) : c ∈ value.textThen rest := by
  rw [← List.nil_append rest, value.textThen_append]
  exact List.mem_append_right _ member

theorem JsonKey.mem_textThen (key : JsonKey) {c : UInt8} (member : c ∈ rest) : c ∈ key.textThen rest :=
    by
  rw [← List.nil_append rest, key.textThen_append]
  exact List.mem_append_right _ member

theorem JsonMembers.brace_mem (members : JsonMembers) : charByte '\x7d' ∈ members.textThen rest := by
  induction members using JsonMembers.inductionOn with
  | last key value _ =>
    exact key.mem_textThen (value.mem_textThen (List.mem_append_right _ List.mem_cons_self))
  | more key value _ _ members ih =>
    exact key.mem_textThen (value.mem_textThen (List.mem_append_right _
      (List.mem_cons_of_mem _ (List.mem_append_right _ ih))))

/-- **An object ends with its brace.** -/
theorem Json.IsObject.brace_mem {value : Json} (braced : value.IsObject) :
    charByte '\x7d' ∈ value.textThen rest := by
  cases value with
  | emptyObject inside => exact List.mem_cons_of_mem _ (List.mem_append_right _ List.mem_cons_self)
  | object before members => exact List.mem_cons_of_mem _ (List.mem_append_right _ members.brace_mem)
  | _ => exact braced.elim

/-- **No well-formed object stands at the start** of a text whose first brace is behind a
vertical tab. -/
theorem not_object_of_tab {json : List UInt8}
    (late : charByte '\x7d' ∉ json.takeWhile (· != verticalTab)) (before : Gap) {value : Json}
    (braced : value.IsObject) (standard : value.Standard) : json ≠ before.bytes ++ value.textThen rest := by
  rintro rfl
  have apart : value.textThen rest = value.textThen [] ++ rest := by
    rw [← value.textThen_append, List.nil_append]
  have tabless : ∀ c ∈ before.bytes ++ value.textThen [], (c != verticalTab) = true := by
    rintro c member
    rw [bne_iff_ne]
    rintro rfl
    rcases List.mem_append.mp member with blank | inside
    · exact before.tabless blank
    · exact List.not_mem_nil (Json.tab_behind standard inside)
  rw [apart, ← List.append_assoc, List.takeWhile_append_of_pos tabless] at late
  exact late (List.mem_append_left _ (List.mem_append_right _ braced.brace_mem))

end Tabs

/-! ### What is accepted beyond JSON -/

/-- The row behind its type name. -/
def rowText (members : String) : List UInt8 :=
  ascii "\x7b\"--vd-meta-type-name--\":\"Row\"," ++ ascii members

/-- The row is accepted, and its text does not start with a well-formed object. -/
def LaxRow (json : List UInt8) : Prop :=
  (metaParseJson rowParser 0 ⟨fun _ => 0, []⟩ json).map (fun parsed => (parsed.ret, parsed.type)) =
      some (0, some 2) ∧
    ¬ ∃ (before : Gap) (value : Json) (rest : List UInt8), value.IsObject ∧ value.Standard ∧
      json = before.bytes ++ value.textThen rest

theorem laxRow_of_tab {json : List UInt8}
    (accepted : (metaParseJson rowParser 0 ⟨fun _ => 0, []⟩ json).map
      (fun parsed => (parsed.ret, parsed.type)) =
      some (0, some 2))
    (late : charByte '\x7d' ∉ json.takeWhile (· != verticalTab)) : LaxRow json := by
  refine ⟨accepted, ?_⟩
  rintro ⟨before, value, rest, braced, standard, split⟩
  exact not_object_of_tab late before braced standard split

/-- **Rows that are accepted are no JSON**: with a vertical tab as the value of an unknown member, in
front of a number, and in a key. -/
theorem metaParseJson_lax :
    LaxRow (rowText "\"note\":\x0b,\"cells\":[1,2]\x7d") ∧ LaxRow (rowText "\"cells\":[\x0b1,2]\x7d") ∧
      LaxRow (rowText "\"no\x0bte\":0,\"cells\":[1,2]\x7d") :=
  ⟨laxRow_of_tab (by decide +kernel) (by decide +kernel),
    laxRow_of_tab (by decide +kernel) (by decide +kernel),
    laxRow_of_tab (by decide +kernel) (by decide +kernel)⟩

/-- Keys, values and brackets that are missing are not noticed. -/
example : ∀ json ∈ [rowText ":0,\"cells\":[1,2]\x7d", rowText "\"cells\":[,]\x7d",
    rowText "\"cells\":1\x7d",
    rowText "\"cells\":\x7d"],
    (metaParseJson rowParser 0 ⟨fun _ => 0, []⟩ json).map (·.ret) = some 0 := by
  decide +kernel

end Vaudou
