/-
**Which documents the parser accepts.**

The type scan finds the first type-name member behind members with transparent values
(`jsonGetObjectType_members`). Codes that are no success are negative (`parseJsonObject_negative`), so
the parser returns 0 exactly where the type is named and the members have a meaning.

* `metaParseJson_read` — on a clear document the parser returns 0 exactly where the document has a
  meaning, and then with this meaning.
-/

import Vaudou.Meta.Frames
import Vaudou.Meta.Reading

namespace Vaudou

open Vaudou.Memory Vaudou.Text

/-! ### Codes -/

/-- A code that is no success is negative. -/
def ParseResult.Negative (result : ParseResult) : Prop :=
  ∀ heap code, result = some (heap, .error code) → code < 0

/-- **The codes of the parser** other than success are negative. -/
theorem parseJsonObject_negative (P : MetaParser) (fuel : Nat) (heap : BlockHeap) (s : List UInt8)
    (type object : Nat) : (parseJsonObject P fuel heap s type object).Negative := by
  have frame : P.Frame fun _ => True := ⟨fun _ _ _ => trivial, fun _ _ _ _ _ _ => trivial,
    fun _ _ _ _ _ _ _ _ => trivial⟩
  intro heap' code failed
  exact (parseJsonObject_leaves frame fuel heap s type object trivial heap' _ failed).2 code rfl

/-! ### The type of a document -/

/-- The name in the value of a type-name member. -/
def Json.typeName (unset : List UInt8) : Json → List UInt8
  | .string token => token.content
  | _ => unset

/-- **The type that the members name**, where one is expected. -/
def JsonMembers.namedType (P : MetaParser) (expected : Nat) : JsonMembers → Option Nat
  | .last key value _ =>
    if key.name.content = typeNameKey then
      (Vaudou.namedType P expected (value.typeName P.unset)).toOption
    else none
  | .more key value _ _ members =>
    if key.name.content = typeNameKey then
      (Vaudou.namedType P expected (value.typeName P.unset)).toOption
    else members.namedType P expected

/-- The members in front of the type name have transparent values. -/
def JsonMembers.ScanClear : JsonMembers → Prop
  | .last key value _ => key.name.content = typeNameKey ∨ value.Transparent
  | .more key value _ _ members =>
    key.name.content = typeNameKey ∨ (value.Transparent ∧ members.ScanClear)

section Scan

variable {P : MetaParser} {expected fuel : Nat} {s rest : List UInt8}

theorem parseKey_value {unset : List UInt8} (value : Json) :
    (parseKey unset (value.textThen rest)).1 = value.typeName unset := by
  have other : ∀ {s : List UInt8}, expectChar
    (charByte '"') s = none → (parseKey unset s).1 = unset := by
    intro s noQuote
    rw [parseKey, parseJsonString, noQuote]
    rfl
  cases value with
  | scalar token =>
    obtain ⟨c, tail, split⟩ := List.exists_cons_of_ne_nil token.nonempty
    have scalar := isScalarByte_plain (token.plain c (split ▸ List.mem_cons_self))
    rw [Json.textThen, split]
    exact other (expectChar_ne scalar.2.2.1)
  | string token =>
    rw [Json.textThen, parseKey, token.parseJsonString]
    rfl
  | emptyArray => exact other (expectChar_ne (by decide))
  | array => exact other (expectChar_ne (by decide))
  | emptyObject => exact other (expectChar_ne (by decide))
  | object => exact other (expectChar_ne (by decide))

/-- **A round of the type scan**, at a key. -/
theorem objectTypeLoop_round {key : JsonKey} {value : Json} (before : Gap) :
    objectTypeLoop P expected (fuel + 1) (before.bytes ++ key.textThen (value.textThen rest)) =
      if key.name.content = typeNameKey then some (namedType P expected (value.typeName P.unset))
      else
        let behind := skipWhitespace (jsonSkipValue (value.textThen rest)).2
        objectTypeLoop P expected fuel ((expectChar (charByte ',') behind).getD behind) := by
  have quote : ∀ k, skipWhitespace (before.bytes ++ key.textThen k) = key.textThen k := fun k => by
    rw [skipWhitespace_gap, JsonKey.textThen, skipWhitespace_quoted]
  have brace : ∀ k, expectChar (charByte '\x7d') (key.textThen k) = none := fun k =>
    expectChar_ne (by decide)
  have nonempty : ∀ k, (key.textThen k).isEmpty = false := fun _ => rfl
  have parsed : ∀ k, parseKey P.unset (key.textThen k) =
      (key.name.content, key.behind.bytes ++ charByte ':' :: (key.before.bytes ++ k)) := fun k => by
    rw [JsonKey.textThen, parseKey, key.name.parseJsonString, Option.getD_some]
  have colon : ∀ k, skipWhitespace (charByte ':' :: k) = charByte ':' :: k := fun k =>
    skipWhitespace_cons (by decide)
  rw [objectTypeLoop]
  simp only [quote, brace, nonempty, parsed, skipWhitespace_gap, colon, expectChar_cons,
    value.front.visible, parseKey_value, Bool.false_eq_true, if_false]

/-- **The type scan finds the type that the members name.** -/
theorem objectTypeLoop_members : ∀ (members : JsonMembers) {before behind : Gap} {fuel : Nat},
    members.ScanClear → (members.textThen behind.bytes).length < fuel →
      (objectTypeLoop P expected fuel (before.bytes ++ members.textThen behind.bytes)).bind Except.toOption =
        members.namedType P expected
  | .last key value inner, before, behind, fuel, clear, enough => by
    obtain ⟨fuel, rfl⟩ := Nat.exists_eq_add_of_le' (Nat.one_le_of_lt enough)
    rw [JsonMembers.textThen, objectTypeLoop_round, JsonMembers.namedType]
    split_ifs with named
    · rfl
    · have nonempty : 0 < (value.textThen (inner.bytes ++ charByte '\x7d' :: behind.bytes)).length := by
        refine Nat.lt_of_lt_of_le ?_ value.length_textThen
        rw [List.length_append, List.length_cons]
        exact Nat.succ_pos _
      have longer := nonempty.trans key.length_textThen
      rw [JsonMembers.textThen] at enough
      obtain ⟨fuel, rfl⟩ := Nat.exists_eq_add_of_lt (longer.trans_le (Nat.le_of_lt_succ enough))
      have runsOut := (clear.resolve_left named).runsOut inner behind
      simp only [runsOut]
      rfl
  | .more key value inner next members, before, behind, fuel, clear, enough => by
    obtain ⟨fuel, rfl⟩ := Nat.exists_eq_add_of_le' (Nat.one_le_of_lt enough)
    rw [JsonMembers.textThen, objectTypeLoop_round, JsonMembers.namedType]
    split_ifs with named
    · rfl
    · obtain ⟨transparent, clear⟩ := clear.resolve_left named
      have front : ∃ tail, members.textThen behind.bytes = charByte '"' :: tail := by
        cases members <;> exact ⟨_, rfl⟩
      obtain ⟨tail, front⟩ := front
      have visible : skipWhitespace (members.textThen behind.bytes) = members.textThen behind.bytes := by
        rw [front]
        exact skipWhitespace_cons (by decide)
      have comma : expectChar (charByte ',') (members.textThen behind.bytes) = none := by
        rw [front]
        exact expectChar_ne (by decide)
      have shorter : (members.textThen behind.bytes).length < fuel := by
        have inside : (members.textThen behind.bytes).length <
            (value.textThen (inner.bytes ++ charByte ',' ::
              (next.bytes ++ members.textThen behind.bytes))).length := by
          refine Nat.lt_of_lt_of_le ?_ value.length_textThen
          simp only [List.length_append, List.length_cons]
          omega
        have longer := inside.trans key.length_textThen
        rw [JsonMembers.textThen] at enough
        exact longer.trans_le (Nat.le_of_lt_succ enough)
      have later : (objectTypeLoop P expected fuel
        (Gap.empty.bytes ++ members.textThen behind.bytes)).bind
          Except.toOption = members.namedType P expected := objectTypeLoop_members members clear shorter
      rw [transparent.skipped, skipWhitespace_gap, visible]
      show (objectTypeLoop P expected fuel ((expectChar (charByte ',') _).getD _)).bind _ = _
      rw [comma, Option.getD_none]
      exact later

/-- The scan of a document. -/
theorem jsonGetObjectType_members {before inner behind : Gap} {members : JsonMembers}
    (clear : members.ScanClear) : (jsonGetObjectType P expected
      (before.bytes ++ (Json.object inner members).textThen behind.bytes)).bind Except.toOption =
        members.namedType P expected := by
  have brace : skipWhitespace (charByte '\x7b' :: (inner.bytes ++ members.textThen behind.bytes)) =
      charByte '\x7b' :: (inner.bytes ++ members.textThen behind.bytes) := skipWhitespace_cons
        (by decide)
  rw [jsonGetObjectType, skipWhitespace_gap, Json.textThen, brace, expectChar_cons]
  refine objectTypeLoop_members members clear ?_
  rw [List.length_append]
  omega

end Scan

/-! ### Documents -/

section Documents

variable (P : MetaParser) (expected : Nat)

/-- A new object, whose bytes are 0. -/
def zeroedBlock (granted : BlockHeap × Nat) (size : Nat) : BlockHeap :=
  { granted.1 with mem := granted.1.mem.store granted.2 (List.replicate size 0) }

/-- **What a document means**: the type is named, and the members are read to a new object of it. -/
def JsonDocument.read (doc : JsonDocument) (heap : BlockHeap) : Option MetaParsed :=
  match doc.value with
  | .object _ members =>
    (members.namedType P expected).bind fun type =>
      (metaGetDescriptor P.reg type).bind fun descriptor =>
        (P.alloc.alloc heap descriptor.size).bind fun granted =>
          (members.read P descriptor (zeroedBlock granted descriptor.size) granted.2).map fun heap =>
            ⟨heap, 0, some granted.2, some type⟩
  | _ => none

/-- **Nothing in the document misleads the parser**: neither the type scan, nor as the members are read
for the type that is named. -/
def JsonDocument.Clear (doc : JsonDocument) : Prop :=
  match doc.value with
  | .object _ members => members.ScanClear ∧ ∀ type descriptor,
    members.namedType P expected = some type → metaGetDescriptor P.reg type = some descriptor →
      members.Clear P.reg descriptor
  | _ => True

variable {P expected}

/-- What is no success is dropped. -/
def succeeded (parsed : Option MetaParsed) : Option MetaParsed :=
    parsed.filter fun parsed => parsed.ret == 0

/-- The codes of the type scan other than success are negative. -/
theorem namedType_negative {name : List UInt8} {code : Int}
    (failed : namedType P expected name = .error code) : code < 0 := by
  unfold namedType at failed
  simp only at failed
  split_ifs at failed
  · rw [← Except.error.inj failed]
    decide
  · rw [← Except.error.inj failed]
    decide

theorem objectTypeLoop_negative : ∀ {fuel : Nat} {s : List UInt8} {code : Int},
    objectTypeLoop P expected fuel s = some (.error code) → code < 0 := by
  intro fuel
  induction fuel with
  | zero => exact fun failed => nomatch failed
  | succ fuel ih =>
    intro s code failed
    rw [objectTypeLoop] at failed
    split at failed
    · split_ifs at failed
      · cases failed
      · rw [← Except.error.inj (Option.some.inj failed)]
        decide
    · split at failed
      · rw [← Except.error.inj (Option.some.inj failed)]
        decide
      · simp only at failed
        split at failed
        · rw [← Except.error.inj (Option.some.inj failed)]
          decide
        · split at failed
          · exact namedType_negative (Option.some.inj failed)
          · exact ih failed

theorem jsonGetObjectType_negative {json : List UInt8} {code : Int}
    (failed : jsonGetObjectType P expected json = some (.error code)) : code < 0 := by
  unfold jsonGetObjectType at failed
  split at failed
  · rw [← Except.error.inj (Option.some.inj failed)]
    decide
  · exact objectTypeLoop_negative failed

/-- **A text is accepted** where its type is found and the object is parsed to code 0. -/
theorem succeeded_metaParseJson {heap : BlockHeap} {json : List UInt8} :
    succeeded (metaParseJson P expected heap json) =
      ((jsonGetObjectType P expected json).bind Except.toOption).bind fun type =>
        (metaGetDescriptor P.reg type).bind fun descriptor =>
          (P.alloc.alloc heap descriptor.size).bind fun granted =>
            (parseJsonObject P (json.length + 1) (zeroedBlock granted descriptor.size) json type
              granted.2).accepted.map fun parsed => ⟨parsed.1, 0, some granted.2, some type⟩ := by
  have dropped : ∀ {parsed : MetaParsed}, parsed.ret < 0 → succeeded (some parsed) = none := by
    intro parsed negative
    have nonzero : (parsed.ret == 0) = false := beq_eq_false_iff_ne.mpr negative.ne
    rw [succeeded, Option.filter_some, nonzero]
    rfl
  unfold metaParseJson
  cases scanned : jsonGetObjectType P expected json with
  | none => rfl
  | some outcome =>
    cases outcome with
    | error code => exact dropped (jsonGetObjectType_negative scanned)
    | ok type =>
      simp only [Option.bind_some, Except.toOption]
      cases metaGetDescriptor P.reg type with
      | none => exact dropped (show metaDescriptorNotFound < 0 by decide)
      | some descriptor =>
        simp only [Option.bind_some]
        cases P.alloc.alloc heap descriptor.size with
        | none => rfl
        | some granted =>
          simp only [Option.bind_some]
          have negative : (parseJsonObject P (json.length + 1)
            (zeroedBlock granted descriptor.size) json type
              granted.2).Negative := parseJsonObject_negative _ _ _ _ _ _
          show succeeded ((parseJsonObject P (json.length + 1)
            (zeroedBlock granted descriptor.size) json type
            granted.2).map _) = _
          revert negative
          generalize parseJsonObject P (json.length + 1) (zeroedBlock granted descriptor.size) json type
            granted.2 = result
          intro negative
          cases result with
          | none => rfl
          | some outcome =>
            obtain ⟨heap', code | rest⟩ := outcome
            · exact dropped (negative heap' code rfl)
            · rfl

/-- **The parser returns 0 on a clear document** exactly where the document has a meaning, and then with
this meaning. -/
theorem metaParseJson_read (floats : P.floats.ReadsTokens) (valid : P.reg.FlagsValid)
    {doc : JsonDocument}
    (clear : doc.Clear P expected) (heap : BlockHeap) :
    succeeded (metaParseJson P expected heap doc.text) = doc.read P expected heap := by
  obtain ⟨before, value, behind⟩ := doc
  -- a text that does not start with a brace has no type
  have noBrace : (∀ c ∈ (value.textThen behind.bytes).head?, c ≠ charByte '\x7b') →
      succeeded (metaParseJson P expected heap (before.bytes ++ value.textThen behind.bytes)) = none :=
        by
    intro front
    rw [succeeded_metaParseJson, jsonGetObjectType, skipWhitespace_gap, value.front.visible,
      expectChar_none front]
    rfl
  have head : ∀ {c : UInt8} {s : List UInt8}, c ≠ charByte '\x7b' → ∀ d ∈ (c :: s).head?,
    d ≠ charByte '\x7b' := by
    intro c s other d head
    rwa [← Option.some.inj head]
  show succeeded (metaParseJson P expected heap (before.bytes ++ value.textThen behind.bytes)) = _
  cases value with
  | scalar token =>
    obtain ⟨c, tail, split⟩ := List.exists_cons_of_ne_nil token.nonempty
    obtain ⟨-, -, -, -, -, brace, -⟩ := isScalarByte_plain (token.plain c (split ▸ List.mem_cons_self))
    rw [Json.textThen, split] at noBrace
    rw [Json.textThen, split]
    exact noBrace (head brace)
  | string token => exact noBrace (head (by decide))
  | emptyArray inside => exact noBrace (head (by decide))
  | array inner items => exact noBrace (head (by decide))
  | emptyObject inside =>
    have brace : skipWhitespace (before.bytes ++ (Json.emptyObject inside).textThen behind.bytes) = _ :=
      (skipWhitespace_gap before).trans (skipWhitespace_cons (by decide))
    rw [succeeded_metaParseJson]
    refine Option.bind_eq_none_iff.mpr fun type _ => Option.bind_eq_none_iff.mpr fun descriptor found =>
      Option.bind_eq_none_iff.mpr fun granted _ => ?_
    rw [parseJsonObject_members found brace, parseMembers_empty]
    rfl
  | object inner members =>
    have brace : skipWhitespace (before.bytes ++ (Json.object inner members).textThen behind.bytes) =
      _ :=
      (skipWhitespace_gap before).trans (skipWhitespace_cons (by decide))
    rw [succeeded_metaParseJson, jsonGetObjectType_members clear.1]
    refine Option.bind_congr fun type named => Option.bind_congr fun descriptor found =>
      Option.bind_congr fun granted _ => ?_
    have parsed : ∀ heap, (parseMembers P (parseJsonObject P
        (before.bytes ++ (Json.object inner members).textThen behind.bytes).length) descriptor granted.2
          ((inner.bytes ++ members.textThen behind.bytes).length + 1) heap
            (members.textThen behind.bytes)).accepted =
              (members.read P descriptor heap granted.2).map fun heap => (heap, behind.bytes) := by
      intro heap
      refine parsesMembers floats valid members (clear.2 type descriptor named found)
        (valid type descriptor found) ?_ ?_
      · rw [Json.textThen, List.length_append, List.length_cons, List.length_append]
        omega
      · rw [List.length_append]
        omega
    rw [parseJsonObject_members found brace, parseMembers_gap, parsed, Option.map_map]
    rfl

end Documents

end Vaudou
