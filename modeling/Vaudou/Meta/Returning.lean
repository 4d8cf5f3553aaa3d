/-
**The parser returns**, unless it runs into undefined behaviour.

`ParseCall.Next` relates a call to the calls and to the rounds of loops that it leads to. Each has less of
the text before it, or is a step further down (`ParseCall.Next.decreases`), so there is no endless run. A
call that does not return is undefined, or leads to one that does not return (`ParseCall.returns_iff`).

* `metaParseJson_returns_iff` — on every text the parser returns if and only if no call that it reaches
  is undefined.
-/

import Vaudou.Meta.Accepting
import Vaudou.Meta.ArrayTexts
import Vaudou.Meta.Progress

namespace Vaudou

open Vaudou.Memory Vaudou.Text Relation

/-! ### What is reached -/

/-- **Good is what reaches nothing bad**, where every step leads down. -/
theorem good_iff_reached {α : Type} {next : α → α → Prop} {good bad : α → Prop}
    (down : WellFounded (flip next)) (step : ∀ a, good a ↔ ¬ bad a ∧ ∀ b, next a b → good b) (a : α) :
    good a ↔ ∀ b, ReflTransGen next a b → ¬ bad b := by
  induction a using down.induction with
  | _ a ih =>
    rw [step a]
    constructor
    · rintro ⟨here, later⟩ b reached
      rcases reached.cases_head with rfl | ⟨c, first, rest⟩
      · exact here
      · exact (ih c first).mp (later c first) b rest
    · intro none_
      exact ⟨none_ a .refl, fun b first =>
        (ih b first).mpr fun c rest => none_ c (.head first rest)⟩

/-! ### Calls -/

/-- A call of the parser, or a round of one of its loops. -/
inductive ParseCall where
  | document (expected : Nat) (heap : BlockHeap) (json : List UInt8)
  | object (heap : BlockHeap) (s : List UInt8) (type object : Nat)
  | members (descriptor : MetaDescriptor) (object : Nat) (heap : BlockHeap) (s : List UInt8)
  | field (field : MetaField) (heap : BlockHeap) (s : List UInt8) (object : Nat)
  | elements (field : MetaField) (object i : Nat) (heap : BlockHeap) (s : List UInt8)
  | fixed (field : MetaField) (i : Nat) (heap : BlockHeap) (s : List UInt8) (object : Nat)
  | intrusive (field : MetaField) (heap : BlockHeap) (s : List UInt8) (object : Nat)
  | value (type : Nat) (descriptor : MetaDescriptor) (heap : BlockHeap) (s : List UInt8) (object : Nat)

/-- How much there is to do: the text first, then how far down the call is. -/
def ParseCall.weight : ParseCall → Nat
  | .document _ _ json => 5 * json.length + 4
  | .object _ s _ _ => 5 * s.length
  | .members _ _ _ s => 5 * s.length
  | .field _ _ s _ => 5 * s.length + 2
  | .elements _ _ _ _ s => 5 * s.length + 3
  | .fixed _ _ _ s _ => 5 * s.length + 2
  | .intrusive _ _ s _ => 5 * s.length + 2
  | .value _ _ _ s _ => 5 * s.length + 1

section Calls

variable (P : MetaParser) (scan parse : UnsetKeys)

/-- The procedure of objects, with fuel for its text. -/
def objectProc : ParseProc := fun heap s type object =>
  parseJsonObjectWith P parse (s.length + 1) heap s type object

/-- **The call returns.** -/
def ParseCall.Returns : ParseCall → Prop
  | .document expected heap json => (metaParseJsonWith P scan parse expected heap json).isSome = true
  | .object heap s type out => (objectProc P parse heap s type out).isSome = true
  | .members descriptor out heap s =>
    (parseMembersWith P parse (objectProc P parse) descriptor out (s.length + 1) heap s).isSome = true
  | .field of_ heap s out => (parseJsonField P (objectProc P parse) of_ heap s out).isSome = true
  | .elements of_ out i heap s =>
    (parseElements P (objectProc P parse) of_ out (s.length + 1) i heap s).isSome = true
  | .fixed of_ i heap s out => (parseFixedElement P (objectProc P parse) of_ i heap s out).isSome = true
  | .intrusive of_ heap s out => (parseIntrusiveElement P (objectProc P parse) of_ heap s out).isSome = true
  | .value type descriptor heap s out =>
    (parseJsonDescriptor P (objectProc P parse) type (some descriptor) heap s out).isSome = true

/-- The key of a member, and what is behind its colon. -/
def memberKey (s : List UInt8) : Option (List UInt8 × List UInt8) :=
  let key := parseKey (parse (skipWhitespace s)) (skipWhitespace s)
  (expectChar (charByte ':') (skipWhitespace key.2)).map fun rest => (key.1, skipWhitespace rest)

/-- What a call leads to. -/
inductive ParseCall.Next : ParseCall → ParseCall → Prop where
  | document {expected heap json type descriptor granted} :
      jsonGetObjectTypeWith P scan expected json = some (.ok type) →
      metaGetDescriptor P.reg type = some descriptor → P.alloc.alloc heap descriptor.size = some granted →
        Next (.document expected heap json) (.object (zeroedBlock granted descriptor.size) json type granted.2)
  | object {heap s type object descriptor rest} : metaGetDescriptor P.reg type = some descriptor →
      expectChar (charByte '\x7b') (skipWhitespace s) = some rest →
        Next (.object heap s type object) (.members descriptor object heap rest)
  | unknown {descriptor object heap s name rest later} : memberKey parse s = some (name, rest) →
      findField descriptor name = none → jsonSkipValue rest = (true, later) →
        Next (.members descriptor object heap s) (.members descriptor object heap later)
  | field {descriptor object heap s name rest field} : memberKey parse s = some (name, rest) →
      findField descriptor name = some field →
        Next (.members descriptor object heap s) (.field field heap rest (object + field.offset))
  | member {descriptor object heap s name rest field heap' behind later} :
      memberKey parse s = some (name, rest) → findField descriptor name = some field →
      parseJsonField P (objectProc P parse) field heap rest (object + field.offset) =
        some (heap', .ok behind) →
      expectChar (charByte '\x7d') (skipWhitespace behind) = none →
      expectChar (charByte ',') (skipWhitespace behind) = some later →
        Next (.members descriptor object heap s) (.members descriptor object heap' later)
  | elements {field heap s object rest} : expectChar (charByte '[') (skipWhitespace s) = some rest →
      field.flags ≠ 0 → Next (.field field heap s object) (.elements field object 0 heap rest)
  | single {field heap s object descriptor} : expectChar (charByte '[') (skipWhitespace s) = none →
      metaGetDescriptor P.reg field.type = some descriptor →
        Next (.field field heap s object) (.value field.type descriptor heap (skipWhitespace s) object)
  | fixed {field object i heap s} : field.isFixedArray = true →
      Next (.elements field object i heap s) (.fixed field i heap (skipWhitespace s) object)
  | intrusive {field object i heap s heap' behind} :
      fixedPart P (objectProc P parse) field i heap (skipWhitespace s) object = some (heap', .ok behind) →
      field.isIntrusiveArray = true →
        Next (.elements field object i heap s) (.intrusive field heap' behind object)
  | element {field object i heap s heap' behind heap'' behind' later} :
      fixedPart P (objectProc P parse) field i heap (skipWhitespace s) object = some (heap', .ok behind) →
      intrusivePart P (objectProc P parse) field heap' behind object = some (heap'', .ok behind') →
      expectChar (charByte ']') behind' = none → expectChar (charByte ',') behind' = some later →
        Next (.elements field object i heap s) (.elements field object (i + 1) heap'' later)
  | fixedValue {field i heap s object descriptor} : i < field.fixedArrayLen →
      metaGetDescriptor P.reg field.type = some descriptor →
        Next (.fixed field i heap s object)
          (.value field.type descriptor heap s (object + field.offset + i * descriptor.size))
  | added {field heap s object descriptor place} : metaGetDescriptor P.reg field.type = some descriptor →
      fieldArrayAdd P field descriptor.size heap object = some place →
        Next (.intrusive field heap s object) (.value field.type descriptor place.1 s place.2)
  | nested {type descriptor heap s object} : peekChar (charByte '\x7b') s = true →
      Next (.value type descriptor heap s object) (.object heap s type object)

/-- **The call itself is undefined**: a descriptor that is not there is read, or a block that is null is
written. -/
inductive ParseCall.Undefined : ParseCall → Prop where
  | document {expected heap json type descriptor} :
      jsonGetObjectTypeWith P scan expected json = some (.ok type) →
      metaGetDescriptor P.reg type = some descriptor → P.alloc.alloc heap descriptor.size = none →
        Undefined (.document expected heap json)
  | fixed {field i heap s object} : i < field.fixedArrayLen → metaGetDescriptor P.reg field.type = none →
      Undefined (.fixed field i heap s object)
  | intrusive {field heap s object} : metaGetDescriptor P.reg field.type = none →
      Undefined (.intrusive field heap s object)
  | add {field heap s object descriptor} : metaGetDescriptor P.reg field.type = some descriptor →
      fieldArrayAdd P field descriptor.size heap object = none → Undefined (.intrusive field heap s object)
  | string {type descriptor heap s object key rest} : peekChar (charByte '\x7b') s = false →
      descriptor.typeClass = .string → descriptor.string = .cstring → parseJsonString s = some (key, rest) →
      P.alloc.alloc heap (key.length + 1) = none → Undefined (.value type descriptor heap s object)

end Calls

section Steps

variable {P : MetaParser} {scan parse : UnsetKeys} {call call' : ParseCall}

theorem memberKey_length {s name rest : List UInt8} (key : memberKey parse s = some (name, rest)) :
    rest.length < s.length := by
  obtain ⟨behind, colon, same⟩ := Option.map_eq_some_iff.mp key
  obtain ⟨-, rfl⟩ := Prod.mk.inj same
  exact Nat.lt_of_le_of_lt skipWhitespace_length (colon_length colon)

theorem objectProc_advances (parse : UnsetKeys) (floats : P.floats.Advances) : (objectProc P parse).Advances :=
  fun heap s type object => parseJsonObjectWith_advances floats (s.length + 1) heap s type object

theorem objectProc_agree (floats : P.floats.Advances) {n fuel : Nat} (enough : n < fuel) :
    (parseJsonObjectWith P parse fuel).Agree n (objectProc P parse) :=
  fun heap s type object short =>
    parseJsonObjectWith_fuel floats heap s type object (by omega) (Nat.lt_succ_self _)

/-- **Every step leads down.** -/
theorem ParseCall.Next.decreases (floats : P.floats.Advances) (next : call.Next P scan parse call') :
    call'.weight < call.weight := by
  have advances := objectProc_advances parse floats
  cases next with
  | document =>
    simp only [weight]
    omega
  | @object heap s type object descriptor rest _ opened =>
    have brace := expectChar_length opened
    have text := skipWhitespace_length (s := s)
    simp only [weight]
    omega
  | unknown key _ skipped =>
    have colon := memberKey_length key
    have left := jsonSkipValue_length skipped
    simp only [weight]
    omega
  | field key =>
    have colon := memberKey_length key
    simp only [weight]
    omega
  | @member descriptor object heap s name rest field heap' behind later key _ parsed _ separated =>
    have colon := memberKey_length key
    have left := parseJsonField_advances floats advances field heap rest _ heap' behind parsed
    have comma := expectChar_length separated
    have white := skipWhitespace_length (s := behind)
    simp only [weight]
    omega
  | @elements field heap s object rest opened =>
    have bracket := expectChar_length opened
    have text := skipWhitespace_length (s := s)
    simp only [weight]
    omega
  | @single field heap s =>
    have text := skipWhitespace_length (s := s)
    simp only [weight]
    omega
  | @fixed field object i heap s =>
    have text := skipWhitespace_length (s := s)
    simp only [weight]
    omega
  | @intrusive field object i heap s heap' behind parsed =>
    have text := skipWhitespace_length (s := s)
    have left := fixedPart_advances floats advances i heap _ object heap' behind parsed
    simp only [weight]
    omega
  | @element field object i heap s heap' behind heap'' behind' later parsed parsed' _ separated =>
    have text := skipWhitespace_length (s := s)
    have left := fixedPart_advances floats advances i heap _ object heap' behind parsed
    have left' := intrusivePart_advances floats advances heap' behind object heap'' behind' parsed'
    have comma := expectChar_length separated
    simp only [weight]
    omega
  | fixedValue =>
    simp only [weight]
    omega
  | added =>
    simp only [weight]
    omega
  | nested =>
    simp only [weight]
    omega

theorem next_wellFounded (floats : P.floats.Advances) : WellFounded (flip (ParseCall.Next P scan parse)) :=
  Subrelation.wf (fun next => next.decreases floats) (measure ParseCall.weight).wf

/-! ### What a call needs to return -/

/-- The call returns if and only if it is defined, and all it leads to returns. -/
def ParseCall.Local (P : MetaParser) (scan parse : UnsetKeys) (call : ParseCall) : Prop :=
  call.Returns P scan parse ↔ ¬ call.Undefined P scan ∧
    ∀ call', call.Next P scan parse call' → call'.Returns P scan parse

theorem isSome_andThen {result : ParseResult} {step : BlockHeap → List UInt8 → ParseResult} :
    (result.andThen step).isSome = true ↔ result.isSome = true ∧
      ∀ heap rest, result = some (heap, .ok rest) → (step heap rest).isSome = true := by
  cases result with
  | none => exact ⟨fun returns => (by cases returns), fun both => both.1⟩
  | some outcome =>
    obtain ⟨heap, code | rest⟩ := outcome
    · exact ⟨fun _ => ⟨rfl, fun _ _ same => nomatch same⟩, fun _ => rfl⟩
    · refine ⟨fun returns => ⟨rfl, fun heap' rest' same => ?_⟩, fun both => both.2 heap rest rfl⟩
      cases same
      exact returns

theorem parseMembersWith_proc (floats : P.floats.Advances) {descriptor : MetaDescriptor} {object fuel : Nat}
    {heap : BlockHeap} {s : List UInt8} (enough : s.length < fuel) :
    parseMembersWith P parse (objectProc P parse) descriptor object fuel heap s =
      parseMembersWith P parse (objectProc P parse) descriptor object (s.length + 1) heap s :=
  parseMembersWith_agree floats (objectProc_advances parse floats) (fun _ _ _ _ _ => rfl) heap s (Nat.le_refl _)
    enough (Nat.lt_succ_self _)

theorem parseElements_proc (floats : P.floats.Advances) {field : MetaField} {object fuel i : Nat}
    {heap : BlockHeap} {s : List UInt8} (enough : s.length < fuel) :
    parseElements P (objectProc P parse) field object fuel i heap s =
      parseElements P (objectProc P parse) field object (s.length + 1) i heap s :=
  parseElements_agree floats (objectProc_advances parse floats) (fun _ _ _ _ _ => rfl) i heap s (Nat.le_refl _)
    enough (Nat.lt_succ_self _)

theorem returns_document (expected : Nat) (heap : BlockHeap) (json : List UInt8) :
    (ParseCall.document expected heap json).Local P scan parse := by
  constructor
  · intro returns
    refine ⟨fun undefined => ?_, fun call' next => ?_⟩
    · cases undefined with
      | document scanned found refused =>
        simp only [ParseCall.Returns, metaParseJsonWith, scanned, found, refused, Option.bind_some,
          Option.bind_none, Option.isSome_none, Bool.false_eq_true] at returns
    · cases next with
      | document scanned found granted =>
        simp only [ParseCall.Returns, metaParseJsonWith, scanned, found, granted, Option.bind_some,
          Option.isSome_map] at returns
        exact returns
  · rintro ⟨defined, later⟩
    obtain ⟨outcome, scanned⟩ := jsonGetObjectTypeWith_some P scan expected json
    simp only [ParseCall.Returns, metaParseJsonWith, scanned, Option.bind_some]
    cases outcome with
    | error code => rfl
    | ok type =>
      simp only
      cases found : metaGetDescriptor P.reg type with
      | none => rfl
      | some descriptor =>
        simp only
        cases granted : P.alloc.alloc heap descriptor.size with
        | none => exact absurd (.document scanned found granted) defined
        | some block =>
          simp only [Option.bind_some, Option.isSome_map]
          exact later _ (.document scanned found granted)

/-- An object is parsed as its members. -/
theorem objectProc_members (floats : P.floats.Advances) {heap : BlockHeap} {s rest : List UInt8}
    {type object : Nat} {descriptor : MetaDescriptor} (found : metaGetDescriptor P.reg type = some descriptor)
    (opened : expectChar (charByte '\x7b') (skipWhitespace s) = some rest) :
    objectProc P parse heap s type object =
      parseMembersWith P parse (objectProc P parse) descriptor object (rest.length + 1) heap rest := by
  have text := skipWhitespace_length (s := s)
  have brace := expectChar_length opened
  have agree : (parseJsonObjectWith P parse s.length).Agree rest.length (objectProc P parse) :=
    objectProc_agree floats (by omega)
  simp only [objectProc, parseJsonObjectWith, found, opened]
  exact parseMembersWith_agree floats (parseJsonObjectWith_advances floats s.length) agree heap rest
    (Nat.le_refl _) (Nat.lt_succ_self _) (Nat.lt_succ_self _)

theorem objectProc_closed {heap : BlockHeap} {s : List UInt8} {type object : Nat} {descriptor : MetaDescriptor}
    (found : metaGetDescriptor P.reg type = some descriptor)
    (closed : expectChar (charByte '\x7b') (skipWhitespace s) = none) :
    objectProc P parse heap s type object = some (heap, .error metaInvalidJson) := by
  simp only [objectProc, parseJsonObjectWith, found, closed]

theorem objectProc_missing {heap : BlockHeap} {s : List UInt8} {type object : Nat}
    (missing : metaGetDescriptor P.reg type = none) :
    objectProc P parse heap s type object = some (heap, .error metaDescriptorNotFound) := by
  simp only [objectProc, parseJsonObjectWith, missing]

theorem returns_object (floats : P.floats.Advances) (heap : BlockHeap) (s : List UInt8) (type object : Nat) :
    (ParseCall.object heap s type object).Local P scan parse := by
  constructor
  · intro returns
    refine ⟨fun undefined => (by cases undefined), fun call' next => ?_⟩
    cases next with
    | object found opened =>
      simp only [ParseCall.Returns, objectProc_members floats found opened] at returns
      exact returns
  · rintro ⟨-, later⟩
    simp only [ParseCall.Returns]
    cases found : metaGetDescriptor P.reg type with
    | none =>
      rw [objectProc_missing found]
      rfl
    | some descriptor =>
      cases opened : expectChar (charByte '\x7b') (skipWhitespace s) with
      | none =>
        rw [objectProc_closed found opened]
        rfl
      | some rest =>
        rw [objectProc_members floats found opened]
        exact later _ (.object found opened)

theorem parseMembersWith_key (descriptor : MetaDescriptor) (object fuel : Nat) (heap : BlockHeap)
    (s : List UInt8) : parseMembersWith P parse (objectProc P parse) descriptor object (fuel + 1) heap s =
      match memberKey parse s with
      | none => some (heap, .error metaInvalidJson)
      | some (name, rest) =>
        match findField descriptor name with
        | none =>
          match jsonSkipValue rest with
          | (false, _) => some (heap, .error metaInvalidJson)
          | (true, later) =>
            parseMembersWith P parse (objectProc P parse) descriptor object fuel heap later
        | some field =>
          (parseJsonField P (objectProc P parse) field heap rest (object + field.offset)).andThen
            fun heap behind =>
              match expectChar (charByte '\x7d') (skipWhitespace behind) with
              | some rest => some (heap, .ok rest)
              | none =>
                match expectChar (charByte ',') (skipWhitespace behind) with
                | some later =>
                  parseMembersWith P parse (objectProc P parse) descriptor object fuel heap later
                | none => some (heap, .error metaInvalidJson) := by
  rw [parseMembersWith, memberKey]
  cases expectChar (charByte ':')
      (skipWhitespace (parseKey (parse (skipWhitespace s)) (skipWhitespace s)).2) with
  | none => rfl
  | some rest => rfl

theorem returns_members (floats : P.floats.Advances) (descriptor : MetaDescriptor) (object : Nat)
    (heap : BlockHeap) (s : List UInt8) :
    (ParseCall.members descriptor object heap s).Local P scan parse := by
  have advances := objectProc_advances parse floats
  constructor
  · intro returns
    refine ⟨fun undefined => (by cases undefined), fun call' next => ?_⟩
    simp only [ParseCall.Returns, parseMembersWith_key] at returns
    cases next with
    | unknown key found skipped =>
      have shorter := memberKey_length key
      have left := jsonSkipValue_length skipped
      simp only [key, found, skipped] at returns
      rwa [parseMembersWith_proc floats (by omega)] at returns
    | field key found =>
      simp only [key, found, isSome_andThen] at returns
      exact returns.1
    | @member _ _ _ _ _ rest field heap' behind later key found parsed notClosed separated =>
      have shorter := memberKey_length key
      have left := parseJsonField_advances floats advances field heap rest _ heap' behind parsed
      have comma := expectChar_length separated
      have white := skipWhitespace_length (s := behind)
      simp only [key, found, isSome_andThen] at returns
      have next := returns.2 heap' behind parsed
      simp only [notClosed, separated] at next
      rwa [parseMembersWith_proc floats (by omega)] at next
  · rintro ⟨-, later⟩
    simp only [ParseCall.Returns, parseMembersWith_key]
    cases key : memberKey parse s with
    | none => rfl
    | some member =>
      obtain ⟨name, rest⟩ := member
      have shorter := memberKey_length key
      simp only
      cases found : findField descriptor name with
      | none =>
        simp only
        cases skipped : jsonSkipValue rest with
        | mk comma behind =>
          cases comma with
          | false => rfl
          | true =>
            have left := jsonSkipValue_length skipped
            simp only
            rw [parseMembersWith_proc floats (by omega)]
            exact later _ (.unknown key found skipped)
      | some field =>
        simp only [isSome_andThen]
        refine ⟨later _ (.field key found), fun heap' behind parsed => ?_⟩
        have left := parseJsonField_advances floats advances field heap rest _ heap' behind parsed
        have white := skipWhitespace_length (s := behind)
        cases notClosed : expectChar (charByte '\x7d') (skipWhitespace behind) with
        | some rest => rfl
        | none =>
          cases separated : expectChar (charByte ',') (skipWhitespace behind) with
          | none => rfl
          | some next =>
            have comma := expectChar_length separated
            simp only
            rw [parseMembersWith_proc floats (by omega)]
            exact later _ (.member key found parsed notClosed separated)

theorem returns_field (field : MetaField) (heap : BlockHeap) (s : List UInt8) (object : Nat) :
    (ParseCall.field field heap s object).Local P scan parse := by
  constructor
  · intro returns
    refine ⟨fun undefined => (by cases undefined), fun call' next => ?_⟩
    cases next with
    | elements opened array =>
      simp only [ParseCall.Returns, parseJsonField, opened, array, if_false] at returns
      exact returns
    | single notArray found =>
      simp only [ParseCall.Returns, parseJsonField, notArray, found] at returns
      exact returns
  · rintro ⟨-, later⟩
    simp only [ParseCall.Returns, parseJsonField]
    cases opened : expectChar (charByte '[') (skipWhitespace s) with
    | some rest =>
      by_cases plain : field.flags = 0
      · simp only [plain, if_true]
        rfl
      · simp only [plain, if_false]
        exact later _ (.elements opened plain)
    | none =>
      cases found : metaGetDescriptor P.reg field.type with
      | none => rfl
      | some descriptor => exact later _ (.single opened found)

theorem returns_fixed (field : MetaField) (i : Nat) (heap : BlockHeap) (s : List UInt8) (object : Nat) :
    (ParseCall.fixed field i heap s object).Local P scan parse := by
  by_cases inside : i < field.fixedArrayLen
  · have unfolded : parseFixedElement P (objectProc P parse) field i heap s object =
        (metaGetDescriptor P.reg field.type).bind fun descriptor =>
          parseJsonDescriptor P (objectProc P parse) field.type (some descriptor) heap s
            (object + field.offset + i * descriptor.size) := if_neg (Nat.not_le.mpr inside)
    cases found : metaGetDescriptor P.reg field.type with
    | none =>
      refine ⟨fun returns => ?_, fun both => absurd (.fixed inside found) both.1⟩
      simp only [ParseCall.Returns, unfolded, found, Option.bind_none, Option.isSome_none,
        Bool.false_eq_true] at returns
    | some descriptor =>
      simp only [ParseCall.Local, ParseCall.Returns, unfolded, found, Option.bind_some]
      refine ⟨fun returns => ⟨fun undefined => ?_, fun call' next => ?_⟩, fun both => ?_⟩
      · cases undefined with
        | fixed _ missing =>
          rw [found] at missing
          cases missing
      · cases next with
        | fixedValue _ found' =>
          obtain rfl := Option.some.inj (found.symm.trans found')
          exact returns
      · exact both.2 _ (.fixedValue inside found)
  · have outside := Nat.not_lt.mp inside
    refine ⟨fun _ => ⟨fun undefined => ?_, fun call' next => ?_⟩, fun _ => ?_⟩
    · cases undefined with
      | fixed within_ => exact inside within_
    · cases next with
      | fixedValue within_ => exact absurd within_ inside
    · simp only [ParseCall.Returns, parseFixedElement, outside, if_true, Option.isSome_some]

theorem returns_intrusive (field : MetaField) (heap : BlockHeap) (s : List UInt8) (object : Nat) :
    (ParseCall.intrusive field heap s object).Local P scan parse := by
  constructor
  · intro returns
    refine ⟨fun undefined => ?_, fun call' next => ?_⟩
    · cases undefined with
      | intrusive missing =>
        simp only [ParseCall.Returns, parseIntrusiveElement, missing, Option.bind_none, Option.isSome_none,
          Bool.false_eq_true] at returns
      | add found failed =>
        simp only [ParseCall.Returns, parseIntrusiveElement, found, failed, Option.bind_some, Option.bind_none,
          Option.isSome_none, Bool.false_eq_true] at returns
    · cases next with
      | added found place =>
        simp only [ParseCall.Returns, parseIntrusiveElement, found, place, Option.bind_some] at returns
        exact returns
  · rintro ⟨defined, later⟩
    simp only [ParseCall.Returns, parseIntrusiveElement]
    cases found : metaGetDescriptor P.reg field.type with
    | none => exact absurd (.intrusive found) defined
    | some descriptor =>
      simp only [Option.bind_some]
      cases added : fieldArrayAdd P field descriptor.size heap object with
      | none => exact absurd (.add found added) defined
      | some place => exact later _ (.added found added)

theorem returns_value (type : Nat) (descriptor : MetaDescriptor) (heap : BlockHeap) (s : List UInt8)
    (object : Nat) : (ParseCall.value type descriptor heap s object).Local P scan parse := by
  by_cases brace : peekChar (charByte '\x7b') s = true
  · simp only [ParseCall.Local, ParseCall.Returns, parseJsonDescriptor, brace, if_true]
    refine ⟨fun returns => ⟨fun undefined => ?_, fun call' next => ?_⟩, fun both => both.2 _ (.nested brace)⟩
    · cases undefined with
      | string noBrace =>
        rw [brace] at noBrace
        cases noBrace
    · cases next with
      | nested => exact returns
  · rw [Bool.not_eq_true] at brace
    constructor
    · intro returns
      refine ⟨fun undefined => ?_, fun call' next => ?_⟩
      · cases undefined with
        | string _ kind cstring parsed refused =>
          simp only [ParseCall.Returns, parseJsonDescriptor, brace, kind, cstring, parseCString, parsed, refused,
            Option.bind_some, Option.map_none, Option.isSome_none, Bool.false_eq_true, if_false] at returns
      · cases next with
        | nested open_ =>
          rw [brace] at open_
          cases open_
    · rintro ⟨defined, -⟩
      simp only [ParseCall.Returns, parseJsonDescriptor, brace, Option.bind_some, Bool.false_eq_true, if_false]
      cases kind : descriptor.typeClass with
      | primitive | array | object => rfl
      | string =>
        cases which : descriptor.string with
        | slice => rfl
        | cstring =>
          simp only [parseCString]
          cases parsed : parseJsonString s with
          | none => rfl
          | some string =>
            obtain ⟨key, rest⟩ := string
            simp only
            cases granted : P.alloc.alloc heap (key.length + 1) with
            | none => exact absurd (.string brace kind which parsed granted) defined
            | some block => rfl

theorem returns_elements (floats : P.floats.Advances) (field : MetaField) (object i : Nat) (heap : BlockHeap)
    (s : List UInt8) : (ParseCall.elements field object i heap s).Local P scan parse := by
  have advances := objectProc_advances parse floats
  have text := skipWhitespace_length (s := s)
  constructor
  · intro returns
    simp only [ParseCall.Returns, parseElements_parts, isSome_andThen] at returns
    obtain ⟨fixed, returns⟩ := returns
    refine ⟨fun undefined => (by cases undefined), fun call' next => ?_⟩
    cases next with
    | fixed is =>
      rwa [fixedPart, if_pos is] at fixed
    | intrusive parsed is =>
      have intrusive := (returns _ _ parsed).1
      rwa [intrusivePart, if_pos is] at intrusive
    | @element _ _ _ _ _ heap' behind heap'' behind' later parsed parsed' notClosed separated =>
      have left := fixedPart_advances floats advances i heap _ object heap' behind parsed
      have left' := intrusivePart_advances floats advances heap' behind object heap'' behind' parsed'
      have comma := expectChar_length separated
      have next := (returns _ _ parsed).2 _ _ parsed'
      simp only [afterElement, notClosed, separated] at next
      rwa [parseElements_proc floats (by omega)] at next
  · rintro ⟨-, later⟩
    simp only [ParseCall.Returns, parseElements_parts, isSome_andThen]
    refine ⟨?_, fun heap' behind parsed => ⟨?_, fun heap'' behind' parsed' => ?_⟩⟩
    · unfold fixedPart
      split
      · next is => exact later _ (.fixed is)
      · rfl
    · unfold intrusivePart
      split
      · next is => exact later _ (.intrusive parsed is)
      · rfl
    · have left := fixedPart_advances floats advances i heap _ object heap' behind parsed
      have left' := intrusivePart_advances floats advances heap' behind object heap'' behind' parsed'
      unfold afterElement
      cases notClosed : expectChar (charByte ']') behind' with
      | some rest => rfl
      | none =>
        cases separated : expectChar (charByte ',') behind' with
        | none => rfl
        | some next =>
          have comma := expectChar_length separated
          simp only
          rw [parseElements_proc floats (by omega)]
          exact later _ (.element parsed parsed' notClosed separated)

/-- **A call returns** if and only if it is defined, and all it leads to returns. -/
theorem ParseCall.returns_iff (floats : P.floats.Advances) : ∀ call : ParseCall, call.Local P scan parse
  | .document expected heap json => returns_document expected heap json
  | .object heap s type out => returns_object floats heap s type out
  | .members descriptor out heap s => returns_members floats descriptor out heap s
  | .field of_ heap s out => returns_field of_ heap s out
  | .elements of_ out i heap s => returns_elements floats of_ out i heap s
  | .fixed of_ i heap s out => returns_fixed of_ i heap s out
  | .intrusive of_ heap s out => returns_intrusive of_ heap s out
  | .value type descriptor heap s out => returns_value type descriptor heap s out

/-- **The parser returns on every text** of which no call that it reaches is undefined. -/
theorem metaParseJson_returns_iff (floats : P.floats.Advances) (scan parse : UnsetKeys) (expected : Nat)
    (heap : BlockHeap) (json : List UInt8) :
    (∃ parsed, metaParseJsonWith P scan parse expected heap json = some parsed) ↔
      ∀ call, ReflTransGen (ParseCall.Next P scan parse) (.document expected heap json) call →
        ¬ call.Undefined P scan := by
  rw [← Option.isSome_iff_exists]
  exact good_iff_reached (next_wellFounded floats) (ParseCall.returns_iff floats) (.document expected heap json)

end Steps

/-! ### An array of another type -/

/-- A list of elements of no registered type. -/
def listTypes : List MetaDescriptor :=
  [⟨ascii "List", .object, 8, 0, .i8, [⟨ascii "a", 9, 0, 2, 0, none⟩], .cstring⟩]

def listParser : MetaParser :=
  ⟨64, zeroFloats, (metaRegisterAll (metaEmpty (.default .bump)) listTypes).1, .bump, []⟩

/-- A list with this value. -/
def listText (value : List UInt8) : List UInt8 :=
  ascii "\x7b\"--vd-meta-type-name--\":\"List\",\"a\":" ++ value ++ ascii "\x7d"

/-- Every unset key is empty. -/
def emptyKeys : UnsetKeys := fun _ => []

theorem zeroFloats_advances : zeroFloats.Advances := ⟨List.suffix_refl, List.suffix_refl⟩

/-- The parser returns on the list of 1, if nothing that it reaches is undefined. -/
theorem metaParseJson_returns_list :
    (∃ parsed, metaParseJsonWith listParser emptyKeys emptyKeys 0 ⟨fun _ => 0, []⟩ (listText (ascii "[1]")) =
        some parsed) ↔
      ∀ call, ReflTransGen (ParseCall.Next listParser emptyKeys emptyKeys)
        (.document 0 ⟨fun _ => 0, []⟩ (listText (ascii "[1]"))) call →
          ¬ call.Undefined listParser emptyKeys :=
  metaParseJson_returns_iff zeroFloats_advances emptyKeys emptyKeys 0 _ _

/-- **The descriptor that is not there is read** for an array, where a single value is refused. -/
theorem array_undefined :
    metaParseJsonWith listParser emptyKeys emptyKeys 0 ⟨fun _ => 0, []⟩ (listText (ascii "[1]")) = none ∧
      (metaParseJsonWith listParser emptyKeys emptyKeys 0 ⟨fun _ => 0, []⟩ (listText (ascii "1"))).map
        (·.ret) = some metaDescriptorNotFound := by
  refine ⟨Option.isNone_iff_eq_none.mp ?_, ?_⟩ <;> decide +kernel

end Vaudou
