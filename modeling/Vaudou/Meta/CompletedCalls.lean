/-
**What a completed call leads to.**

A call that is completed leads to one call, or to two: the first part of its text, and the rest of it. So a
fact about the calls of a run goes from the parts of a call to the call (`reaches_one`, `reaches_two`).
The parts are completed, and they are on every heap if the call is completed on it: what is read from the
text does not depend on the heap.
-/

import Vaudou.Meta.ArrayPlaces

namespace Vaudou

open Vaudou.Memory Vaudou.Text Relation

section Parts

variable {P : MetaParser} {scan parse : UnsetKeys} {heap heap' inner : BlockHeap}
  {s rest text name behind later : List UInt8}
  {out i type : Nat} {descriptor : MetaDescriptor} {of_ : MetaField} {call first second : ParseCall}

/-! ### Reached calls -/

/-- What is reached is the call itself, or is reached from what it leads to. -/
theorem reaches_iff {call' : ParseCall} : call.Reaches P scan parse call' ↔
    call' = call ∨ ∃ next, call.Next P scan parse next ∧ next.Reaches P scan parse call' := by
  constructor
  · intro reached
    rcases reached.cases_head with rfl | ⟨next, step, later⟩
    · exact Or.inl rfl
    · exact Or.inr ⟨next, step, later⟩
  · rintro (rfl | ⟨next, step, later⟩)
    · exact .refl
    · exact .head step later

theorem reaches_one (next : ∀ call', call.Next P scan parse call' ↔ call' = first) {call' : ParseCall} :
    call.Reaches P scan parse call' ↔ call' = call ∨ first.Reaches P scan parse call' := by
  rw [reaches_iff]
  refine or_congr_right ⟨fun ⟨below, step, later⟩ => ?_, fun reached => ⟨first, (next first).mpr rfl, reached⟩⟩
  rw [(next below).mp step] at later
  exact later

theorem reaches_two (next : ∀ call', call.Next P scan parse call' ↔ call' = first ∨ call' = second)
    {call' : ParseCall} : call.Reaches P scan parse call' ↔
      call' = call ∨ first.Reaches P scan parse call' ∨ second.Reaches P scan parse call' := by
  rw [reaches_iff]
  refine or_congr_right ⟨fun ⟨below, step, later⟩ => ?_, ?_⟩
  · rcases (next below).mp step with rfl | rfl
    · exact Or.inl later
    · exact Or.inr later
  · rintro (reached | reached)
    · exact ⟨first, (next first).mpr (Or.inl rfl), reached⟩
    · exact ⟨second, (next second).mpr (Or.inr rfl), reached⟩

/-! ### What is next -/

theorem next_object (found : metaGetDescriptor P.reg type = some descriptor)
    (opened : expectChar (charByte '\x7b') (skipWhitespace s) = some text) (call' : ParseCall) :
    (ParseCall.object heap s type out).Next P scan parse call' ↔ call' = .members descriptor out heap text := by
  refine ⟨fun next => ?_, fun same => same ▸ .object found opened⟩
  cases next with
  | object found' opened' =>
    rw [Option.some.inj (found.symm.trans found'), Option.some.inj (opened.symm.trans opened')]

theorem next_unknown (key : memberKey parse s = some (name, text)) (missing : findField descriptor name = none)
    (skipped : jsonSkipValue text = (true, later)) (call' : ParseCall) :
    (ParseCall.members descriptor out heap s).Next P scan parse call' ↔
      call' = .members descriptor out heap later := by
  refine ⟨fun next => ?_, fun same => same ▸ .unknown key missing skipped⟩
  cases next with
  | unknown key' missing' skipped' =>
    obtain ⟨rfl, rfl⟩ := Prod.mk.inj (Option.some.inj (key.symm.trans key'))
    rw [(Prod.mk.inj (skipped.symm.trans skipped')).2]
  | field key' found | member key' found =>
    obtain ⟨rfl, rfl⟩ := Prod.mk.inj (Option.some.inj (key.symm.trans key'))
    cases missing.symm.trans found

theorem next_last (key : memberKey parse s = some (name, text)) (found : findField descriptor name = some of_)
    (parsed : (ParseCall.field of_ heap text (out + of_.offset)).Completes P parse inner behind)
    (closed : expectChar (charByte '\x7d') (skipWhitespace behind) = some rest) (call' : ParseCall) :
    (ParseCall.members descriptor out heap s).Next P scan parse call' ↔
      call' = .field of_ heap text (out + of_.offset) := by
  refine ⟨fun next => ?_, fun same => same ▸ .field key found⟩
  cases next with
  | unknown key' missing =>
    obtain ⟨rfl, rfl⟩ := Prod.mk.inj (Option.some.inj (key.symm.trans key'))
    cases missing.symm.trans found
  | field key' found' =>
    obtain ⟨rfl, rfl⟩ := Prod.mk.inj (Option.some.inj (key.symm.trans key'))
    rw [Option.some.inj (found.symm.trans found')]
  | member key' found' parsed' closed' =>
    obtain ⟨rfl, rfl⟩ := Prod.mk.inj (Option.some.inj (key.symm.trans key'))
    obtain rfl := Option.some.inj (found.symm.trans found')
    cases parsed.symm.trans parsed'
    cases closed.symm.trans closed'

theorem next_member (key : memberKey parse s = some (name, text)) (found : findField descriptor name = some of_)
    (parsed : (ParseCall.field of_ heap text (out + of_.offset)).Completes P parse inner behind)
    (closed : expectChar (charByte '\x7d') (skipWhitespace behind) = none)
    (separated : expectChar (charByte ',') (skipWhitespace behind) = some later) (call' : ParseCall) :
    (ParseCall.members descriptor out heap s).Next P scan parse call' ↔
      call' = .field of_ heap text (out + of_.offset) ∨ call' = .members descriptor out inner later := by
  constructor
  · intro next
    cases next with
    | unknown key' missing =>
      obtain ⟨rfl, rfl⟩ := Prod.mk.inj (Option.some.inj (key.symm.trans key'))
      cases missing.symm.trans found
    | field key' found' =>
      obtain ⟨rfl, rfl⟩ := Prod.mk.inj (Option.some.inj (key.symm.trans key'))
      exact Or.inl (by rw [Option.some.inj (found.symm.trans found')])
    | member key' found' parsed' closed' separated' =>
      obtain ⟨rfl, rfl⟩ := Prod.mk.inj (Option.some.inj (key.symm.trans key'))
      obtain rfl := Option.some.inj (found.symm.trans found')
      cases parsed.symm.trans parsed'
      exact Or.inr (by rw [Option.some.inj (separated.symm.trans separated')])
  · rintro (rfl | rfl)
    · exact .field key found
    · exact .member key found parsed closed separated

theorem next_literal (opened : expectChar (charByte '[') (skipWhitespace s) = some text) (flags : of_.flags ≠ 0)
    (call' : ParseCall) :
    (ParseCall.field of_ heap s out).Next P scan parse call' ↔ call' = .elements of_ out 0 heap text := by
  refine ⟨fun next => ?_, fun same => same ▸ .elements opened flags⟩
  cases next with
  | elements opened' => rw [Option.some.inj (opened.symm.trans opened')]
  | single plain => cases opened.symm.trans plain

theorem next_single (plain : expectChar (charByte '[') (skipWhitespace s) = none)
    (found : metaGetDescriptor P.reg of_.type = some descriptor) (call' : ParseCall) :
    (ParseCall.field of_ heap s out).Next P scan parse call' ↔
      call' = .value of_.type descriptor heap (skipWhitespace s) out := by
  refine ⟨fun next => ?_, fun same => same ▸ .single plain found⟩
  cases next with
  | elements opened => cases plain.symm.trans opened
  | single plain' found' => rw [Option.some.inj (found.symm.trans found')]

/-- A round of an array literal starts with an element. -/
def ParseCall.ElementOf (of_ : MetaField) (i : Nat) (heap inner : BlockHeap) (s behind : List UInt8) (out : Nat)
    (call' : ParseCall) : Prop :=
  (of_.isFixedArray = true ∧ call' = .fixed of_ i heap (skipWhitespace s) out) ∨
    (of_.isIntrusiveArray = true ∧ call' = .intrusive of_ inner behind out)

theorem next_element_last {behind' : List UInt8} {heap'' : BlockHeap}
    (fixed : fixedPart P (objectProc P parse) of_ i heap (skipWhitespace s) out = some (inner, .ok behind))
    (intrusive : intrusivePart P (objectProc P parse) of_ inner behind out = some (heap'', .ok behind'))
    (closed : expectChar (charByte ']') behind' = some rest) (call' : ParseCall) :
    (ParseCall.elements of_ out i heap s).Next P scan parse call' ↔
      ParseCall.ElementOf of_ i heap inner s behind out call' := by
  constructor
  · intro next
    cases next with
    | fixed is => exact Or.inl ⟨is, rfl⟩
    | intrusive fixed' is =>
      cases fixed.symm.trans fixed'
      exact Or.inr ⟨is, rfl⟩
    | element fixed' intrusive' open_ =>
      cases fixed.symm.trans fixed'
      cases intrusive.symm.trans intrusive'
      cases closed.symm.trans open_
  · rintro (⟨is, rfl⟩ | ⟨is, rfl⟩)
    · exact .fixed is
    · exact .intrusive fixed is

theorem next_element {behind' : List UInt8} {heap'' : BlockHeap}
    (fixed : fixedPart P (objectProc P parse) of_ i heap (skipWhitespace s) out = some (inner, .ok behind))
    (intrusive : intrusivePart P (objectProc P parse) of_ inner behind out = some (heap'', .ok behind'))
    (open_ : expectChar (charByte ']') behind' = none) (separated : expectChar (charByte ',') behind' = some later)
    (call' : ParseCall) :
    (ParseCall.elements of_ out i heap s).Next P scan parse call' ↔
      ParseCall.ElementOf of_ i heap inner s behind out call' ∨ call' = .elements of_ out (i + 1) heap'' later := by
  constructor
  · intro next
    cases next with
    | fixed is => exact Or.inl (Or.inl ⟨is, rfl⟩)
    | intrusive fixed' is =>
      cases fixed.symm.trans fixed'
      exact Or.inl (Or.inr ⟨is, rfl⟩)
    | element fixed' intrusive' open' separated' =>
      cases fixed.symm.trans fixed'
      cases intrusive.symm.trans intrusive'
      cases separated.symm.trans separated'
      exact Or.inr rfl
  · rintro ((⟨is, rfl⟩ | ⟨is, rfl⟩) | rfl)
    · exact .fixed is
    · exact .intrusive fixed is
    · exact .element fixed intrusive open_ separated

theorem next_fixedValue (inside : i < of_.fixedArrayLen)
    (found : metaGetDescriptor P.reg of_.type = some descriptor) (call' : ParseCall) :
    (ParseCall.fixed of_ i heap s out).Next P scan parse call' ↔
      call' = .value of_.type descriptor heap s (out + of_.offset + i * descriptor.size) := by
  refine ⟨fun next => ?_, fun same => same ▸ .fixedValue inside found⟩
  cases next with
  | fixedValue inside' found' => rw [Option.some.inj (found.symm.trans found')]

theorem next_added {place : BlockHeap × Nat} (found : metaGetDescriptor P.reg of_.type = some descriptor)
    (added : fieldArrayAdd P of_ descriptor.size heap out = some place) (call' : ParseCall) :
    (ParseCall.intrusive of_ heap s out).Next P scan parse call' ↔
      call' = .value of_.type descriptor place.1 s place.2 := by
  refine ⟨fun next => ?_, fun same => same ▸ .added found added⟩
  cases next with
  | added found' added' =>
    obtain rfl := Option.some.inj (found.symm.trans found')
    rw [Option.some.inj (added.symm.trans added')]

theorem next_nested (nested : peekChar (charByte '\x7b') s = true) (call' : ParseCall) :
    (ParseCall.value type descriptor heap s out).Next P scan parse call' ↔ call' = .object heap s type out := by
  refine ⟨fun next => ?_, fun same => same ▸ .nested nested⟩
  cases next with
  | nested => rfl

/-- What is no object leads to nothing. -/
theorem reaches_value (plain : peekChar (charByte '\x7b') s = false) {call' : ParseCall} :
    (ParseCall.value type descriptor heap s out).Reaches P scan parse call' ↔
      call' = .value type descriptor heap s out := by
  rw [reaches_iff]
  refine or_iff_left ?_
  rintro ⟨next, step, -⟩
  cases step with
  | nested nested => cases plain.symm.trans nested

/-! ### From the parts to the call -/

theorem object_completes (floats : P.floats.Advances) (found : metaGetDescriptor P.reg type = some descriptor)
    (opened : expectChar (charByte '\x7b') (skipWhitespace s) = some text)
    (members : (ParseCall.members descriptor out heap text).Completes P parse heap' rest) :
    (ParseCall.object heap s type out).Completes P parse heap' rest := by
  simp only [ParseCall.Completes] at members ⊢
  rw [objectProc_members floats found opened]
  exact members

theorem unknown_completes (floats : P.floats.Advances) (key : memberKey parse s = some (name, text))
    (missing : findField descriptor name = none) (skipped : jsonSkipValue text = (true, later))
    (members : (ParseCall.members descriptor out heap later).Completes P parse heap' rest) :
    (ParseCall.members descriptor out heap s).Completes P parse heap' rest := by
  have shorter := memberKey_length key
  have left := jsonSkipValue_length skipped
  simp only [ParseCall.Completes, parseMembersWith_key, key, missing, skipped]
  rw [parseMembersWith_proc floats (by omega)]
  exact members

theorem last_completes (key : memberKey parse s = some (name, text)) (found : findField descriptor name = some of_)
    (parsed : (ParseCall.field of_ heap text (out + of_.offset)).Completes P parse inner behind)
    (closed : expectChar (charByte '\x7d') (skipWhitespace behind) = some rest) :
    (ParseCall.members descriptor out heap s).Completes P parse inner rest := by
  simp only [ParseCall.Completes, parseMembersWith_key, key, found] at parsed ⊢
  rw [parsed]
  simp only [ParseResult.andThen, Option.bind_some, closed]

theorem member_completes (floats : P.floats.Advances) (key : memberKey parse s = some (name, text))
    (found : findField descriptor name = some of_)
    (parsed : (ParseCall.field of_ heap text (out + of_.offset)).Completes P parse inner behind)
    (closed : expectChar (charByte '\x7d') (skipWhitespace behind) = none)
    (separated : expectChar (charByte ',') (skipWhitespace behind) = some later)
    (members : (ParseCall.members descriptor out inner later).Completes P parse heap' rest) :
    (ParseCall.members descriptor out heap s).Completes P parse heap' rest := by
  have shorter := memberKey_length key
  have left := parseJsonField_advances floats (objectProc_advances parse floats) of_ heap text _ inner behind parsed
  have white := skipWhitespace_length (s := behind)
  have comma := expectChar_length separated
  simp only [ParseCall.Completes] at parsed
  simp only [ParseCall.Completes, parseMembersWith_key, key, found]
  rw [parsed]
  simp only [ParseResult.andThen, Option.bind_some, closed, separated]
  rw [parseMembersWith_proc floats (by omega)]
  exact members

theorem literal_completes (opened : expectChar (charByte '[') (skipWhitespace s) = some text)
    (flags : of_.flags ≠ 0) (elements : (ParseCall.elements of_ out 0 heap text).Completes P parse heap' rest) :
    (ParseCall.field of_ heap s out).Completes P parse heap' rest := by
  simp only [ParseCall.Completes, parseJsonField, opened, if_neg flags] at elements ⊢
  exact elements

theorem single_completes (plain : expectChar (charByte '[') (skipWhitespace s) = none)
    (found : metaGetDescriptor P.reg of_.type = some descriptor)
    (value : (ParseCall.value of_.type descriptor heap (skipWhitespace s) out).Completes P parse heap' rest) :
    (ParseCall.field of_ heap s out).Completes P parse heap' rest := by
  simp only [ParseCall.Completes, parseJsonField, plain, found] at value ⊢
  exact value

theorem element_last_completes
    (fixed : fixedPart P (objectProc P parse) of_ i heap (skipWhitespace s) out = some (inner, .ok behind))
    (intrusive : intrusivePart P (objectProc P parse) of_ inner behind out = some (heap', .ok later))
    (closed : expectChar (charByte ']') later = some rest) :
    (ParseCall.elements of_ out i heap s).Completes P parse heap' rest := by
  simp only [ParseCall.Completes, parseElements_parts, fixed, ParseResult.andThen, Option.bind_some, intrusive,
    afterElement, closed]

theorem element_completes (floats : P.floats.Advances) {behind' : List UInt8} {heap'' : BlockHeap}
    (fixed : fixedPart P (objectProc P parse) of_ i heap (skipWhitespace s) out = some (inner, .ok behind))
    (intrusive : intrusivePart P (objectProc P parse) of_ inner behind out = some (heap'', .ok behind'))
    (open_ : expectChar (charByte ']') behind' = none) (separated : expectChar (charByte ',') behind' = some later)
    (elements : (ParseCall.elements of_ out (i + 1) heap'' later).Completes P parse heap' rest) :
    (ParseCall.elements of_ out i heap s).Completes P parse heap' rest := by
  have advances := objectProc_advances parse floats
  have white := skipWhitespace_length (s := s)
  have left := fixedPart_advances floats advances i heap _ out inner behind fixed
  have left' := intrusivePart_advances floats advances inner behind out heap'' behind' intrusive
  have comma := expectChar_length separated
  simp only [ParseCall.Completes, parseElements_parts, fixed, ParseResult.andThen, Option.bind_some, intrusive,
    afterElement, open_, separated]
  rw [parseElements_proc floats (by omega)]
  exact elements

theorem fixed_completes (inside : i < of_.fixedArrayLen)
    (found : metaGetDescriptor P.reg of_.type = some descriptor)
    (value : (ParseCall.value of_.type descriptor heap s (out + of_.offset + i * descriptor.size)).Completes P parse
      heap' rest) : (ParseCall.fixed of_ i heap s out).Completes P parse heap' rest := by
  simp only [ParseCall.Completes, parseFixedElement, if_neg (Nat.not_le.mpr inside), found, Option.bind_some]
    at value ⊢
  exact value

theorem intrusive_completes {place : BlockHeap × Nat} (found : metaGetDescriptor P.reg of_.type = some descriptor)
    (added : fieldArrayAdd P of_ descriptor.size heap out = some place)
    (value : (ParseCall.value of_.type descriptor place.1 s place.2).Completes P parse heap' rest) :
    (ParseCall.intrusive of_ heap s out).Completes P parse heap' rest := by
  simp only [ParseCall.Completes, parseIntrusiveElement, found, added, Option.bind_some] at value ⊢
  exact value

theorem nested_completes (nested : peekChar (charByte '\x7b') s = true)
    (object : (ParseCall.object heap s type out).Completes P parse heap' rest) :
    (ParseCall.value type descriptor heap s out).Completes P parse heap' rest := by
  simp only [ParseCall.Completes, parseJsonDescriptor, nested, if_true] at object ⊢
  exact object

end Parts

end Vaudou
