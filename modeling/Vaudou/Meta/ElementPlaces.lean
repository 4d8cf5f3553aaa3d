/-
**Where the elements of arrays are put.**

`vd_meta__parse_json_object` passes the address of the field on, and the procedures of arrays add the offset
once more. So the elements are in their places where the offset is 0: `ParseCall.InPlace` says this of an
array literal, and that the pointer of an intrusive array is null as its literal starts.

* `ParseCall.Placed.reached` — in a run in which all literals are in place every call has its place: the bytes
  that it is to write belong to the heap, and an array holds as many elements as were parsed.
* `ParseCall.Placed.leaves` — what a completed call leaves, by induction on the text that is left.
-/

import Vaudou.Meta.Appending
import Vaudou.Meta.Provenance
import Vaudou.Meta.Returning

namespace Vaudou

open Vaudou.Memory Vaudou.Text Relation

/-! ### Registries -/

/-- The size of a type. -/
def MetaRegistry.typeSize (reg : MetaRegistry) (type : Nat) : Nat :=
  (metaGetDescriptor reg type).elim 0 (·.size)

/-- The bytes of a field in its object. -/
def MetaField.extent (reg : MetaRegistry) (field : MetaField) : Nat :=
  if field.isFixedArray then field.fixedArrayLen * reg.typeSize field.type
  else if field.isIntrusiveArray then 8
  else reg.typeSize field.type

/-- The procedures of an array field. -/
def MetaParser.props (P : MetaParser) (field : MetaField) : IntrusiveArrayProps :=
  field.intrusiveProps.getD P.reg.props

/-- **The types are laid out as the compiler does it**: fields are inside of their objects, values inside of
their types, and the procedures of arrays append, as long as there is room. -/
structure MetaParser.Laid (P : MetaParser) where
  room : MetaField → Nat → Prop
  flags : P.reg.FlagsValid
  inside : ∀ {type descriptor field}, metaGetDescriptor P.reg type = some descriptor →
    field ∈ descriptor.fields → field.offset + field.extent P.reg ≤ descriptor.size
  primitive : ∀ {type descriptor}, metaGetDescriptor P.reg type = some descriptor →
    descriptor.typeClass = .primitive → descriptor.primitive.width ≤ descriptor.size
  string : ∀ {type descriptor}, metaGetDescriptor P.reg type = some descriptor →
    descriptor.typeClass = .string → 8 ≤ descriptor.size
  appends : ∀ (field : MetaField) (type : MetaDescriptor), P.reg.HasField field →
    field.isIntrusiveArray = true → metaGetDescriptor P.reg field.type = some type →
      (P.props field).Appends type.size (room field)

/-- **An array literal is in place**: the offset of its field is 0, so that it does not matter how often it is
added; and an intrusive array has room, and is empty as the literal starts. What is no array literal is no
longer than its field. -/
def ParseCall.InPlace (reg : MetaRegistry) (room : MetaField → Nat → Prop) : ParseCall → Prop
  | .field of_ _ s _ =>
    expectChar (charByte '[') (skipWhitespace s) = none → reg.typeSize of_.type ≤ of_.extent reg
  | .elements of_ out i heap _ => of_.offset = 0 ∧
    (of_.isIntrusiveArray = true → room of_ i ∧ (i = 0 → heap.mem.readNat out 8 = 0))
  | _ => True

/-! ### Calls that are completed -/

section Completed

variable (P : MetaParser) (scan parse : UnsetKeys)

/-- **The call is completed** with code 0: the heap, and the text that is left. -/
def ParseCall.Completes : ParseCall → BlockHeap → List UInt8 → Prop
  | .document _ _ _, _, _ => False
  | .object heap s type out, heap', rest => objectProc P parse heap s type out = some (heap', .ok rest)
  | .members descriptor out heap s, heap', rest =>
    parseMembersWith P parse (objectProc P parse) descriptor out (s.length + 1) heap s = some (heap', .ok rest)
  | .field of_ heap s out, heap', rest =>
    parseJsonField P (objectProc P parse) of_ heap s out = some (heap', .ok rest)
  | .elements of_ out i heap s, heap', rest =>
    parseElements P (objectProc P parse) of_ out (s.length + 1) i heap s = some (heap', .ok rest)
  | .fixed of_ i heap s out, heap', rest =>
    parseFixedElement P (objectProc P parse) of_ i heap s out = some (heap', .ok rest)
  | .intrusive of_ heap s out, heap', rest =>
    parseIntrusiveElement P (objectProc P parse) of_ heap s out = some (heap', .ok rest)
  | .value type descriptor heap s out, heap', rest =>
    parseJsonDescriptor P (objectProc P parse) type (some descriptor) heap s out = some (heap', .ok rest)

/-- **A field that the text names**, in the object whose members these are. -/
inductive ParseCall.Names (descriptor : MetaDescriptor) (out : Nat) :
    BlockHeap → List UInt8 → MetaField → Prop where
  | here {heap s of_ rest} :
      ParseCall.Next P scan parse (.members descriptor out heap s) (.field of_ heap rest (out + of_.offset)) →
        Names descriptor out heap s of_
  | later {heap s heap' s' of_} :
      ParseCall.Next P scan parse (.members descriptor out heap s) (.members descriptor out heap' s') →
        Names descriptor out heap' s' of_ → Names descriptor out heap s of_

variable {P scan parse} {heap heap' : BlockHeap} {s rest : List UInt8} {out i type : Nat}
  {descriptor : MetaDescriptor} {field : MetaField}

theorem andThen_ok {result : ParseResult} {step : BlockHeap → List UInt8 → ParseResult}
    (ok : result.andThen step = some (heap', .ok rest)) :
    ∃ heap s, result = some (heap, .ok s) ∧ step heap s = some (heap', .ok rest) := by
  cases result with
  | none => cases ok
  | some outcome =>
    obtain ⟨heap, code | s⟩ := outcome
    · cases ok
    · exact ⟨heap, s, rfl, ok⟩

theorem completes_object (floats : P.floats.Advances)
    (completes : (ParseCall.object heap s type out).Completes P parse heap' rest) :
    ∃ descriptor text, metaGetDescriptor P.reg type = some descriptor ∧
      expectChar (charByte '\x7b') (skipWhitespace s) = some text ∧
        (ParseCall.members descriptor out heap text).Completes P parse heap' rest := by
  simp only [ParseCall.Completes] at completes
  cases found : metaGetDescriptor P.reg type with
  | none =>
    rw [objectProc_missing found] at completes
    cases completes
  | some descriptor =>
    cases opened : expectChar (charByte '\x7b') (skipWhitespace s) with
    | none =>
      rw [objectProc_closed found opened] at completes
      cases completes
    | some text =>
      rw [objectProc_members floats found opened] at completes
      exact ⟨descriptor, text, rfl, rfl, completes⟩

theorem completes_members (floats : P.floats.Advances)
    (completes : (ParseCall.members descriptor out heap s).Completes P parse heap' rest) :
    ∃ name text, memberKey parse s = some (name, text) ∧
      ((findField descriptor name = none ∧ ∃ later, jsonSkipValue text = (true, later) ∧
          (ParseCall.members descriptor out heap later).Completes P parse heap' rest) ∨
        ∃ field inner behind, findField descriptor name = some field ∧
          (ParseCall.field field heap text (out + field.offset)).Completes P parse inner behind ∧
          ((expectChar (charByte '\x7d') (skipWhitespace behind) = some rest ∧ inner = heap') ∨
            ∃ later, expectChar (charByte '\x7d') (skipWhitespace behind) = none ∧
              expectChar (charByte ',') (skipWhitespace behind) = some later ∧
                (ParseCall.members descriptor out inner later).Completes P parse heap' rest)) := by
  have advances := objectProc_advances parse floats
  simp only [ParseCall.Completes, parseMembersWith_key] at completes
  cases key : memberKey parse s with
  | none =>
    rw [key] at completes
    cases completes
  | some member =>
    obtain ⟨name, text⟩ := member
    have shorter := memberKey_length key
    rw [key] at completes
    refine ⟨name, text, rfl, ?_⟩
    simp only at completes
    cases found : findField descriptor name with
    | none =>
      rw [found] at completes
      simp only at completes
      cases skipped : jsonSkipValue text with
      | mk comma later =>
        rw [skipped] at completes
        cases comma with
        | false => cases completes
        | true =>
          have left := jsonSkipValue_length skipped
          simp only at completes
          rw [parseMembersWith_proc floats (by omega)] at completes
          exact Or.inl ⟨rfl, later, rfl, completes⟩
    | some field =>
      rw [found] at completes
      obtain ⟨inner, behind, parsed, after⟩ := andThen_ok completes
      refine Or.inr ⟨field, inner, behind, rfl, parsed, ?_⟩
      have left := parseJsonField_advances floats advances field heap text _ inner behind parsed
      have white := skipWhitespace_length (s := behind)
      cases closed : expectChar (charByte '\x7d') (skipWhitespace behind) with
      | some r =>
        rw [closed] at after
        cases after
        exact Or.inl ⟨rfl, rfl⟩
      | none =>
        rw [closed] at after
        cases separated : expectChar (charByte ',') (skipWhitespace behind) with
        | none =>
          rw [separated] at after
          cases after
        | some later =>
          rw [separated] at after
          have comma := expectChar_length separated
          simp only at after
          rw [parseMembersWith_proc floats (by omega)] at after
          exact Or.inr ⟨later, rfl, rfl, after⟩

theorem completes_field (completes : (ParseCall.field field heap s out).Completes P parse heap' rest) :
    (∃ text, expectChar (charByte '[') (skipWhitespace s) = some text ∧ field.flags ≠ 0 ∧
        (ParseCall.elements field out 0 heap text).Completes P parse heap' rest) ∨
      (expectChar (charByte '[') (skipWhitespace s) = none ∧ ∃ descriptor,
        metaGetDescriptor P.reg field.type = some descriptor ∧
          (ParseCall.value field.type descriptor heap (skipWhitespace s) out).Completes P parse heap' rest) := by
  simp only [ParseCall.Completes, parseJsonField] at completes
  cases opened : expectChar (charByte '[') (skipWhitespace s) with
  | some text =>
    rw [opened] at completes
    by_cases plain : field.flags = 0
    · simp only [plain, if_true] at completes
      cases completes
    · simp only [plain, if_false] at completes
      exact Or.inl ⟨text, rfl, plain, completes⟩
  | none =>
    rw [opened] at completes
    cases found : metaGetDescriptor P.reg field.type with
    | none =>
      rw [found] at completes
      cases completes
    | some descriptor =>
      rw [found] at completes
      exact Or.inr ⟨rfl, descriptor, rfl, completes⟩

theorem completes_elements (floats : P.floats.Advances)
    (completes : (ParseCall.elements field out i heap s).Completes P parse heap' rest) :
    ∃ heap₁ s₁ heap₂ s₂,
      fixedPart P (objectProc P parse) field i heap (skipWhitespace s) out = some (heap₁, .ok s₁) ∧
      intrusivePart P (objectProc P parse) field heap₁ s₁ out = some (heap₂, .ok s₂) ∧
      ((expectChar (charByte ']') s₂ = some rest ∧ heap₂ = heap') ∨
        ∃ later, expectChar (charByte ']') s₂ = none ∧ expectChar (charByte ',') s₂ = some later ∧
          (ParseCall.elements field out (i + 1) heap₂ later).Completes P parse heap' rest) := by
  have advances := objectProc_advances parse floats
  have white := skipWhitespace_length (s := s)
  simp only [ParseCall.Completes, parseElements_parts] at completes
  obtain ⟨heap₁, s₁, fixed, completes⟩ := andThen_ok completes
  obtain ⟨heap₂, s₂, intrusive, completes⟩ := andThen_ok completes
  have left := fixedPart_advances floats advances i heap _ out heap₁ s₁ fixed
  have left' := intrusivePart_advances floats advances heap₁ s₁ out heap₂ s₂ intrusive
  refine ⟨heap₁, s₁, heap₂, s₂, fixed, intrusive, ?_⟩
  unfold afterElement at completes
  cases closed : expectChar (charByte ']') s₂ with
  | some r =>
    rw [closed] at completes
    cases completes
    exact Or.inl ⟨rfl, rfl⟩
  | none =>
    rw [closed] at completes
    cases separated : expectChar (charByte ',') s₂ with
    | none =>
      rw [separated] at completes
      cases completes
    | some later =>
      rw [separated] at completes
      have comma := expectChar_length separated
      simp only at completes
      rw [parseElements_proc floats (by omega)] at completes
      exact Or.inr ⟨later, rfl, rfl, completes⟩

theorem fixedPart_plain {parseObject : ParseProc} (plain : field.isFixedArray = false) :
    fixedPart P parseObject field i heap s out = some (heap, .ok s) := by
  rw [fixedPart, plain, if_neg Bool.false_ne_true]

theorem intrusivePart_plain {parseObject : ParseProc} (plain : field.isIntrusiveArray = false) :
    intrusivePart P parseObject field heap s out = some (heap, .ok s) := by
  rw [intrusivePart, plain, if_neg Bool.false_ne_true]

theorem completes_fixed (completes : (ParseCall.fixed field i heap s out).Completes P parse heap' rest) :
    i < field.fixedArrayLen ∧ ∃ descriptor, metaGetDescriptor P.reg field.type = some descriptor ∧
      (ParseCall.value field.type descriptor heap s (out + field.offset + i * descriptor.size)).Completes P parse
        heap' rest := by
  simp only [ParseCall.Completes, parseFixedElement] at completes
  by_cases outside : field.fixedArrayLen ≤ i
  · rw [if_pos outside] at completes
    cases completes
  · rw [if_neg outside] at completes
    obtain ⟨descriptor, found, parsed⟩ := Option.bind_eq_some_iff.mp completes
    exact ⟨Nat.lt_of_not_le outside, descriptor, found, parsed⟩

theorem completes_intrusive (completes : (ParseCall.intrusive field heap s out).Completes P parse heap' rest) :
    ∃ descriptor added, metaGetDescriptor P.reg field.type = some descriptor ∧
      fieldArrayAdd P field descriptor.size heap out = some added ∧
        (ParseCall.value field.type descriptor added.1 s added.2).Completes P parse heap' rest := by
  simp only [ParseCall.Completes, parseIntrusiveElement] at completes
  obtain ⟨descriptor, found, parsed⟩ := Option.bind_eq_some_iff.mp completes
  obtain ⟨added, add, parsed⟩ := Option.bind_eq_some_iff.mp parsed
  exact ⟨descriptor, added, found, add, parsed⟩

/-- A string is written to its pointer and to a new block. -/
theorem parseCString_grown (parsed : parseCString P heap s out = some (heap', .ok rest)) :
    heap.Grown heap' out 8 := by
  unfold parseCString at parsed
  cases string : parseJsonString s with
  | none =>
    rw [string] at parsed
    cases parsed
    exact .refl _ _ _
  | some result =>
    obtain ⟨key, behind⟩ := result
    rw [string] at parsed
    obtain ⟨⟨granted, p⟩, alloc, outcome⟩ := Option.map_eq_some_iff.mp parsed
    obtain ⟨rfl, -⟩ := Prod.mk.inj outcome
    have pointer := writeNat_changedWithin granted.mem out 8 p
    refine ⟨(BlockHeap.Grown.alloc (a := out) (n := 8) alloc).live, fun x owns outside => ?_⟩
    have fits : (key ++ [0]).length ≤ key.length + 1 := by rw [List.length_append, List.length_singleton]
    show (granted.mem.writeNat out 8 p).store p (key ++ [0]) x = heap.mem x
    rw [BlockAlloc.store_outside alloc fits owns, pointer x outside]
    exact P.alloc.keeps alloc x owns

end Completed

/-! ### What completed calls leave -/

section Leaving

/-- The first `n` elements of an array have their bytes. -/
def SameElements (heap heap' : BlockHeap) (location size n : Nat) : Prop :=
  ∀ j, j < n → heap'.mem.load (elementAt heap'.mem location size j) size =
    heap.mem.load (elementAt heap.mem location size j) size

variable {P : MetaParser} (laid : P.Laid) (scan parse : UnsetKeys)

/-- `n` elements were appended to the array of a field whose pointer is at `location`. -/
def MetaParser.Laid.Holds (of_ : MetaField) (base heap : BlockHeap) (location n : Nat) : Prop :=
  ∀ (type : MetaDescriptor) (has : P.reg.HasField of_) (intrusive : of_.isIntrusiveArray = true)
    (found : metaGetDescriptor P.reg of_.type = some type),
      (laid.appends of_ type has intrusive found).Holds base heap location n

/-- Elements are appended behind the first `i`. -/
def MetaParser.Laid.Appended (of_ : MetaField) (heap heap' : BlockHeap) (location i n : Nat) : Prop :=
  ∀ base, laid.Holds of_ base heap location i → laid.Holds of_ base heap' location n ∧
    SameElements heap heap' location (P.reg.typeSize of_.type) i

/-- **The call has its place**: the bytes that it is to write belong to the heap, and an array holds as many
elements as were parsed. -/
def ParseCall.Placed : ParseCall → Prop
  | .document _ _ _ => True
  | .object heap _ type out => heap.OwnsRange out (P.reg.typeSize type)
  | .members descriptor out heap _ => (∃ type, metaGetDescriptor P.reg type = some descriptor) ∧
    heap.OwnsRange out descriptor.size
  | .field of_ heap _ out => P.reg.HasField of_ ∧ heap.OwnsRange out (of_.extent P.reg)
  | .elements of_ out i heap _ => P.reg.HasField of_ ∧
    (of_.isIntrusiveArray = false → heap.OwnsRange out (of_.extent P.reg)) ∧
      (of_.isIntrusiveArray = true → ∃ base, laid.Holds of_ base heap out i)
  | .fixed of_ _ heap _ out => P.reg.HasField of_ ∧ of_.isFixedArray = true ∧ of_.offset = 0 ∧
    heap.OwnsRange out (of_.extent P.reg)
  | .intrusive of_ heap _ out => P.reg.HasField of_ ∧ of_.isIntrusiveArray = true ∧ of_.offset = 0 ∧
    ∃ base i, laid.room of_ i ∧ laid.Holds of_ base heap out i
  | .value type descriptor heap _ out => metaGetDescriptor P.reg type = some descriptor ∧
    heap.OwnsRange out descriptor.size

/-- **What the call leaves**: it writes to its place only, and to blocks that it obtains. -/
def ParseCall.Leaves : ParseCall → BlockHeap → Prop
  | .document _ _ _, _ => True
  | .object heap _ type out, heap' => heap.Grown heap' out (P.reg.typeSize type)
  | .members descriptor out heap s, heap' => heap.live <:+ heap'.live ∧ ∀ x, heap.Owns x →
    (∀ of_, ParseCall.Names P scan parse descriptor out heap s of_ →
      x < out + of_.offset ∨ out + of_.offset + of_.extent P.reg ≤ x) → heap'.mem x = heap.mem x
  | .field of_ heap _ out, heap' => heap.Grown heap' out (of_.extent P.reg)
  | .elements of_ out i heap _, heap' =>
    (of_.isIntrusiveArray = false → heap.Grown heap' out (of_.extent P.reg)) ∧
      (of_.isIntrusiveArray = true → ∃ n, i < n ∧ laid.Appended of_ heap heap' out i n)
  | .fixed of_ _ heap _ out, heap' => heap.Grown heap' out (of_.extent P.reg)
  | .intrusive of_ heap _ out, heap' => ∀ i, laid.room of_ i → laid.Appended of_ heap heap' out i (i + 1)
  | .value _ descriptor heap _ out, heap' => heap.Grown heap' out descriptor.size

variable {laid scan parse} {base heap heap' granted : BlockHeap} {s rest : List UInt8} {out place i n m : Nat}
  {descriptor : MetaDescriptor} {of_ : MetaField} {call call' : ParseCall}

theorem typeSize_found {reg : MetaRegistry} {type : Nat} (found : metaGetDescriptor reg type = some descriptor) :
    reg.typeSize type = descriptor.size := by
  rw [MetaRegistry.typeSize, found]
  rfl

/-- No field has both flags. -/
theorem MetaParser.Laid.exclusive (laid : P.Laid) (has : P.reg.HasField of_)
    (intrusive : of_.isIntrusiveArray = true) : of_.isFixedArray = false := by
  obtain ⟨type, descriptor, found, member⟩ := has
  unfold MetaField.isIntrusiveArray at intrusive
  unfold MetaField.isFixedArray
  rcases laid.flags type descriptor found of_ member with flags | flags | flags <;>
    rw [flags] at intrusive ⊢
  · cases intrusive
  · cases intrusive
  · rfl

theorem MetaParser.Laid.not_intrusive (laid : P.Laid) (has : P.reg.HasField of_)
    (fixed : of_.isFixedArray = true) : of_.isIntrusiveArray = false := by
  by_contra intrusive
  exact absurd fixed (by rw [laid.exclusive has (Bool.of_not_eq_false intrusive)]; exact Bool.false_ne_true)

theorem extent_fixed {reg : MetaRegistry} (fixed : of_.isFixedArray = true) :
    of_.extent reg = of_.fixedArrayLen * reg.typeSize of_.type := if_pos fixed

theorem MetaParser.Laid.extent_intrusive (laid : P.Laid) (has : P.reg.HasField of_)
    (intrusive : of_.isIntrusiveArray = true) : of_.extent P.reg = 8 := by
  rw [MetaField.extent, laid.exclusive has intrusive, if_neg Bool.false_ne_true, if_pos intrusive]

/-- An element of a fixed array lies in the field. -/
theorem element_inside {reg : MetaRegistry} (fixed : of_.isFixedArray = true) (inside : i < of_.fixedArrayLen)
    (found : metaGetDescriptor reg of_.type = some descriptor) :
    i * descriptor.size + descriptor.size ≤ of_.extent reg := by
  rw [extent_fixed fixed, typeSize_found found, ← Nat.succ_mul]
  exact Nat.mul_le_mul_right descriptor.size inside

theorem MetaParser.Laid.Holds.owned (holds : laid.Holds of_ base heap out n) (has : P.reg.HasField of_)
    (intrusive : of_.isIntrusiveArray = true) (found : metaGetDescriptor P.reg of_.type = some descriptor) :
    base.OwnsRange out 8 :=
  (laid.appends of_ descriptor has intrusive found).owned (holds descriptor has intrusive found)

/-- **An empty array** is where a null pointer is. -/
theorem MetaParser.Laid.holds_null (laid : P.Laid) (owns : heap.OwnsRange out 8)
    (null : heap.mem.readNat out 8 = 0) : laid.Holds of_ heap heap out 0 :=
  fun type has intrusive found => (laid.appends of_ type has intrusive found).start owns null

theorem SameElements.trans {heap'' : BlockHeap} {size : Nat} (first : SameElements heap heap' out size n)
    (second : SameElements heap' heap'' out size m) (le : n ≤ m) : SameElements heap heap'' out size n :=
  fun j inside => (second j (lt_of_lt_of_le inside le)).trans (first j inside)

theorem MetaParser.Laid.Appended.trans {heap'' : BlockHeap} (first : laid.Appended of_ heap heap' out i n)
    (second : laid.Appended of_ heap' heap'' out n m) (le : i ≤ n) : laid.Appended of_ heap heap'' out i m := by
  intro base holds
  obtain ⟨holds', same⟩ := first base holds
  obtain ⟨holds'', same'⟩ := second base holds'
  exact ⟨holds'', same.trans same' le⟩

/-- **A new element** is behind the others. -/
theorem MetaParser.Laid.Holds.added (holds : laid.Holds of_ base heap out i) (has : P.reg.HasField of_)
    (intrusive : of_.isIntrusiveArray = true) (found : metaGetDescriptor P.reg of_.type = some descriptor)
    (offset : of_.offset = 0) (room : laid.room of_ i)
    (added : fieldArrayAdd P of_ descriptor.size heap out = some (granted, place)) :
    laid.Holds of_ base granted out (i + 1) ∧ SameElements heap granted out descriptor.size i ∧
      place = elementAt granted.mem out descriptor.size i := by
  have before := holds descriptor has intrusive found
  rw [fieldArrayAdd, offset, Nat.add_zero] at added
  obtain ⟨next, add, same⟩ := Option.map_eq_some_iff.mp added
  obtain ⟨rfl, at_⟩ := Prod.mk.inj same
  obtain ⟨after, elements⟩ := (laid.appends of_ descriptor has intrusive found).add before room add
  refine ⟨fun type has' intrusive' found' => ?_, elements, ?_⟩
  · obtain rfl : descriptor = type := Option.some.inj (found.symm.trans found')
    exact after
  · have length : (P.props of_).len heap.mem (heap.mem.readNat out 8) = i :=
      (laid.appends of_ descriptor has intrusive found).len before
    rw [← at_, elementAt, ← length]
    rfl

/-- **The new element is filled.** -/
theorem MetaParser.Laid.Holds.filled (holds : laid.Holds of_ base heap out n) (has : P.reg.HasField of_)
    (intrusive : of_.isIntrusiveArray = true) (found : metaGetDescriptor P.reg of_.type = some descriptor)
    (inside : i < n) (filled : heap.Grown heap' (elementAt heap.mem out descriptor.size i) descriptor.size) :
    laid.Holds of_ base heap' out n ∧
      (∀ j, elementAt heap'.mem out descriptor.size j = elementAt heap.mem out descriptor.size j) ∧
      ∀ j, j < n → j ≠ i → heap'.mem.load (elementAt heap'.mem out descriptor.size j) descriptor.size =
        heap.mem.load (elementAt heap.mem out descriptor.size j) descriptor.size := by
  obtain ⟨after, places, others⟩ := (laid.appends of_ descriptor has intrusive found).filled
    (holds descriptor has intrusive found) inside filled
  refine ⟨fun type has' intrusive' found' => ?_, places, others⟩
  obtain rfl : descriptor = type := Option.some.inj (found.symm.trans found')
  exact after

/-- A call for which the calls that it leads to leave what they are to leave. -/
def ParseCall.Below (laid : P.Laid) (scan parse : UnsetKeys) (call : ParseCall) : Prop :=
  ∀ {below heap' rest}, call.Next P scan parse below → below.Placed laid →
    below.Completes P parse heap' rest → below.Leaves laid scan parse heap'

/-- The place of a field is in that of its object. -/
theorem placed_field {name text : List UInt8} (placed : (ParseCall.members descriptor out heap s).Placed laid)
    (found : findField descriptor name = some of_) :
    (ParseCall.field of_ heap text (out + of_.offset)).Placed laid := by
  obtain ⟨⟨type, registered⟩, owns⟩ := placed
  have member := List.mem_of_find?_eq_some found
  have inside := laid.inside registered member
  exact ⟨⟨type, descriptor, registered, member⟩, owns.part (Nat.le_add_right _ _) (by omega)⟩

/-- **A call that has its place gives those that it leads to theirs**, where literals are in place. -/
theorem ParseCall.Placed.next (placed : call.Placed laid) (next : call.Next P scan parse call')
    (here : call.InPlace P.reg laid.room) (there : call'.InPlace P.reg laid.room)
    (below : call.Below laid scan parse) : call'.Placed laid := by
  cases next with
  | @document expected heap json type descriptor granted _ found alloc =>
    show BlockHeap.OwnsRange _ granted.2 (P.reg.typeSize type)
    rw [typeSize_found found]
    have owns : granted.1.OwnsRange granted.2 descriptor.size := P.alloc.owns alloc
    exact owns
  | @object heap s type out descriptor rest found =>
    refine ⟨⟨type, found⟩, ?_⟩
    rw [← typeSize_found found]
    exact placed
  | unknown => exact placed
  | field _ found => exact placed_field placed found
  | member key found parsed =>
    have grown : BlockHeap.Grown _ _ _ _ := below (.field key found) (placed_field placed found) parsed
    exact ⟨placed.1, placed.2.mono grown.live.subset⟩
  | @elements of_ heap s out rest =>
    refine ⟨placed.1, fun _ => placed.2, fun intrusive =>
      ⟨heap, laid.holds_null ?_ ((there.2 intrusive).2 rfl)⟩⟩
    rw [← laid.extent_intrusive placed.1 intrusive]
    exact placed.2
  | @single of_ heap s out descriptor plain found =>
    have short := here plain
    rw [typeSize_found found] at short
    exact ⟨found, placed.2.part le_rfl (by omega)⟩
  | fixed fixed => exact ⟨placed.1, fixed, here.1, placed.2.1 (laid.not_intrusive placed.1 fixed)⟩
  | @intrusive of_ out i heap s heap' behind parsed intrusive =>
    rw [fixedPart_plain (laid.exclusive placed.1 intrusive)] at parsed
    cases parsed
    obtain ⟨base, holds⟩ := placed.2.2 intrusive
    exact ⟨placed.1, intrusive, here.1, base, i, (here.2 intrusive).1, holds⟩
  | @element of_ out i heap s heap₁ behind heap₂ behind' later parsed parsed' =>
    obtain ⟨has, owns, array⟩ := placed
    cases intrusive : of_.isIntrusiveArray with
    | true =>
      rw [intrusivePart, if_pos intrusive] at parsed'
      have notFixed := laid.exclusive has intrusive
      rw [fixedPart_plain notFixed] at parsed
      cases parsed
      obtain ⟨base, holds⟩ := array intrusive
      have room := (here.2 intrusive).1
      have appended := below (.intrusive (fixedPart_plain notFixed) intrusive)
        ⟨has, intrusive, here.1, base, i, room, holds⟩ parsed' i room
      exact ⟨has, fun same => absurd (same.symm.trans intrusive) Bool.false_ne_true,
        fun _ => ⟨base, (appended base holds).1⟩⟩
    | false =>
      rw [intrusivePart_plain intrusive] at parsed'
      cases parsed'
      refine ⟨has, ?_, fun same => absurd (intrusive.symm.trans same) Bool.false_ne_true⟩
      cases fixed : of_.isFixedArray with
      | true =>
        rw [fixedPart, if_pos fixed] at parsed
        have grown : BlockHeap.Grown _ _ _ _ := below (.fixed fixed) ⟨has, fixed, here.1, owns intrusive⟩ parsed
        exact fun _ => (owns intrusive).mono grown.live.subset
      | false =>
        rw [fixedPart_plain fixed] at parsed
        cases parsed
        exact owns
  | @fixedValue of_ i heap s out descriptor inside found =>
    obtain ⟨-, fixed, offset, owns⟩ := placed
    have element := element_inside fixed inside found
    rw [offset]
    exact ⟨found, owns.part (by omega) (by omega)⟩
  | @added of_ heap s out descriptor granted found added =>
    obtain ⟨has, intrusive, offset, base, i, room, holds⟩ := placed
    obtain ⟨after, -, at_⟩ := holds.added has intrusive found offset room added
    refine ⟨found, fun x low high => ?_⟩
    rw [at_] at low high
    exact ((laid.appends of_ descriptor has intrusive found).slot (after descriptor has intrusive found)
      (Nat.lt_succ_self i) x low high).1
  | @nested type descriptor heap s out =>
    show heap.OwnsRange out (P.reg.typeSize type)
    rw [typeSize_found placed.1]
    exact placed.2

/-- The fields that are named are those of the object. -/
theorem ParseCall.Names.member (names : ParseCall.Names P scan parse descriptor out heap s of_) :
    of_ ∈ descriptor.fields := by
  induction names with
  | here next =>
    cases next with
    | field key found => exact List.mem_of_find?_eq_some found
  | later _ _ ih => exact ih

/-- The calls that this one leads to leave what they are to leave. -/
def ParseCall.Left (laid : P.Laid) (scan parse : UnsetKeys) (call : ParseCall) : Prop :=
  ∀ {below heap' rest}, call.Next P scan parse below → below.Completes P parse heap' rest →
    below.Leaves laid scan parse heap'

theorem leaves_object (floats : P.floats.Advances) {type : Nat}
    (left : (ParseCall.object heap s type out).Left laid scan parse)
    (completes : (ParseCall.object heap s type out).Completes P parse heap' rest) :
    (ParseCall.object heap s type out).Leaves laid scan parse heap' := by
  obtain ⟨descriptor, text, found, opened, members⟩ := completes_object floats completes
  obtain ⟨live, same⟩ := left (.object found opened) members
  show heap.Grown heap' out (P.reg.typeSize type)
  rw [typeSize_found found]
  refine ⟨live, fun x owns outside => same x owns fun of_ names => ?_⟩
  have inside := laid.inside found names.member
  omega

theorem leaves_members (floats : P.floats.Advances)
    (left : (ParseCall.members descriptor out heap s).Left laid scan parse)
    (completes : (ParseCall.members descriptor out heap s).Completes P parse heap' rest) :
    (ParseCall.members descriptor out heap s).Leaves laid scan parse heap' := by
  obtain ⟨name, text, key, ⟨missing, later, skipped, members⟩ | ⟨of_, inner, behind, found, parsed, after⟩⟩ :=
    completes_members floats completes
  · have next : ParseCall.Next P scan parse (.members descriptor out heap s) (.members descriptor out heap later) :=
      .unknown key missing skipped
    obtain ⟨live, same⟩ := left next members
    exact ⟨live, fun x owns outside => same x owns fun of_ names => outside of_ (.later next names)⟩
  · have field : ParseCall.Next P scan parse (.members descriptor out heap s)
        (.field of_ heap text (out + of_.offset)) := .field key found
    have grown : heap.Grown inner (out + of_.offset) (of_.extent P.reg) := left field parsed
    rcases after with ⟨closed, rfl⟩ | ⟨later, closed, separated, members⟩
    · exact ⟨grown.live, fun x owns outside => grown.same x owns (outside of_ (.here field))⟩
    · have next : ParseCall.Next P scan parse (.members descriptor out heap s)
          (.members descriptor out inner later) := .member key found parsed closed separated
      obtain ⟨live, same⟩ := left next members
      refine ⟨grown.live.trans live, fun x owns outside => ?_⟩
      have unchanged := grown.same x owns (outside of_ (.here field))
      exact (same x (owns.mono grown.live.subset) fun other names =>
        outside other (.later next names)).trans unchanged

theorem leaves_field (floats : P.floats.Advances) (has : P.reg.HasField of_)
    (owns : heap.OwnsRange out (of_.extent P.reg)) (here : (ParseCall.field of_ heap s out).InPlace P.reg laid.room)
    (there : ∀ call, (ParseCall.field of_ heap s out).Next P scan parse call → call.InPlace P.reg laid.room)
    (left : (ParseCall.field of_ heap s out).Left laid scan parse)
    (completes : (ParseCall.field of_ heap s out).Completes P parse heap' rest) :
    (ParseCall.field of_ heap s out).Leaves laid scan parse heap' := by
  show heap.Grown heap' out (of_.extent P.reg)
  rcases completes_field completes with ⟨text, opened, flags, elements⟩ | ⟨plain, descriptor, found, value⟩
  · obtain ⟨fixed, appended⟩ := left (.elements opened flags) elements
    cases intrusive : of_.isIntrusiveArray with
    | false => exact fixed intrusive
    | true =>
      obtain ⟨n, -, appended⟩ := appended intrusive
      have null := ((there _ (.elements opened flags)).2 intrusive).2 rfl
      obtain ⟨heap₁, s₁, heap₂, s₂, -, parsed, -⟩ := completes_elements floats elements
      rw [intrusivePart, if_pos intrusive] at parsed
      obtain ⟨descriptor, -, found, -⟩ := completes_intrusive parsed
      rw [laid.extent_intrusive has intrusive] at owns ⊢
      have holds := (appended heap (laid.holds_null owns null)).1
      exact (laid.appends of_ descriptor has intrusive found).grown (holds descriptor has intrusive found)
  · have grown : heap.Grown heap' out descriptor.size := left (.single plain found) value
    have short := here plain
    rw [typeSize_found found] at short
    exact grown.widen le_rfl (by omega)

theorem leaves_elements (floats : P.floats.Advances) (has : P.reg.HasField of_)
    (here : (ParseCall.elements of_ out i heap s).InPlace P.reg laid.room)
    (left : (ParseCall.elements of_ out i heap s).Left laid scan parse)
    (completes : (ParseCall.elements of_ out i heap s).Completes P parse heap' rest) :
    (ParseCall.elements of_ out i heap s).Leaves laid scan parse heap' := by
  obtain ⟨heap₁, s₁, heap₂, s₂, first, second, after⟩ := completes_elements floats completes
  constructor
  · intro notIntrusive
    have round : heap.Grown heap₂ out (of_.extent P.reg) := by
      have alone := second
      rw [intrusivePart_plain notIntrusive] at alone
      cases alone
      cases fixed : of_.isFixedArray with
      | true =>
        rw [fixedPart, if_pos fixed] at first
        exact left (.fixed fixed) first
      | false =>
        rw [fixedPart_plain fixed] at first
        cases first
        exact .refl _ _ _
    rcases after with ⟨-, rfl⟩ | ⟨later, closed, separated, elements⟩
    · exact round
    · exact round.trans ((left (.element first second closed separated) elements).1 notIntrusive)
  · intro intrusive
    have room := (here.2 intrusive).1
    have round : laid.Appended of_ heap heap₂ out i (i + 1) := by
      have element := second
      rw [intrusivePart, if_pos intrusive] at element
      have appended := left (.intrusive first intrusive) element i room
      rw [fixedPart_plain (laid.exclusive has intrusive)] at first
      cases first
      exact appended
    rcases after with ⟨-, rfl⟩ | ⟨later, closed, separated, elements⟩
    · exact ⟨i + 1, Nat.lt_succ_self i, round⟩
    · obtain ⟨n, more, appended⟩ := (left (.element first second closed separated) elements).2 intrusive
      exact ⟨n, Nat.lt_of_succ_lt more, round.trans appended (Nat.le_succ i)⟩

theorem leaves_fixed (fixed : of_.isFixedArray = true) (offset : of_.offset = 0)
    (left : (ParseCall.fixed of_ i heap s out).Left laid scan parse)
    (completes : (ParseCall.fixed of_ i heap s out).Completes P parse heap' rest) :
    (ParseCall.fixed of_ i heap s out).Leaves laid scan parse heap' := by
  obtain ⟨inside, descriptor, found, value⟩ := completes_fixed completes
  have grown : heap.Grown heap' (out + of_.offset + i * descriptor.size) descriptor.size :=
    left (.fixedValue inside found) value
  have element := element_inside fixed inside found
  exact grown.widen (by omega) (by omega)

theorem leaves_intrusive (has : P.reg.HasField of_) (intrusive : of_.isIntrusiveArray = true)
    (offset : of_.offset = 0) (left : (ParseCall.intrusive of_ heap s out).Left laid scan parse)
    (completes : (ParseCall.intrusive of_ heap s out).Completes P parse heap' rest) :
    (ParseCall.intrusive of_ heap s out).Leaves laid scan parse heap' := by
  obtain ⟨descriptor, ⟨granted, place⟩, found, added, value⟩ := completes_intrusive completes
  have grown : granted.Grown heap' place descriptor.size := left (.added found added) value
  intro i room base holds
  obtain ⟨after, same, rfl⟩ := holds.added has intrusive found offset room added
  obtain ⟨filled, -, others⟩ := after.filled has intrusive found (Nat.lt_succ_self i) grown
  refine ⟨filled, fun j inside => ?_⟩
  rw [typeSize_found found]
  exact (others j (Nat.lt_succ_of_lt inside) (Nat.ne_of_lt inside)).trans (same j inside)

/-- **A value** is written within its size. -/
theorem leaves_value {type : Nat} (found : metaGetDescriptor P.reg type = some descriptor)
    (left : (ParseCall.value type descriptor heap s out).Left laid scan parse)
    (completes : (ParseCall.value type descriptor heap s out).Completes P parse heap' rest) :
    (ParseCall.value type descriptor heap s out).Leaves laid scan parse heap' := by
  show heap.Grown heap' out descriptor.size
  have parsed := completes
  simp only [ParseCall.Completes, parseJsonDescriptor, Option.bind_some] at parsed
  cases nested : peekChar (charByte '\x7b') s with
  | true =>
    rw [nested, if_pos rfl] at parsed
    have grown : heap.Grown heap' out (P.reg.typeSize type) := left (.nested nested) parsed
    rw [typeSize_found found] at grown
    exact grown
  | false =>
    rw [nested, if_neg Bool.false_ne_true] at parsed
    cases kind : descriptor.typeClass with
    | primitive =>
      rw [kind] at parsed
      cases parsed
      exact (BlockHeap.Grown.write (parsePrimitive_within _ _ _)).widen le_rfl
        (Nat.add_le_add_left (laid.primitive found kind) out)
    | string =>
      rw [kind] at parsed
      cases cstring : descriptor.string with
      | cstring =>
        rw [cstring] at parsed
        exact (parseCString_grown parsed).widen le_rfl (Nat.add_le_add_left (laid.string found kind) out)
      | slice =>
        rw [cstring] at parsed
        cases parsed
        exact .refl _ _ _
    | array | object =>
      rw [kind] at parsed
      cases parsed
      exact .refl _ _ _

/-- **What a completed call leaves**, where every literal is in place. -/
theorem ParseCall.Placed.leaves (floats : P.floats.Advances) (call : ParseCall) :
    (∀ later, ReflTransGen (ParseCall.Next P scan parse) call later → later.InPlace P.reg laid.room) →
      call.Placed laid → ∀ {heap' rest}, call.Completes P parse heap' rest →
        call.Leaves laid scan parse heap' := by
  have down : WellFounded (flip (ParseCall.Next P scan parse)) := next_wellFounded floats
  induction call using down.induction with
  | _ call ih =>
    intro inPlace placed heap' rest completes
    have there : ∀ later, call.Next P scan parse later → later.InPlace P.reg laid.room :=
      fun later next => inPlace later (.single next)
    have below : call.Below laid scan parse := fun next placed =>
      ih _ next (fun later reached => inPlace later (.head next reached)) placed
    have left : call.Left laid scan parse := fun next =>
      below next (placed.next next (inPlace call .refl) (there _ next) below)
    cases call with
    | document expected heap json => trivial
    | object heap s type out => exact leaves_object floats left completes
    | members descriptor out heap s => exact leaves_members floats left completes
    | field of_ heap s out =>
      exact leaves_field floats placed.1 placed.2 (inPlace _ .refl) there left completes
    | elements of_ out i heap s => exact leaves_elements floats placed.1 (inPlace _ .refl) left completes
    | fixed of_ i heap s out => exact leaves_fixed placed.2.1 placed.2.2.1 left completes
    | intrusive of_ heap s out => exact leaves_intrusive placed.1 placed.2.1 placed.2.2.1 left completes
    | value type descriptor heap s out => exact leaves_value placed.1 left completes

/-- **Every call has its place.** -/
theorem ParseCall.Placed.reached (floats : P.floats.Advances)
    (inPlace : ∀ later, ReflTransGen (ParseCall.Next P scan parse) call later → later.InPlace P.reg laid.room)
    (placed : call.Placed laid) (reached : ReflTransGen (ParseCall.Next P scan parse) call call') :
    call'.Placed laid := by
  induction reached with
  | refl => exact placed
  | @tail mid last before next ih =>
    refine ih.next next (inPlace mid before) (inPlace last (before.tail next)) fun step placed completes => ?_
    exact ParseCall.Placed.leaves floats _ (fun later rest =>
      inPlace later ((before.tail step).trans rest)) placed completes

end Leaving

end Vaudou
