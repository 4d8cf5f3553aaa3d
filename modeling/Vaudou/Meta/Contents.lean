/-
**What an object of a registered type holds.**

`MetaRegistry.Leaf` says what an object is made of, with the offsets: the bytes of values, the pointers of
`CString`s and those of intrusive arrays, through nested objects and the elements of fixed arrays.
`SameContents` are two objects that are equal field by field: bytes as they are, strings by what they
hold, intrusive arrays by their lengths and elements.

* `MetaRegistry.Leaf.inside`, `MetaRegistry.Leaf.apart` — in a registry that describes its types as the
  compiler lays them out (`MetaRegistry.Described`) leaves are inside of their object and apart.
-/

import Vaudou.Meta.ElementPlaces

namespace Vaudou

open Vaudou.Memory Vaudou.Text

/-! ### Leaves -/

/-- A part of an object that has no parts of its own. -/
inductive LeafKind where
  | bytes (width : Nat)
  | string
  | array (type : Nat)
deriving DecidableEq

/-- Its bytes in the object. -/
def LeafKind.width : LeafKind → Nat
  | .bytes width => width
  | .string | .array _ => 8

/-- Where a value of the type of the field starts in it: an element of a fixed array, or the field. -/
def MetaField.Start (reg : MetaRegistry) (field : MetaField) (start : Nat) : Prop :=
  if field.isFixedArray then ∃ i < field.fixedArrayLen, start = i * reg.typeSize field.type else start = 0

/-- **The leaves of a type**, with their offsets. The parser does not set a slice, nor a value of an array
type: their bytes are one leaf. -/
inductive MetaRegistry.Leaf (reg : MetaRegistry) : (type : Nat) → LeafKind → (offset : Nat) → Prop where
  | primitive {type descriptor} : metaGetDescriptor reg type = some descriptor →
      descriptor.typeClass = .primitive → Leaf reg type (.bytes descriptor.primitive.width) 0
  | string {type descriptor} : metaGetDescriptor reg type = some descriptor →
      descriptor.typeClass = .string → descriptor.string = .cstring → Leaf reg type .string 0
  | slice {type descriptor} : metaGetDescriptor reg type = some descriptor →
      descriptor.typeClass = .string → descriptor.string = .slice → Leaf reg type (.bytes descriptor.size) 0
  | raw {type descriptor} : metaGetDescriptor reg type = some descriptor →
      descriptor.typeClass = .array → Leaf reg type (.bytes descriptor.size) 0
  | array {type descriptor field} : metaGetDescriptor reg type = some descriptor →
      field ∈ descriptor.fields → field.isIntrusiveArray = true →
        Leaf reg type (.array field.type) field.offset
  | field {type descriptor field start kind offset} : metaGetDescriptor reg type = some descriptor →
      field ∈ descriptor.fields → field.isIntrusiveArray = false → field.Start reg start →
      Leaf reg field.type kind offset → Leaf reg type kind (field.offset + (start + offset))

/-- The leaves of an object at an address. -/
def MetaRegistry.CellsAt (reg : MetaRegistry) (type object : Nat) (kind : LeafKind) (a : Nat) : Prop :=
  ∃ offset, reg.Leaf type kind offset ∧ a = object + offset

/-- The leaves of a field, from its start. -/
def MetaField.Leaf (reg : MetaRegistry) (field : MetaField) (kind : LeafKind) (offset : Nat) : Prop :=
  if field.isIntrusiveArray then kind = .array field.type ∧ offset = 0
  else ∃ start inner, field.Start reg start ∧ reg.Leaf field.type kind inner ∧ offset = start + inner

/-- **The types are described as the compiler lays them out**: they have a size, fields are inside of their
objects and apart, values are inside of their types; and arrays have the procedures of the registry. -/
structure MetaRegistry.Described (reg : MetaRegistry) : Prop where
  flags : reg.FlagsValid
  objects : reg.FieldsOfObjects
  procedures : ∀ field, reg.HasField field → field.intrusiveProps = none
  elements : ∀ field, reg.HasField field → field.isFixedArray = true → 0 < field.fixedArrayLen
  sized : ∀ {type descriptor}, metaGetDescriptor reg type = some descriptor → 0 < descriptor.size
  inside : ∀ {type descriptor field}, metaGetDescriptor reg type = some descriptor →
    field ∈ descriptor.fields → field.offset + field.extent reg ≤ descriptor.size
  apart : ∀ {type descriptor field other}, metaGetDescriptor reg type = some descriptor →
    field ∈ descriptor.fields → other ∈ descriptor.fields → field ≠ other →
      field.offset + field.extent reg ≤ other.offset ∨ other.offset + other.extent reg ≤ field.offset
  primitive : ∀ {type descriptor}, metaGetDescriptor reg type = some descriptor →
    descriptor.typeClass = .primitive → descriptor.primitive.width ≤ descriptor.size
  string : ∀ {type descriptor}, metaGetDescriptor reg type = some descriptor →
    descriptor.typeClass = .string → 8 ≤ descriptor.size

section Leaves

variable {reg : MetaRegistry} {type offset offset' : Nat} {descriptor : MetaDescriptor} {field : MetaField}
  {kind kind' : LeafKind}

/-- A leaf of a field is one of its object. -/
theorem MetaField.Leaf.object (found : metaGetDescriptor reg type = some descriptor)
    (member : field ∈ descriptor.fields) (leaf : field.Leaf reg kind offset) :
    reg.Leaf type kind (field.offset + offset) := by
  unfold MetaField.Leaf at leaf
  split at leaf
  next intrusive =>
    obtain ⟨rfl, rfl⟩ := leaf
    exact .array found member intrusive
  next plain =>
    obtain ⟨start, inner, starts, leaf, rfl⟩ := leaf
    exact .field found member (Bool.eq_false_iff.mpr plain) starts leaf

/-- A leaf of an object is one of a field. -/
theorem MetaRegistry.Leaf.field_of (found : metaGetDescriptor reg type = some descriptor)
    (object : descriptor.typeClass = .object) (leaf : reg.Leaf type kind offset) :
    ∃ field ∈ descriptor.fields, ∃ inner, field.Leaf reg kind inner ∧ offset = field.offset + inner := by
  cases leaf with
  | primitive found' kind | string found' kind | slice found' kind | raw found' kind =>
    obtain rfl := Option.some.inj (found.symm.trans found')
    exact absurd (object.symm.trans kind) (by decide)
  | array found' member intrusive =>
    obtain rfl := Option.some.inj (found.symm.trans found')
    exact ⟨_, member, 0, by rw [MetaField.Leaf, if_pos intrusive]; exact ⟨rfl, rfl⟩, rfl⟩
  | field found' member plain starts leaf =>
    obtain rfl := Option.some.inj (found.symm.trans found')
    refine ⟨_, member, _, ?_, rfl⟩
    rw [MetaField.Leaf, if_neg (Bool.eq_false_iff.mp plain)]
    exact ⟨_, _, starts, leaf, rfl⟩

namespace MetaRegistry.Described

variable (described : reg.Described)
include described

/-- Only objects have fields. -/
theorem object_of_field (found : metaGetDescriptor reg type = some descriptor)
    (member : field ∈ descriptor.fields) : descriptor.typeClass = .object := by
  by_contra other
  rw [described.objects type descriptor found other] at member
  cases member

theorem not_fixed (has : reg.HasField field) (intrusive : field.isIntrusiveArray = true) :
    field.isFixedArray = false := by
  obtain ⟨type, descriptor, found, member⟩ := has
  unfold MetaField.isIntrusiveArray at intrusive
  unfold MetaField.isFixedArray
  rcases described.flags type descriptor found field member with flags | flags | flags <;>
    rw [flags] at intrusive ⊢
  · cases intrusive
  · cases intrusive
  · rfl

theorem not_intrusive (has : reg.HasField field) (fixed : field.isFixedArray = true) :
    field.isIntrusiveArray = false := by
  by_contra intrusive
  exact absurd fixed (by rw [described.not_fixed has (Bool.of_not_eq_false intrusive)]; exact Bool.false_ne_true)

theorem extent_intrusive (has : reg.HasField field) (intrusive : field.isIntrusiveArray = true) :
    field.extent reg = 8 := by
  rw [MetaField.extent, described.not_fixed has intrusive, if_neg Bool.false_ne_true, if_pos intrusive]

/-- A field of arrays is one of both kinds. -/
theorem array_of_flags (has : reg.HasField field) (flags : field.flags ≠ 0) :
    field.isFixedArray = true ∨ field.isIntrusiveArray = true := by
  obtain ⟨type, descriptor, found, member⟩ := has
  unfold MetaField.isFixedArray MetaField.isIntrusiveArray
  rcases described.flags type descriptor found field member with none_ | one | two
  · exact absurd none_ flags
  · rw [one]
    exact Or.inl rfl
  · rw [two]
    exact Or.inr rfl

end MetaRegistry.Described

/-- A value that starts in a field is inside of it. -/
theorem MetaField.Start.inside {start : Nat} (starts : field.Start reg start)
    (plain : field.isIntrusiveArray = false) :
    start + reg.typeSize field.type ≤ field.extent reg := by
  unfold MetaField.Start at starts
  unfold MetaField.extent
  split at starts
  next fixed =>
    obtain ⟨i, inside, rfl⟩ := starts
    rw [if_pos fixed, ← Nat.succ_mul]
    exact Nat.mul_le_mul_right _ inside
  next single =>
    rw [if_neg single, if_neg (Bool.eq_false_iff.mp plain), starts, Nat.zero_add]

theorem primitive_width_pos (kind : MetaPrimitiveType) : 0 < kind.width := by cases kind <;> decide

/-- **A leaf is inside of its object**, and not empty. -/
theorem MetaRegistry.Leaf.inside (described : reg.Described) (leaf : reg.Leaf type kind offset) :
    offset + kind.width ≤ reg.typeSize type ∧ 0 < kind.width := by
  induction leaf with
  | primitive found kind =>
    rw [typeSize_found found, Nat.zero_add]
    exact ⟨described.primitive found kind, primitive_width_pos _⟩
  | string found kind =>
    rw [typeSize_found found, Nat.zero_add]
    exact ⟨described.string found kind, Nat.succ_pos 7⟩
  | slice found | raw found =>
    rw [typeSize_found found, Nat.zero_add]
    exact ⟨le_rfl, described.sized found⟩
  | @array type descriptor field found member intrusive =>
    have inside := described.inside found member
    rw [described.extent_intrusive ⟨type, descriptor, found, member⟩ intrusive] at inside
    rw [typeSize_found found]
    exact ⟨inside, Nat.succ_pos 7⟩
  | field found member plain starts leaf ih =>
    have inside := described.inside found member
    have part := starts.inside plain
    rw [typeSize_found found]
    exact ⟨by omega, ih.2⟩

/-- The leaves of a field are inside of it. -/
theorem MetaField.Leaf.inside (described : reg.Described) (has : reg.HasField field)
    (leaf : field.Leaf reg kind offset) : offset + kind.width ≤ field.extent reg := by
  unfold MetaField.Leaf at leaf
  split at leaf
  next intrusive =>
    obtain ⟨rfl, rfl⟩ := leaf
    rw [described.extent_intrusive has intrusive]
    exact Nat.le_of_eq (Nat.zero_add 8)
  next plain =>
    obtain ⟨start, inner, starts, leaf, rfl⟩ := leaf
    have part := starts.inside (Bool.eq_false_iff.mpr plain)
    have within := (leaf.inside described).1
    omega

/-- Two values that start in one field are the same one or apart. -/
theorem MetaField.Start.apart {start start' : Nat} (starts : field.Start reg start)
    (starts' : field.Start reg start') : start = start' ∨ start + reg.typeSize field.type ≤ start' ∨
      start' + reg.typeSize field.type ≤ start := by
  unfold MetaField.Start at starts starts'
  split at starts
  next fixed =>
    rw [if_pos fixed] at starts'
    obtain ⟨i, -, rfl⟩ := starts
    obtain ⟨j, -, rfl⟩ := starts'
    rcases Nat.lt_trichotomy i j with before | rfl | behind
    · rw [← Nat.succ_mul]
      exact Or.inr (Or.inl (Nat.mul_le_mul_right _ before))
    · exact Or.inl rfl
    · rw [← Nat.succ_mul]
      exact Or.inr (Or.inr (by rw [← Nat.succ_mul]; exact Nat.mul_le_mul_right _ behind))
  next single =>
    rw [if_neg single] at starts'
    exact Or.inl (starts.trans starts'.symm)

/-- **Two leaves of an object** are the same one or apart. -/
theorem MetaRegistry.Leaf.apart (described : reg.Described) (leaf : reg.Leaf type kind offset)
    (leaf' : reg.Leaf type kind' offset') : (kind = kind' ∧ offset = offset') ∨
      offset + kind.width ≤ offset' ∨ offset' + kind'.width ≤ offset := by
  induction leaf generalizing kind' offset' with
  | primitive found class_ | string found class_ | slice found class_ | raw found class_ =>
    cases leaf' with
    | primitive found' class' | string found' class' | slice found' class' | raw found' class' =>
      obtain rfl := Option.some.inj (found.symm.trans found')
      first | exact Or.inl ⟨rfl, rfl⟩ | simp_all
    | array found' member | field found' member =>
      obtain rfl := Option.some.inj (found.symm.trans found')
      exact absurd (class_.symm.trans (described.object_of_field found' member)) (by decide)
  | @array type descriptor field found member intrusive =>
    obtain ⟨other, member', inner, ofField, rfl⟩ :=
      leaf'.field_of found (described.object_of_field found member)
    by_cases same : field = other
    · subst same
      rw [MetaField.Leaf, if_pos intrusive] at ofField
      exact Or.inl ⟨ofField.1.symm, by rw [ofField.2]; rfl⟩
    · have within := ofField.inside described ⟨type, descriptor, found, member'⟩
      have extent := described.extent_intrusive ⟨type, descriptor, found, member⟩ intrusive
      have apart := described.apart found member member' same
      show _ ∨ field.offset + 8 ≤ _ ∨ _
      omega
  | @field type descriptor field start kind offset found member plain starts leaf ih =>
    obtain ⟨other, member', inner, ofField, rfl⟩ :=
      leaf'.field_of found (described.object_of_field found member)
    by_cases same : field = other
    · subst same
      rw [MetaField.Leaf, if_neg (Bool.eq_false_iff.mp plain)] at ofField
      obtain ⟨start', inner', starts', second, rfl⟩ := ofField
      have within := (leaf.inside described).1
      have within' := (second.inside described).1
      rcases starts.apart starts' with rfl | apart
      · rcases ih second with ⟨rfl, rfl⟩ | apart
        · exact Or.inl ⟨rfl, rfl⟩
        · exact Or.inr (by omega)
      · exact Or.inr (by omega)
    · have part := starts.inside plain
      have within := (leaf.inside described).1
      have within' := ofField.inside described ⟨type, descriptor, found, member'⟩
      have apart := described.apart found member member' same
      exact Or.inr (by omega)

end Leaves

/-! ### Equal objects -/

/-- Two pointers of strings are null, or both strings are the same. -/
def SameString (mem mem' : Mem) (p p' : Nat) : Prop :=
  (p = 0 ∧ p' = 0) ∨ (p ≠ 0 ∧ p' ≠ 0 ∧ ∃ content, IsCString mem p content ∧ IsCString mem' p' content)

/-- **Two objects are equal field by field**: bytes as they are, strings by what they hold, arrays by their
lengths and elements. -/
inductive SameContents (reg : MetaRegistry) (mem mem' : Mem) : (type object object' : Nat) → Prop where
  | leaves {type object object'}
      (bytes : ∀ width offset, reg.Leaf type (.bytes width) offset →
        mem'.load (object' + offset) width = mem.load (object + offset) width)
      (strings : ∀ offset, reg.Leaf type .string offset →
        SameString mem mem' (mem.readNat (object + offset) 8) (mem'.readNat (object' + offset) 8))
      (lengths : ∀ element offset, reg.Leaf type (.array element) offset →
        metaArrayLen mem' (mem'.readNat (object' + offset) 8) =
          metaArrayLen mem (mem.readNat (object + offset) 8))
      (elements : ∀ element offset, reg.Leaf type (.array element) offset →
        ∀ i < metaArrayLen mem (mem.readNat (object + offset) 8),
          SameContents reg mem mem' element (elementAt mem (object + offset) (reg.typeSize element) i)
            (elementAt mem' (object' + offset) (reg.typeSize element) i)) :
      SameContents reg mem mem' type object object'

section Equal

variable {reg : MetaRegistry} {mem mem' mem'' : Mem} {type object object' object'' p p' p'' : Nat}

theorem SameString.symm (same : SameString mem mem' p p') : SameString mem' mem p' p := by
  rcases same with ⟨null, null'⟩ | ⟨some_, some', content, is, is'⟩
  · exact Or.inl ⟨null', null⟩
  · exact Or.inr ⟨some', some_, content, is', is⟩

theorem SameString.trans (first : SameString mem mem' p p') (second : SameString mem' mem'' p' p'') :
    SameString mem mem'' p p'' := by
  rcases first with ⟨null, null'⟩ | ⟨some_, some', content, is, is'⟩
  · rcases second with ⟨-, null''⟩ | ⟨some', -⟩
    · exact Or.inl ⟨null, null''⟩
    · exact absurd null' some'
  · rcases second with ⟨null', -⟩ | ⟨-, some'', content', other, is''⟩
    · exact absurd null' some'
    · obtain rfl := is'.unique other
      exact Or.inr ⟨some_, some'', content, is, is''⟩

theorem SameContents.symm (same : SameContents reg mem mem' type object object') :
    SameContents reg mem' mem type object' object := by
  induction same with
  | leaves bytes strings lengths _ ih =>
    refine .leaves (fun width offset leaf => (bytes width offset leaf).symm)
      (fun offset leaf => (strings offset leaf).symm)
      (fun element offset leaf => (lengths element offset leaf).symm) fun element offset leaf i inside => ?_
    rw [lengths element offset leaf] at inside
    exact ih element offset leaf i inside

theorem SameContents.trans (first : SameContents reg mem mem' type object object')
    (second : SameContents reg mem' mem'' type object' object'') :
    SameContents reg mem mem'' type object object'' := by
  induction first generalizing object'' with
  | leaves bytes strings lengths _ ih =>
    obtain ⟨bytes', strings', lengths', elements'⟩ := second
    refine .leaves (fun width offset leaf => (bytes' width offset leaf).trans (bytes width offset leaf))
      (fun offset leaf => (strings offset leaf).trans (strings' offset leaf))
      (fun element offset leaf => (lengths' element offset leaf).trans (lengths element offset leaf))
      fun element offset leaf i inside => ih element offset leaf i inside ?_
    exact elements' element offset leaf i (by rw [lengths element offset leaf]; exact inside)

end Equal

end Vaudou
