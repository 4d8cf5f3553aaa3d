/-
**Objects of registered types.**

`JsonObject` says which object types the JSON procedures are for: fields of integer kinds, `char`,
`CString` and object types, apart from each other, with names that are identifiers. `HoldsObject` is an
object in memory with a condition on the contents of its strings, and `SameObject` two objects that are
equal field by field.

`ParsedObject` is what the parser makes: the object at its address, and every string in a block of its
own that was not handed out before. It stays as later fields are parsed (`ParsedObject.kept`).
-/

import Vaudou.Meta.Tokens

namespace Vaudou

open Vaudou.Memory Vaudou.Text

/-- The bytes of a primitive type. -/
def MetaPrimitiveType.width : MetaPrimitiveType → Nat
  | .i8 | .u8 | .char8 => 1
  | .i16 | .u16 => 2
  | .i32 | .u32 | .f32 => 4
  | .i64 | .u64 | .f64 => 8

/-- A floating point type. -/
def MetaPrimitiveType.isFloat : MetaPrimitiveType → Bool
  | .f32 | .f64 => true
  | _ => false

/-- The bytes that a value of the type takes in an object. -/
def MetaDescriptor.extent (descriptor : MetaDescriptor) : Nat :=
  match descriptor.typeClass with
  | .primitive => descriptor.primitive.width
  | .string => 8
  | .array | .object => descriptor.size

/-- An integer kind, `char`, `CString`, or an object type. -/
def MetaDescriptor.Supported (descriptor : MetaDescriptor) : Prop :=
  match descriptor.typeClass with
  | .primitive => descriptor.primitive.isFloat = false
  | .string => descriptor.string = .cstring
  | .object => True
  | .array => False

/-- **An object type for the JSON procedures.** -/
structure JsonObject (reg : MetaRegistry) (descriptor : MetaDescriptor) : Prop where
  name : IdentifierLike descriptor.name
  nonempty : descriptor.fields ≠ []
  names : ∀ field ∈ descriptor.fields, IdentifierLike field.name
  distinct : (descriptor.fields.map (·.name)).Nodup
  plain : ∀ field ∈ descriptor.fields, field.flags = 0
  types : ∀ field ∈ descriptor.fields, ∃ type,
    metaGetDescriptor reg field.type = some type ∧ type.Supported ∧
      field.offset + type.extent ≤ descriptor.size
  apart : descriptor.fields.Pairwise fun first second => ∀ type type',
    metaGetDescriptor reg first.type = some type → metaGetDescriptor reg second.type = some type' →
      first.offset + type.extent ≤ second.offset ∨ second.offset + type'.extent ≤ first.offset

/-- Every object type of the registry is one for the JSON procedures. -/
def JsonTypes (reg : MetaRegistry) : Prop :=
  ∀ id descriptor, metaGetDescriptor reg id = some descriptor → descriptor.typeClass = .object →
    JsonObject reg descriptor

/-- **An object in memory**, whose strings are not null and have contents that are `ok`. -/
inductive HoldsObject (reg : MetaRegistry) (mem : Mem) (ok : List UInt8 → Prop) :
    (type object : Nat) → Prop where
  | primitive {type object descriptor} (found : metaGetDescriptor reg type = some descriptor)
      (kind : descriptor.typeClass = .primitive) : HoldsObject reg mem ok type object
  | string {type object descriptor} {content : List UInt8}
      (found : metaGetDescriptor reg type = some descriptor) (kind : descriptor.typeClass = .string)
      (nonnull : mem.readNat object 8 ≠ 0) (is : IsCString mem (mem.readNat object 8) content)
      (fine : ok content) : HoldsObject reg mem ok type object
  | object {type object descriptor} (found : metaGetDescriptor reg type = some descriptor)
      (kind : descriptor.typeClass = .object)
      (fields : ∀ field ∈ descriptor.fields,
        HoldsObject reg mem ok field.type (object + field.offset)) : HoldsObject reg mem ok type object

/-- **Two objects are equal field by field**: primitive fields in their bytes, strings in what they
point to. -/
inductive SameObject (reg : MetaRegistry) (mem mem' : Mem) : (type object object' : Nat) → Prop where
  | primitive {type object object' descriptor}
      (found : metaGetDescriptor reg type = some descriptor)
      (kind : descriptor.typeClass = .primitive)
      (bytes : mem'.load object' descriptor.primitive.width =
        mem.load object descriptor.primitive.width) : SameObject reg mem mem' type object object'
  | string {type object object' descriptor} {content : List UInt8}
      (found : metaGetDescriptor reg type = some descriptor) (kind : descriptor.typeClass = .string)
      (is : IsCString mem (mem.readNat object 8) content)
      (is' : IsCString mem' (mem'.readNat object' 8) content) :
      SameObject reg mem mem' type object object'
  | object {type object object' descriptor} (found : metaGetDescriptor reg type = some descriptor)
      (kind : descriptor.typeClass = .object)
      (fields : ∀ field ∈ descriptor.fields,
        SameObject reg mem mem' field.type (object + field.offset) (object' + field.offset)) :
      SameObject reg mem mem' type object object'

/-- **What the parser makes of an object**: the fields at their addresses, and the strings in blocks
that the heap `base` had not handed out. -/
inductive ParsedObject (reg : MetaRegistry) (mem : Mem) (base heap : BlockHeap) :
    (type object object' : Nat) → Prop where
  | primitive {type object object' descriptor}
      (found : metaGetDescriptor reg type = some descriptor)
      (kind : descriptor.typeClass = .primitive)
      (bytes : heap.mem.load object' descriptor.primitive.width =
        mem.load object descriptor.primitive.width) :
      ParsedObject reg mem base heap type object object'
  | string {type object object' descriptor} {content : List UInt8}
      (found : metaGetDescriptor reg type = some descriptor) (kind : descriptor.typeClass = .string)
      (is : IsCString mem (mem.readNat object 8) content)
      (is' : IsCString heap.mem (heap.mem.readNat object' 8) content)
      (owns : heap.OwnsRange (heap.mem.readNat object' 8) (content.length + 1))
      (new : ∀ x, heap.mem.readNat object' 8 ≤ x →
        x < heap.mem.readNat object' 8 + (content.length + 1) → ¬ base.Owns x) :
      ParsedObject reg mem base heap type object object'
  | object {type object object' descriptor} (found : metaGetDescriptor reg type = some descriptor)
      (kind : descriptor.typeClass = .object)
      (fields : ∀ field ∈ descriptor.fields,
        ParsedObject reg mem base heap field.type (object + field.offset) (object' + field.offset)) :
      ParsedObject reg mem base heap type object object'

/-- **A string in a new block**, with its pointer at `x`: nothing else that was handed out is changed. -/
structure NewString (heap heap' : BlockHeap) (x : Nat) (content : List UInt8) : Prop where
  is : IsCString heap'.mem (heap'.mem.readNat x 8) content
  owns : heap'.OwnsRange (heap'.mem.readNat x 8) (content.length + 1)
  new : ∀ y, heap'.mem.readNat x 8 ≤ y → y < heap'.mem.readNat x 8 + (content.length + 1) → ¬ heap.Owns y
  kept : heap.Kept heap' x 8

section Objects

variable {reg : MetaRegistry} {mem : Mem} {base heap heap' : BlockHeap}
  {type object object' : Nat} {descriptor : MetaDescriptor} {ok : List UInt8 → Prop}

/-- **A string that is copied to a granted block.** -/
theorem newString_alloc {A : BlockAlloc} {content : List UInt8} {p x : Nat}
    (alloc : A.alloc heap (content.length + 1) = some (heap', p)) (owns : heap.OwnsRange x 8)
    (nonzero : 0 ∉ content) :
    NewString heap { heap' with mem := (heap'.mem.writeNat x 8 p).store p (content ++ [0]) } x content := by
  have stored : (content ++ [0]).length ≤ content.length + 1 := by
    rw [List.length_append, List.length_singleton]
  have bound := A.bounded alloc
  -- the block is apart from the pointer to it
  have pointer : ((heap'.mem.writeNat x 8 p).store p (content ++ [0])).readNat x 8 = p := by
    have same : Same (heap'.mem.writeNat x 8 p)
      ((heap'.mem.writeNat x 8 p).store p (content ++ [0])) x 8 :=
      fun y low high => BlockAlloc.store_outside alloc stored (owns y low high)
    rw [readNat_congr same]
    exact readNat_writeNat_lt (lt_of_le_of_lt (Nat.le_of_add_right_le bound) (by norm_num))
  refine ⟨?_, ?_, ?_, ?_, fun y owned outside => ?_⟩
  · show IsCString _ (Mem.readNat _ x 8) content
    rw [pointer]
    exact isCString_store _ p nonzero (by omega)
  · show BlockHeap.OwnsRange _ (Mem.readNat _ x 8) _
    rw [pointer]
    exact fun y low high => (BlockAlloc.owns alloc y low high).mono (List.Subset.refl _)
  · show ∀ y, Mem.readNat _ x 8 ≤ y → y < Mem.readNat _ x 8 + _ → _
    rw [pointer]
    exact fun y low high => A.apart alloc y low high
  · show heap.live ⊆ heap'.live
    rw [A.live alloc]
    exact List.subset_cons_self _ _
  · show (heap'.mem.writeNat x 8 p).store p (content ++ [0]) y = heap.mem y
    rw [BlockAlloc.store_outside alloc stored owned, writeNat_changedWithin _ _ _ _ y outside,
      A.keeps alloc y owned]

/-- A field that is found in an object type lies in the object. -/
theorem JsonObject.inside {field : MetaField} {fieldType : MetaDescriptor}
    (json : JsonObject reg descriptor) (member : field ∈ descriptor.fields)
    (found : metaGetDescriptor reg field.type = some fieldType) :
    field.offset + fieldType.extent ≤ descriptor.size := by
  obtain ⟨type, found', -, inside⟩ := json.types field member
  obtain rfl := Option.some.inj (found.symm.trans found')
  exact inside

/-- The fields of an object in memory. -/
theorem HoldsObject.fields (holds : HoldsObject reg mem ok type object)
    (found : metaGetDescriptor reg type = some descriptor) (kind : descriptor.typeClass = .object) :
    ∀ field ∈ descriptor.fields, HoldsObject reg mem ok field.type (object + field.offset) := by
  cases holds with
  | primitive found' kind' =>
    obtain rfl := Option.some.inj (found.symm.trans found')
    exact absurd (kind.symm.trans kind') (by decide)
  | string found' kind' _ _ _ =>
    obtain rfl := Option.some.inj (found.symm.trans found')
    exact absurd (kind.symm.trans kind') (by decide)
  | object found' _ fields =>
    obtain rfl := Option.some.inj (found.symm.trans found')
    exact fields

theorem HoldsObject.mono {ok' : List UInt8 → Prop} (holds : HoldsObject reg mem ok type object)
    (weaker : ∀ content, ok content → ok' content) : HoldsObject reg mem ok' type object := by
  induction holds with
  | primitive found kind => exact .primitive found kind
  | string found kind nonnull is fine => exact .string found kind nonnull is (weaker _ fine)
  | object found kind _ ih => exact .object found kind ih

/-- What is parsed is equal field by field. -/
theorem ParsedObject.same (parsed : ParsedObject reg mem base heap type object object') :
    SameObject reg mem heap.mem type object object' := by
  induction parsed with
  | primitive found kind bytes => exact .primitive found kind bytes
  | string found kind is is' _ _ => exact .string found kind is is'
  | object found kind _ ih => exact .object found kind ih

/-- New blocks are new for a smaller heap. -/
theorem ParsedObject.mono_base {base' : BlockHeap}
    (parsed : ParsedObject reg mem base' heap type object object') (live : base.live ⊆ base'.live) :
    ParsedObject reg mem base heap type object object' := by
  induction parsed with
  | primitive found kind bytes => exact .primitive found kind bytes
  | string found kind is is' owns new =>
    exact .string found kind is is' owns fun x low high old => new x low high (old.mono live)
  | object found kind _ ih => exact .object found kind ih

/-- **A string outside the base heap stays** as the parser works on a region of that heap. -/
theorem Text.IsCString.kept {a n p : Nat} {content : List UInt8} (is : IsCString heap.mem p content)
    (owns : heap.OwnsRange p (content.length + 1))
    (new : ∀ x, p ≤ x → x < p + (content.length + 1) → ¬ base.Owns x)
    (kept : heap.Kept heap' a n) (region : base.OwnsRange a n) :
    IsCString heap'.mem p content ∧ heap'.OwnsRange p (content.length + 1) := by
  -- the string is not in the region: that was handed out before it
  have same : Same heap.mem heap'.mem p (content.length + 1) := fun x low high =>
    kept.same x (owns x low high) <| by
      by_contra inside
      exact new x low high (region x (by omega) (by omega))
  exact ⟨is.congr same, fun x low high => (owns x low high).mono kept.live⟩

/-- **What is parsed stays** as the parser works on another region of the heap that it started from. -/
theorem ParsedObject.kept (json : JsonTypes reg) {a n : Nat}
    (parsed : ParsedObject reg mem base heap type object object')
    (found : metaGetDescriptor reg type = some descriptor)
    (kept : heap.Kept heap' a n) (region : base.OwnsRange a n)
    (owns : heap.OwnsRange object' descriptor.extent)
    (apart : object' + descriptor.extent ≤ a ∨ a + n ≤ object') :
    ParsedObject reg mem base heap' type object object' := by
  induction parsed generalizing descriptor with
  | primitive found' kind bytes =>
    obtain rfl := Option.some.inj (found.symm.trans found')
    have extent : descriptor.extent = descriptor.primitive.width := by
      rw [MetaDescriptor.extent, kind]
    rw [extent] at owns apart
    exact .primitive found kind ((load_congr (kept.region owns apart)).trans bytes)
  | string found' kind is is' ownsString new =>
    obtain rfl := Option.some.inj (found.symm.trans found')
    have extent : descriptor.extent = 8 := by rw [MetaDescriptor.extent, kind]
    rw [extent] at owns apart
    have pointer := readNat_congr (kept.region owns apart)
    obtain ⟨still, owned⟩ := is'.kept ownsString new kept region
    refine .string found kind is ?_ ?_ ?_ <;> rw [pointer]
    · exact still
    · exact owned
    · exact new
  | object found' kind _ ih =>
    obtain rfl := Option.some.inj (found.symm.trans found')
    have extent : descriptor.extent = descriptor.size := by rw [MetaDescriptor.extent, kind]
    rw [extent] at owns apart
    refine .object found kind fun field member => ?_
    obtain ⟨fieldType, foundField, -, inside⟩ := (json _ _ found kind).types field member
    exact ih field member foundField (fun x low high => owns x (by omega) (by omega)) (by omega)

end Objects

end Vaudou
